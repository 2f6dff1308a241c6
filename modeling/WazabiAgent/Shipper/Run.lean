import Mathlib.Data.List.MinMax
import Mathlib.Data.List.Pairwise
import Mathlib.Data.String.Basic
import WazabiAgent.Lib.Transition
import WazabiAgent.Spool.File

/-!
# The shipper

`shipper_main` looks for the oldest batch over all watched directories, sends it, and looks again.
A batch that the server accepts is deleted. One that it rejects stays on disk, and one that could
not be delivered stays too; the two differ in how long the thread sleeps, and in nothing else. In
particular the shipper keeps no record of what was rejected.

The directories belong to the spools, which add batches and evict them at any time. What a listing
of a directory shows is the environment's choice: it may fail as a whole, or for single entries.

## Ghost state

`rejected` are the batches that were answered with a 4xx or did not decode, and `blocked` says
whether a batch among them was ever picked while another batch was present.

## Main definitions

* `oldestBatch`, `sendOne`, `nextBackoff` — the functions of the thread
* `ShipperState.step` — the thread, beside the spools
* `Path.Older` — the order in which batches are picked

## Main results

* `oldestBatch_eq_some` — what is picked
* `notBlocked_iff` — a rejected batch never gets in the way of another, exactly if it is never
  the oldest
* `poisoned_blocks` — if it is, no other batch is ever attempted
-/

namespace WazabiAgent

namespace Shipper

open LabelledStep Spool

/-! ### Picking a batch -/

/-- A file in one of the watched directories. -/
structure Path where
  name : String
  dir : ℕ
  deriving DecidableEq

/-- The body of the inner loop of `oldest_batch`, for the entry `name` of directory `dir`. -/
def consider (dir : ℕ) (best : Option Path) (name : String) : Option Path :=
  if isBatchName name then
    match best with
    | some b => if b.name ≤ name then some b else some ⟨name, dir⟩
    | none => some ⟨name, dir⟩
  else best

/-- The loops over the directories, of which `dir` is the first; `none` is one that cannot be
read. -/
def scan (dir : ℕ) (best : Option Path) : List (Option (List String)) → Option Path
  | [] => best
  | none :: rest => scan (dir + 1) best rest
  | some names :: rest => scan (dir + 1) (names.foldl (consider dir) best) rest

/-- The batch to send next, over the directories that can be listed. -/
def oldestBatch (listing : List (Option (List String))) : Option Path := scan 0 none listing

/-- The batches of a listing, in the order in which they are considered. -/
def batchesFrom (dir : ℕ) : List (Option (List String)) → List Path
  | [] => []
  | names :: rest =>
    ((names.getD []).filter isBatchName).map (⟨·, dir⟩) ++ batchesFrom (dir + 1) rest

/-- The batches of a listing. -/
def batches (listing : List (Option (List String))) : List Path := batchesFrom 0 listing

/-- Picked before: by name, and on a tie from an earlier directory. -/
def Path.Older (p q : Path) : Prop := p.name < q.name ∨ p.name = q.name ∧ p.dir < q.dir

instance (p q : Path) : Decidable (p.Older q) := by
  unfold Path.Older
  infer_instance

/-- The comparison of names by which `argmin` folds. -/
abbrev pick : Option Path → Path → Option Path := List.argAux fun b c => b.name < c.name

theorem consider_of_batch {dir : ℕ} {best : Option Path} {name : String}
    (h : isBatchName name = true) : consider dir best name = pick best ⟨name, dir⟩ := by
  cases best with
  | none => simp [consider, h, pick, List.argAux]
  | some b =>
    by_cases hle : b.name ≤ name
    · simp [consider, h, pick, List.argAux, hle, not_lt.mpr hle]
    · simp [consider, h, pick, List.argAux, hle, not_le.mp hle]

theorem foldl_consider (dir : ℕ) (best : Option Path) (names : List String) :
    names.foldl (consider dir) best =
      ((names.filter isBatchName).map (⟨·, dir⟩)).foldl pick best := by
  induction names generalizing best with
  | nil => rfl
  | cons name names ih =>
    by_cases h : isBatchName name = true
    · rw [List.foldl_cons, ih, consider_of_batch h, List.filter_cons_of_pos h, List.map_cons,
        List.foldl_cons]
    · have hskip : consider dir best name = best := if_neg h
      rw [List.foldl_cons, ih, List.filter_cons_of_neg h, hskip]

theorem scan_eq (dir : ℕ) (best : Option Path) (listing : List (Option (List String))) :
    scan dir best listing = (batchesFrom dir listing).foldl pick best := by
  induction listing generalizing dir best with
  | nil => rfl
  | cons names rest ih =>
    cases names with
    | none => rw [scan, ih, batchesFrom]; rfl
    | some names => rw [scan, ih, batchesFrom, List.foldl_append, foldl_consider]; rfl

/-- The first of the batches with the least name. -/
theorem oldestBatch_eq_argmin (listing : List (Option (List String))) :
    oldestBatch listing = (batches listing).argmin Path.name :=
  scan_eq 0 none listing

theorem le_dir_of_mem_batchesFrom {dir : ℕ} {listing : List (Option (List String))} {p : Path}
    (h : p ∈ batchesFrom dir listing) : dir ≤ p.dir := by
  induction listing generalizing dir with
  | nil => simp [batchesFrom] at h
  | cons names rest ih =>
    rw [batchesFrom, List.mem_append, List.mem_map] at h
    rcases h with ⟨name, -, rfl⟩ | h
    · exact le_rfl
    · exact (Nat.le_succ dir).trans (ih h)

theorem batchesFrom_sorted (dir : ℕ) (listing : List (Option (List String))) :
    (batchesFrom dir listing).Pairwise fun p q => p.dir ≤ q.dir := by
  induction listing generalizing dir with
  | nil => exact List.Pairwise.nil
  | cons names rest ih =>
    rw [batchesFrom, List.pairwise_append]
    refine ⟨List.pairwise_map.mpr (List.pairwise_of_forall fun _ _ => le_rfl), ih (dir + 1), ?_⟩
    rintro p hp q hq
    obtain ⟨name, -, rfl⟩ := List.mem_map.mp hp
    exact (Nat.le_succ dir).trans (le_dir_of_mem_batchesFrom hq)

/-- **What is picked.** The batch that comes before every other one. -/
theorem oldestBatch_eq_some {listing : List (Option (List String))} {p : Path}
    (h : oldestBatch listing = some p) :
    p ∈ batches listing ∧ ∀ q ∈ batches listing, q ≠ p → p.Older q := by
  rw [oldestBatch_eq_argmin, List.argmin_eq_some_iff] at h
  obtain ⟨hmem, hle, hidx⟩ := h
  refine ⟨hmem, fun q hq hne => ?_⟩
  rcases lt_or_eq_of_le (hle q hq) with hlt | heq
  · exact .inl hlt
  · refine .inr ⟨heq, ?_⟩
    -- on a tie the first one stays, and the batches come by directory
    have hlt : (batches listing).idxOf p < (batches listing).idxOf q := by
      refine lt_of_le_of_ne (hidx q hq heq.ge) fun h => hne ?_
      exact ((List.idxOf_inj hmem).mp h).symm
    have hle : p.dir ≤ q.dir := by
      have h := List.pairwise_iff_get.mp (batchesFrom_sorted 0 listing)
        ⟨_, List.idxOf_lt_length_of_mem hmem⟩ ⟨_, List.idxOf_lt_length_of_mem hq⟩ hlt
      rwa [List.idxOf_get, List.idxOf_get] at h
    refine lt_of_le_of_ne hle fun hd => hne ?_
    cases p
    cases q
    simp_all

theorem Path.Older.asymm {p q : Path} (h : p.Older q) : ¬ q.Older p := by
  intro h'
  rcases h with h | ⟨h, hd⟩ <;> rcases h' with h' | ⟨h', hd'⟩
  · exact lt_asymm h h'
  · exact absurd h' h.ne'
  · exact absurd h h'.ne'
  · omega

theorem oldestBatch_isSome {listing : List (Option (List String))} {q : Path}
    (h : q ∈ batches listing) : ∃ p, oldestBatch listing = some p := by
  refine Option.ne_none_iff_exists'.mp fun hnone => ?_
  rw [oldestBatch_eq_argmin, List.argmin_eq_none] at hnone
  simp [hnone] at h

/-- A batch that comes before every other one is picked. -/
theorem oldestBatch_eq_of_older {listing : List (Option (List String))} {r : Path}
    (hmem : r ∈ batches listing) (h : ∀ q ∈ batches listing, q ≠ r → r.Older q) :
    oldestBatch listing = some r := by
  obtain ⟨p, hp⟩ := oldestBatch_isSome hmem
  obtain ⟨hpmem, hfirst⟩ := oldestBatch_eq_some hp
  by_cases hpr : p = r
  · rw [hp, hpr]
  · exact absurd (hfirst r hmem (Ne.symm hpr)) (h p hpmem hpr).asymm

/-! ### Sending it -/

/-- What `ureq` comes back with. -/
inductive Answer
  | response (status : ℕ)
  | errorStatus (status : ℕ)
  | transport (error : String)

/-- The environment's part in one attempt. -/
structure Attempt where
  readError : Option String := none
  /-- `zstd` decodes the file. -/
  decodes : Bool := true
  answer : Answer := .response 200

/-- What an attempt to send a batch comes to. -/
inductive Outcome
  | ok
  | rejected (status : ℕ)
  | retry (why : String)

/-- One attempt: the batch is read, decoded and posted. -/
def sendOne (a : Attempt) : Outcome :=
  match a.readError with
  | some e => .retry s!"read batch: {e}"
  | none =>
    if a.decodes then
      match a.answer with
      | .response status =>
        if 200 ≤ status ∧ status < 300 then .ok
        else if 400 ≤ status ∧ status < 500 then .rejected status
        else .retry s!"server {status}"
      | .errorStatus status =>
        if 400 ≤ status ∧ status < 500 then .rejected status else .retry s!"server {status}"
      | .transport e => .retry s!"transport: {e}"
    else .rejected 0

/-- The three steps of the generator, on a seed that is made odd. -/
def xorshift (seed : UInt64) : UInt64 :=
  let a := seed ^^^ (seed <<< 13)
  let b := a ^^^ (a >>> 7)
  b ^^^ (b <<< 17)

/-- Durations are in nanoseconds; `nanos` is the clock that seeds the jitter. -/
def nextBackoff (curr max : ℕ) (nanos : UInt64) : ℕ :=
  let base := if curr = 0 then 1000000000 else min (curr * 2) max
  let ms := UInt64.ofNat (base / 1000000)
  if ms < 4 then base
  else
    let seed := xorshift (nanos ||| 1)
    let jitter := (seed % (ms / 2)).toInt64.toInt
    let signed :=
      if seed &&& 1 = 0 then ms.toInt64.toInt + jitter / 2 else ms.toInt64.toInt - jitter / 2
    min ((Max.max signed 1).toNat * 1000000) max

/-! ### The thread and the spools -/

/-- The watched directories and the thread that sends from them. -/
structure ShipperState where
  /-- The names in each watched directory. -/
  dirs : List (List String)
  /-- The batch that was picked and is being sent. -/
  sending : Option Path := none
  backoff : ℕ := 0
  batchesSent : ℕ := 0
  batchesRejected : ℕ := 0
  sendRetries : ℕ := 0
  /-- Ghost: batches answered with a 4xx, or not decoded. -/
  rejected : List Path := []
  /-- Ghost: one of them was picked while another batch was present. -/
  blocked : Bool := false

/-- The batches there are. -/
def ShipperState.present (s : ShipperState) : List Path := batches (s.dirs.map some)

/-- A listing shows nothing that is not there. -/
def listed : List (Option (List String)) → List (List String) → Bool
  | [], [] => true
  | names :: rest, dir :: dirs => (names.getD []).all (· ∈ dir) && listed rest dirs
  | _, _ => false

/-- What happens next. -/
inductive Label
  /-- A spool seals a batch in a directory. -/
  | addBatch (dir : ℕ) (name : String)
  /-- A spool evicts a file. -/
  | evict (dir : ℕ) (name : String)
  /-- The thread picks a batch. -/
  | scan (listing : List (Option (List String)))
  /-- It sends it, and sleeps; `removed` says whether the file of a sent batch could be deleted. -/
  | finish (a : Attempt) (nanos : UInt64) (removed : Bool)

/-- Removes a file from a directory. -/
def ShipperState.delete (s : ShipperState) (dir : ℕ) (name : String) : ShipperState :=
  { s with dirs := s.dirs.modify dir fun names => names.filter (· ≠ name) }

/-- The branches of `shipper_main` on the outcome. -/
def ShipperState.onOutcome (maxBackoff : ℕ) (s : ShipperState) (p : Path) (nanos : UInt64)
    (removed : Bool) : Outcome → ShipperState
  | .ok =>
    { if removed then s.delete p.dir p.name else s with
      sending := none, backoff := 0, batchesSent := s.batchesSent + 1 }
  | .rejected _ =>
    { s with
      sending := none, batchesRejected := s.batchesRejected + 1, rejected := p :: s.rejected }
  | .retry _ =>
    { s with
      sending := none, sendRetries := s.sendRetries + 1
      backoff := nextBackoff s.backoff maxBackoff nanos }

/-- The ghost record of a pick. -/
def ShipperState.blocks (s : ShipperState) (p : Path) : Bool :=
  decide (p ∈ s.rejected) && s.present.any (· ∉ s.rejected)

/-- One step of the thread, or of the spools behind it. -/
def ShipperState.step (maxBackoff : ℕ) (s : ShipperState) : Label → Option ShipperState
  | .addBatch dir name =>
    if name ∈ s.dirs.getD dir [] ∨ s.dirs.length ≤ dir then none
    else
      some { s with
        dirs := s.dirs.modify dir (name :: ·)
        rejected := s.rejected.filter (· ≠ ⟨name, dir⟩) }
  | .evict dir name => some (s.delete dir name)
  | .scan listing =>
    if s.sending.isSome ∨ listed listing s.dirs = false then none
    else
      match oldestBatch listing with
      | none => some s
      | some p => some { s with sending := some p, blocked := s.blocked || s.blocks p }
  | .finish a nanos removed =>
    match s.sending with
    | none => none
    | some p => some (s.onOutcome maxBackoff p nanos removed (sendOne a))

/-- Nothing is being sent. -/
def ShipperState.start (dirs : List (List String)) : ShipperState := { dirs }

/-! ### When a rejected batch is in nobody's way -/

/-- The condition on a step: while a batch is present that has not been rejected, each rejected
batch of the listing comes after one that has not. -/
def StepOk (s : ShipperState) : Label → Prop
  | .scan listing =>
    (∃ u ∈ s.present, u ∉ s.rejected) → ∀ r ∈ batches listing, r ∈ s.rejected →
      ∃ b ∈ batches listing, b ∉ s.rejected ∧ b.Older r
  | _ => True

instance (s : ShipperState) (l : Label) : Decidable (StepOk s l) := by
  unfold StepOk
  split <;> infer_instance

variable {maxBackoff : ℕ} {s t : ShipperState} {l : Label}

theorem blocked_onOutcome (p : Path) (nanos : UInt64) (removed : Bool) (o : Outcome) :
    (s.onOutcome maxBackoff p nanos removed o).blocked = s.blocked := by
  cases o with
  | ok => cases removed <;> rfl
  | _ => rfl

/-- What a scan does, if it is enabled. -/
theorem scan_cases {listing : List (Option (List String))}
    (h : s.step maxBackoff (.scan listing) = some t) :
    (oldestBatch listing = none ∧ t = s) ∨ ∃ p, oldestBatch listing = some p ∧
      t = { s with sending := some p, blocked := s.blocked || s.blocks p } := by
  simp only [ShipperState.step] at h
  split_ifs at h
  split at h
  · next hnone => exact .inl ⟨hnone, (Option.some.inj h).symm⟩
  · next p hp => exact .inr ⟨p, hp, (Option.some.inj h).symm⟩

theorem blocks_eq_true {p : Path} :
    s.blocks p = true ↔ p ∈ s.rejected ∧ ∃ u ∈ s.present, u ∉ s.rejected := by
  simp [ShipperState.blocks, List.any_eq_true]

/-- The steps other than a scan pick nothing. -/
theorem blocked_of_step (h : s.step maxBackoff l = some t) (hl : ∀ listing, l ≠ .scan listing) :
    t.blocked = s.blocked := by
  cases l with
  | scan listing => exact absurd rfl (hl listing)
  | addBatch dir name =>
    simp only [ShipperState.step] at h
    split_ifs at h
    obtain rfl := Option.some.inj h
    rfl
  | evict dir name =>
    obtain rfl := Option.some.inj h
    rfl
  | finish a nanos removed =>
    simp only [ShipperState.step] at h
    split at h
    · cases h
    · obtain rfl := Option.some.inj h
      exact blocked_onOutcome _ _ _ _

/-- The step lemma. -/
theorem blocked_of_stepOk (hb : s.blocked = false) (hok : StepOk s l)
    (hst : s.step maxBackoff l = some t) : t.blocked = false := by
  by_cases hl : ∃ listing, l = .scan listing
  · obtain ⟨listing, rfl⟩ := hl
    obtain ⟨-, rfl⟩ | ⟨p, hp, rfl⟩ := scan_cases hst
    · exact hb
    · obtain ⟨hmem, hfirst⟩ := oldestBatch_eq_some hp
      have hfree : s.blocks p = false := by
        by_contra hblocks
        obtain ⟨hrej, hother⟩ := blocks_eq_true.mp (by simpa using hblocks)
        obtain ⟨b, hbmem, hbrej, hold⟩ := hok hother p hmem hrej
        have hne : b ≠ p := fun heq => hbrej (heq ▸ hrej)
        exact (hfirst b hbmem hne).asymm hold
      simp [hb, hfree]
  · rw [blocked_of_step hst fun listing heq => hl ⟨listing, heq⟩, hb]

/-- And a step outside of the condition blocks. -/
theorem stepOk_of_blocked (hst : s.step maxBackoff l = some t) (hb : t.blocked = false) :
    StepOk s l := by
  by_cases hl : ∃ listing, l = .scan listing
  · obtain ⟨listing, rfl⟩ := hl
    intro hother r hr hrej
    obtain ⟨p, hp⟩ := oldestBatch_isSome hr
    obtain ⟨hmem, hfirst⟩ := oldestBatch_eq_some hp
    obtain ⟨hnone, -⟩ | ⟨p', hp', rfl⟩ := scan_cases hst
    · simp [hp] at hnone
    · obtain rfl : p = p' := Option.some.inj (hp.symm.trans hp')
      have hfree : s.blocks p = false := by
        rw [Bool.or_eq_false_iff] at hb
        exact hb.2
      have hprej : p ∉ s.rejected := by
        intro hprej
        exact absurd (hfree.symm.trans (blocks_eq_true.mpr ⟨hprej, hother⟩)) Bool.false_ne_true
      exact ⟨p, hmem, hprej, hfirst r hr fun heq => hprej (heq ▸ hrej)⟩
  · cases l with
    | scan listing => exact absurd ⟨listing, rfl⟩ hl
    | _ => trivial

/-- **When a rejected batch is in nobody's way.** At no point of a run has a rejected batch been
picked while another one was present, if and only if at each scan of the run every rejected batch
comes after one that has not been rejected, as long as there is one. -/
theorem notBlocked_iff (maxBackoff : ℕ) (dirs : List (List String)) (ls : List Label)
    (s : ShipperState) (hr : run (ShipperState.step maxBackoff) (.start dirs) ls = some s) :
    (∀ ms rest t, ls = ms ++ rest → run (ShipperState.step maxBackoff) (.start dirs) ms = some t →
      t.blocked = false) ↔ Along (ShipperState.step maxBackoff) StepOk (.start dirs) ls :=
  forall_split_iff_along rfl (fun _ _ _ _ hb hok hst => blocked_of_stepOk hb hok hst)
    (fun _ _ _ _ _ hst hb => stepOk_of_blocked hst hb) hr

/-- The only batch is rejected; then an older one arrives and is sent. -/
def olderArrives : List Label :=
  [.scan [some ["batch-2-1.zst"]], .finish { answer := .errorStatus 400 } 0 true,
    .addBatch 0 "batch-1-0.zst", .scan [some ["batch-2-1.zst", "batch-1-0.zst"]],
    .finish {} 0 true]

theorem olderArrives_free : ∃ s,
    run (ShipperState.step 60000000000) (.start [["batch-2-1.zst"]]) olderArrives = some s ∧
    ∀ ms rest t, olderArrives = ms ++ rest →
      run (ShipperState.step 60000000000) (.start [["batch-2-1.zst"]]) ms = some t →
        t.blocked = false :=
  ⟨_, rfl, (notBlocked_iff 60000000000 [["batch-2-1.zst"]] olderArrives _ rfl).mpr (by decide)⟩

/-- The older of two batches is rejected. -/
def olderRejected : List Label :=
  [.scan [some ["batch-1-0.zst", "batch-2-1.zst"]], .finish { answer := .errorStatus 400 } 0 true,
    .scan [some ["batch-1-0.zst", "batch-2-1.zst"]]]

/-- **The rejected batch is picked again**, and the other one is not. -/
theorem olderRejected_blocks : ∃ s,
    run (ShipperState.step 60000000000) (.start [["batch-1-0.zst", "batch-2-1.zst"]])
      olderRejected = some s ∧ s.blocked = true ∧ s.sending = some ⟨"batch-1-0.zst", 0⟩ ∧
      ⟨"batch-2-1.zst", 0⟩ ∈ s.present :=
  ⟨_, rfl, rfl, rfl, by decide⟩

/-! ### What a poisoned batch blocks -/

theorem mem_batchesFrom_iff {dir : ℕ} {listing : List (Option (List String))} {p : Path} :
    p ∈ batchesFrom dir listing ↔ dir ≤ p.dir ∧ isBatchName p.name = true ∧
      ∃ names, listing[p.dir - dir]? = some (some names) ∧ p.name ∈ names := by
  induction listing generalizing dir with
  | nil => simp [batchesFrom]
  | cons head rest ih =>
    rw [batchesFrom, List.mem_append, ih]
    by_cases hd : p.dir = dir
    · have hmem : p ∈ ((head.getD []).filter isBatchName).map (Path.mk · dir) ↔
          isBatchName p.name = true ∧ p.name ∈ head.getD [] := by
        rw [List.mem_map]
        constructor
        · rintro ⟨name, hname, rfl⟩
          exact (List.mem_filter.mp hname).symm
        · rintro ⟨hb, hname⟩
          exact ⟨p.name, List.mem_filter.mpr ⟨hname, hb⟩, by rw [← hd]⟩
      rw [hmem]
      cases head <;> simp [hd]
    · have hmem : ¬ p ∈ ((head.getD []).filter isBatchName).map (Path.mk · dir) := by
        rintro h
        obtain ⟨name, -, rfl⟩ := List.mem_map.mp h
        exact hd rfl
      by_cases hle : dir ≤ p.dir
      · have hidx : p.dir - dir = p.dir - (dir + 1) + 1 := by omega
        have hle' : dir + 1 ≤ p.dir := by omega
        simp [hmem, hle, hle', hidx]
      · have hle' : ¬ dir + 1 ≤ p.dir := by omega
        simp [hmem, hle, hle']

theorem mem_present_iff {p : Path} : p ∈ s.present ↔
    isBatchName p.name = true ∧ ∃ names, s.dirs[p.dir]? = some names ∧ p.name ∈ names := by
  rw [ShipperState.present, batches, mem_batchesFrom_iff]
  simp

theorem mem_present_of_listed {listing : List (Option (List String))} {p : Path}
    (h : listed listing s.dirs = true) (hp : p ∈ batches listing) : p ∈ s.present := by
  obtain ⟨-, hb, names, hnames, hmem⟩ := mem_batchesFrom_iff.mp hp
  refine mem_present_iff.mpr ⟨hb, ?_⟩
  rw [Nat.sub_zero] at hnames
  generalize s.dirs = dirs at h
  generalize p.dir = n at hnames
  clear hp
  induction listing generalizing dirs n with
  | nil => simp at hnames
  | cons head rest ih =>
    cases dirs with
    | nil => simp [listed] at h
    | cons dir dirs =>
      rw [listed, Bool.and_eq_true] at h
      cases n with
      | zero =>
        obtain rfl : head = some names := by simpa using hnames
        have hsub := List.all_eq_true.mp h.1 p.name hmem
        exact ⟨dir, rfl, by simpa using hsub⟩
      | succ n => exact ih dirs h.2 n (by simpa using hnames)

/-- A batch that is there after a name was added is that name or was there before. -/
theorem eq_or_mem_present_of_add {dir : ℕ} {name : String} {q : Path} {rejected : List Path}
    (hq : q ∈ { s with dirs := s.dirs.modify dir (name :: ·), rejected := rejected }.present) :
    (q = ⟨name, dir⟩ ∧ isBatchName name = true) ∨ q ∈ s.present := by
  obtain ⟨hb, names, hnames, hmem⟩ := mem_present_iff.mp hq
  rw [List.getElem?_modify] at hnames
  obtain ⟨old, hold, hfun⟩ := Option.map_eq_some_iff.mp hnames
  have hpresent (h : q.name ∈ old) : q ∈ s.present := mem_present_iff.mpr ⟨hb, old, hold, h⟩
  by_cases hd : dir = q.dir
  · rw [if_pos hd] at hfun
    rw [← hfun, List.mem_cons] at hmem
    rcases hmem with rfl | hmem
    · exact .inl ⟨by rw [hd], hb⟩
    · exact .inr (hpresent hmem)
  · rw [if_neg hd] at hfun
    exact .inr (hpresent (hfun ▸ hmem))

theorem mem_present_of_delete {dir : ℕ} {name : String} {q : Path}
    (hq : q ∈ (s.delete dir name).present) : q ∈ s.present := by
  obtain ⟨hb, names, hnames, hmem⟩ := mem_present_iff.mp hq
  rw [ShipperState.delete, List.getElem?_modify] at hnames
  obtain ⟨old, hold, hfun⟩ := Option.map_eq_some_iff.mp hnames
  refine mem_present_iff.mpr ⟨hb, old, hold, ?_⟩
  by_cases hd : dir = q.dir
  · rw [if_pos hd] at hfun
    rw [← hfun] at hmem
    exact List.mem_of_mem_filter hmem
  · rw [if_neg hd] at hfun
    exact hfun ▸ hmem

/-- What happens while `r` is refused: it stays, is listed, and is refused each time; what
arrives comes after it. -/
def Refused (r : Path) (s : ShipperState) : Label → Prop
  | .addBatch dir name => isBatchName name = true → r.Older ⟨name, dir⟩
  | .evict dir name => (⟨name, dir⟩ : Path) ≠ r
  | .scan listing => r ∈ batches listing
  | .finish a _ _ => s.sending = some r → ∃ status, sendOne a = .rejected status

/-- The refused batch comes first, and nothing else is being sent. -/
structure Poisoned (r : Path) (s : ShipperState) : Prop where
  sending : ∀ p, s.sending = some p → p = r
  first : ∀ q ∈ s.present, q ≠ r → r.Older q

theorem Poisoned.step {r : Path} (h : Poisoned r s) (hl : Refused r s l)
    (hst : s.step maxBackoff l = some t) : Poisoned r t := by
  cases l with
  | addBatch dir name =>
    simp only [ShipperState.step] at hst
    split_ifs at hst
    obtain rfl := Option.some.inj hst
    refine ⟨h.sending, fun q hq hne => ?_⟩
    rcases eq_or_mem_present_of_add hq with ⟨rfl, hb⟩ | hq
    · exact hl hb
    · exact h.first q hq hne
  | evict dir name =>
    obtain rfl := Option.some.inj hst
    exact ⟨h.sending, fun q hq hne => h.first q (mem_present_of_delete hq) hne⟩
  | scan listing =>
    have hlisted : listed listing s.dirs = true := by
      simp only [ShipperState.step] at hst
      split_ifs at hst with hcond
      simpa using (not_or.mp hcond).2
    have hfirst : oldestBatch listing = some r := oldestBatch_eq_of_older hl fun q hq hne =>
      h.first q (mem_present_of_listed hlisted hq) hne
    obtain ⟨hnone, -⟩ | ⟨p, hp, rfl⟩ := scan_cases hst
    · simp [hfirst] at hnone
    · obtain rfl : r = p := Option.some.inj (hfirst.symm.trans hp)
      exact ⟨fun p hp' => (Option.some.inj hp').symm, h.first⟩
  | finish a nanos removed =>
    simp only [ShipperState.step] at hst
    split at hst
    · cases hst
    · next p hp =>
      obtain rfl := Option.some.inj hst
      obtain rfl := h.sending p hp
      obtain ⟨status, hstatus⟩ := hl hp
      rw [hstatus]
      exact ⟨fun _ hp' => absurd hp' (Option.some_ne_none _).symm, h.first⟩

/-- **A poisoned batch blocks all others.** While the oldest batch is refused again and again, no
other batch is ever attempted. -/
theorem poisoned_blocks {r : Path} {ls : List Label} (h : Poisoned r s)
    (ha : Along (ShipperState.step maxBackoff) (Refused r) s ls)
    (hr : run (ShipperState.step maxBackoff) s ls = some t) : ∀ p, t.sending = some p → p = r :=
  (invariant_of_along (fun _ _ _ h hl hst => h.step hl hst) h ha hr).sending

end Shipper

end WazabiAgent
