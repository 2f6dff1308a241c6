import Mathlib.Algebra.BigOperators.Group.List.Basic
import Mathlib.Algebra.Ring.Nat
import Mathlib.Data.List.Dedup
import WazabiAgent.Spool.Writer

/-!
# The size cap of a spool

`enforce_total_size_cap` adds up the batches of a directory listing and removes them, the oldest
first, as long as the sum is above the cap. A removal that fails leaves the sum as it is, and the
loop goes on with the next batch.

The sizes are those of the listing, where an entry without metadata has none. The sum is a natural
number: no volume holds `2 ^ 64` bytes.

## Main definitions

* `CapEvent` — what the listing and the removals tell
* `Enforced` — what the loop has done to the batches it was given

## Main results

* `enforced_of_evict` — the loop
* `size_cap_minimal` — no batch is removed that the cap does not ask for, and none is left that it
  asks for and that can be removed
-/

namespace WazabiAgent

namespace Spool

open Prog

/-! ### The record of a run -/

/-- What a run of the cap meets: the listing of the directory, or its failure, and the removals. -/
inductive CapEvent
  | listed (entries : List (String × ℕ))
  | unlisted
  | tried (name : String) (removed : Bool)
  deriving DecidableEq

/-- What an answer tells. -/
def capEvent {β : Type} (o : SpoolOp β) (_ : Choice) (answer : β) : Option CapEvent :=
  match o, answer with
  | .readDir, some entries => some (.listed entries)
  | .readDir, none => some .unlisted
  | .remove name, removed => some (.tried name removed)
  | _, _ => none

/-- A batch whose removal was tried, and whether it is gone. -/
abbrev Removal := (String × ℕ) × Bool

/-- A removal that was tried, and its outcome. -/
def Removal.event (a : Removal) : CapEvent := .tried a.1.1 a.2

/-- The bytes of these batches. -/
def totalSize (batches : List (String × ℕ)) : ℕ := (batches.map Prod.snd).sum

/-- The batches that are left: those whose removal has failed, and those that were not tried. -/
def remaining (tried : List Removal) (untried : List (String × ℕ)) : List (String × ℕ) :=
  (tried.filter fun a => !a.2).map Prod.fst ++ untried

/-- The names of the batches that are gone. -/
def removed (tried : List Removal) : List String := (tried.filter Prod.snd).map fun a => a.1.1

@[simp] theorem totalSize_cons (b : String × ℕ) (batches : List (String × ℕ)) :
    totalSize (b :: batches) = b.2 + totalSize batches := by
  rw [totalSize, List.map_cons, List.sum_cons, totalSize]

theorem foldl_size (batches : List (String × ℕ)) (n : ℕ) :
    batches.foldl (fun total e => total + e.2) n = n + totalSize batches := by
  induction batches generalizing n with
  | nil => rfl
  | cons b batches ih => rw [List.foldl_cons, ih, totalSize_cons, Nat.add_assoc]

/-- What is gone can be told from the record. -/
theorem removed_eq (tried : List Removal) : removed tried =
    (tried.map Removal.event).filterMap fun
      | .tried name true => some name
      | _ => none := by
  induction tried with
  | nil => rfl
  | cons a tried ih =>
    obtain ⟨b, gone⟩ := a
    cases gone <;> simpa [removed, Removal.event] using ih

@[simp] theorem remaining_removed (b : String × ℕ) (tried : List Removal)
    (untried : List (String × ℕ)) :
    remaining ((b, true) :: tried) untried = remaining tried untried :=
  rfl

@[simp] theorem remaining_failed (b : String × ℕ) (tried : List Removal)
    (untried : List (String × ℕ)) :
    remaining ((b, false) :: tried) untried = b :: remaining tried untried :=
  rfl

/-! ### The loop -/

/-- What the loop has done to `batches`, where `kept` is the size of the ones before whose removal
has failed. -/
structure Enforced (cfg : SpoolConfig) (kept : ℕ) (batches : List (String × ℕ)) (w w' : SpoolState)
    (tried : List Removal) (untried : List (String × ℕ)) : Prop where
  order : batches = tried.map Prod.fst ++ untried
  enough : kept + totalSize (remaining tried untried) ≤ cfg.maxTotalBytes ∨ untried = []
  needed : ∀ before b after, tried = before ++ (b, true) :: after →
    cfg.maxTotalBytes < kept + totalSize (remaining before (b :: (after.map Prod.fst ++ untried)))
  dir : ∀ name, w'.dir name = if name ∈ removed tried then none else w.dir name
  stats : w'.stats =
    { w.stats with batchesEvicted := w.stats.batchesEvicted + (removed tried).length }

variable {cfg : SpoolConfig} {kept size : ℕ} {path : String} {batches untried : List (String × ℕ)}
  {tried : List Removal} {w w' : SpoolState}

/-- The loop ends without a further call. -/
theorem Enforced.stop (h : kept + totalSize batches ≤ cfg.maxTotalBytes ∨ batches = []) :
    Enforced cfg kept batches w w [] batches where
  order := rfl
  enough := h
  needed before b after h := by
    cases before with
    | nil => cases h
    | cons a before => cases h
  dir _ := rfl
  stats := rfl

/-- The state behind a removal that is counted. -/
def SpoolState.evictBatch (w : SpoolState) (path : String) : SpoolState :=
  let v := w.delete path .evicting
  { v with
    stats := { v.stats with batchesEvicted := v.stats.batchesEvicted + 1 }
    batches := v.batches.map .count }

/-- A batch is removed. -/
theorem Enforced.remove (habove : cfg.maxTotalBytes < kept + (size + totalSize batches))
    (h : Enforced cfg kept batches (w.evictBatch path) w' tried untried) :
    Enforced cfg kept ((path, size) :: batches) w w' (((path, size), true) :: tried) untried where
  order := by rw [List.map_cons, List.cons_append, ← h.order]
  enough := h.enough
  needed before b after hsplit := by
    cases before with
    | nil =>
      obtain ⟨⟨rfl, -⟩, rfl⟩ := by simpa using hsplit
      show cfg.maxTotalBytes < kept + totalSize ((path, size) :: (tried.map Prod.fst ++ untried))
      rwa [← h.order, totalSize_cons]
    | cons a before =>
      obtain ⟨rfl, htail⟩ := List.cons.inj hsplit
      exact h.needed before b after htail
  dir name := by
    have hstate : (w.evictBatch path).dir name = if name = path then none else w.dir name :=
      Function.update_apply w.dir path none name
    have hmem : name ∈ removed (((path, size), true) :: tried) ↔
        name = path ∨ name ∈ removed tried := List.mem_cons
    rw [h.dir, hstate]
    by_cases hname : name = path
    · rw [if_pos hname, if_pos (hmem.mpr (.inl hname)), ite_self]
    · rw [if_neg hname]
      by_cases hremoved : name ∈ removed tried
      · rw [if_pos hremoved, if_pos (hmem.mpr (.inr hremoved))]
      · rw [if_neg hremoved, if_neg (mt hmem.mp (not_or.mpr ⟨hname, hremoved⟩))]
  stats := by
    rw [h.stats]
    show _ = { w.stats with
      batchesEvicted := w.stats.batchesEvicted + ((removed tried).length + 1) }
    rw [Nat.add_comm _ 1, ← Nat.add_assoc]
    rfl

/-- A removal fails. -/
theorem Enforced.fail (h : Enforced cfg (kept + size) batches w w' tried untried) :
    Enforced cfg kept ((path, size) :: batches) w w' (((path, size), false) :: tried) untried where
  order := by rw [List.map_cons, List.cons_append, ← h.order]
  enough := by
    rw [remaining_failed, totalSize_cons, ← Nat.add_assoc]
    exact h.enough
  needed before b after hsplit := by
    cases before with
    | nil => simp at hsplit
    | cons a before =>
      obtain ⟨rfl, htail⟩ := List.cons.inj hsplit
      rw [remaining_failed, totalSize_cons, ← Nat.add_assoc]
      exact h.needed before b after htail
  dir := h.dir
  stats := h.stats

/-- The loop. -/
theorem enforced_of_evict {total : ℕ} {record record' : List CapEvent}
    (h : Reaches (logged perform capEvent) (evict cfg batches total) (w, record) () (w', record'))
    (htotal : total = kept + totalSize batches) :
    ∃ tried untried, record' = record ++ tried.map Removal.event ∧
      Enforced cfg kept batches w w' tried untried := by
  induction batches generalizing kept total w record with
  | nil =>
    rw [evict] at h
    cases h
    exact ⟨[], [], (List.append_nil _).symm, .stop (.inr rfl)⟩
  | cons b batches ih =>
    obtain ⟨path, size⟩ := b
    rw [totalSize_cons] at htotal
    rw [evict] at h
    split_ifs at h with hcap
    · cases h
      refine ⟨[], _, (List.append_nil _).symm, .stop (.inl ?_)⟩
      rw [totalSize_cons, ← htotal]
      exact hcap
    · obtain ⟨c, h⟩ := reaches_op h
      have hwithin : cfg.maxTotalBytes < kept + (size + totalSize batches) := by omega
      by_cases hok : (c.ok && (w.dir path).isSome) = true
      · have hperform : logged perform capEvent (.remove path) (w, record) c
            = (true, w.delete path .evicting, record ++ [.tried path true]) := by
          rw [logged, perform, if_pos hok]
          rfl
        rw [hperform] at h
        obtain ⟨c', h⟩ := reaches_op h
        obtain ⟨tried, untried, hrecord, henforced⟩ :=
          ih h (show total - size = kept + totalSize batches by omega)
        refine ⟨((path, size), true) :: tried, untried, ?_, henforced.remove hwithin⟩
        rw [hrecord]
        simp [capEvent, Removal.event]
      · have hperform : logged perform capEvent (.remove path) (w, record) c
            = (false, w, record ++ [.tried path false]) := by
          rw [logged, perform, if_neg hok]
          rfl
        rw [hperform] at h
        obtain ⟨tried, untried, hrecord, henforced⟩ :=
          ih h (show total = kept + size + totalSize batches by omega)
        refine ⟨((path, size), false) :: tried, untried, ?_, henforced.fail⟩
        rw [hrecord]
        simp [Removal.event]

/-! ### The listing -/

theorem nodup_list (d : Dir) (c : Choice) : ((d.list c).map Prod.fst).Nodup := by
  have hnames : (d.list c).map Prod.fst = c.listing.dedup.filter fun n => (d n).isSome := by
    rw [Dir.list]
    induction c.listing.dedup with
    | nil => rfl
    | cons n names ih =>
      cases hn : d n with
      | none => simp [hn, ih]
      | some f => simp [hn, ih]
  rw [hnames]
  exact (List.nodup_dedup _).filter _

theorem mem_of_mem_removed {name : String} (h : name ∈ removed tried) :
    ∃ b ∈ tried.map Prod.fst, b.1 = name := by
  obtain ⟨a, ha, rfl⟩ := List.mem_map.mp h
  exact ⟨a.1, List.mem_map_of_mem (List.mem_of_mem_filter ha), rfl⟩

theorem nodup_removed (h : ((tried.map Prod.fst).map Prod.fst).Nodup) : (removed tried).Nodup := by
  rw [List.map_map] at h
  exact h.sublist (List.filter_sublist.map _)

/-- What is left where no batch is untried. -/
theorem mem_remaining_nil {b : String × ℕ} (h : b ∈ remaining tried []) :
    CapEvent.tried b.1 false ∈ tried.map Removal.event := by
  rw [remaining, List.append_nil, List.mem_map] at h
  obtain ⟨a, ha, rfl⟩ := h
  obtain ⟨hmem, hfailed⟩ := List.mem_filter.mp ha
  refine List.mem_map.mpr ⟨a, hmem, ?_⟩
  rw [Removal.event, show a.2 = false by simpa using hfailed]

/-- What follows the listing: the loop over the sorted batches, or nothing where the sum is within
the cap. -/
theorem enforced_of_listed {entries : List (String × ℕ)} {record record' : List CapEvent}
    (h : Reaches (logged perform capEvent)
      (if totalSize (entries.filter fun e => isBatchName e.1) ≤ cfg.maxTotalBytes then .pure ()
      else evict cfg ((entries.filter fun e => isBatchName e.1).insertionSort fun a b => a.1 ≤ b.1)
        (totalSize (entries.filter fun e => isBatchName e.1))) (w, record) () (w', record')) :
    ∃ batches tried untried, batches.Perm (entries.filter fun e => isBatchName e.1) ∧
      record' = record ++ tried.map Removal.event ∧
      Enforced cfg 0 batches w w' tried untried := by
  split_ifs at h with hcap
  · cases h
    exact ⟨_, [], _, .refl _, (List.append_nil _).symm, .stop (.inl (by rwa [Nat.zero_add]))⟩
  · have hsorted := List.perm_insertionSort (fun a b : String × ℕ => a.1 ≤ b.1)
      (entries.filter fun e => isBatchName e.1)
    have htotal : totalSize (entries.filter fun e => isBatchName e.1)
        = 0 + totalSize ((entries.filter fun e => isBatchName e.1).insertionSort
          fun a b => a.1 ≤ b.1) := by
      rw [Nat.zero_add]
      exact ((hsorted.map Prod.snd).sum_eq).symm
    obtain ⟨tried, untried, hrecord, henforced⟩ := enforced_of_evict h htotal
    exact ⟨_, tried, untried, hsorted, hrecord, henforced⟩

/-- A run in which the listing fails does nothing. -/
theorem enforced_of_cap {record : List CapEvent}
    (h : Reaches (logged perform capEvent) (enforceTotalSizeCap cfg) (w, []) () (w', record)) :
    (record = [.unlisted] ∧ w' = w) ∨ ∃ entries batches tried untried,
      (entries.map Prod.fst).Nodup ∧
      batches.Perm (entries.filter fun e => isBatchName e.1) ∧
      record = .listed entries :: tried.map Removal.event ∧
      Enforced cfg 0 batches w w' tried untried := by
  rw [enforceTotalSizeCap] at h
  obtain ⟨c, h⟩ := reaches_op h
  cases hc : c.ok with
  | false =>
    have hperform : logged perform capEvent .readDir (w, []) c = (none, w, [.unlisted]) := by
      rw [logged, perform, hc]
      rfl
    rw [hperform] at h
    cases h
    exact .inl ⟨rfl, rfl⟩
  | true =>
    have hperform : logged perform capEvent .readDir (w, []) c
        = (some (w.dir.list c), w, [.listed (w.dir.list c)]) := by
      rw [logged, perform, hc]
      rfl
    rw [hperform, Prog.bind] at h
    dsimp only at h
    rw [foldl_size, Nat.zero_add] at h
    obtain ⟨batches, tried, untried, hperm, hrecord, henforced⟩ := enforced_of_listed h
    exact .inr ⟨_, batches, tried, untried, nodup_list w.dir c, hperm, hrecord, henforced⟩

/-- **The cap is enforced minimally.** If the directory cannot be listed, nothing happens. Otherwise
removals were tried of some of the listed batches; what is left of all of them is within the cap, or
the removal of each that is left has failed; at each removal what was left was above the cap; the
files that were removed are batches, they and no others are gone, and they are counted. -/
theorem size_cap_minimal {record : List CapEvent}
    (h : Reaches (logged perform capEvent) (enforceTotalSizeCap cfg) (w, []) () (w', record)) :
    (record = [.unlisted] ∧ w' = w) ∨ ∃ entries tried untried,
      record = .listed entries :: tried.map Removal.event ∧
      (tried.map Prod.fst ++ untried).Perm (entries.filter fun e => isBatchName e.1) ∧
      (totalSize (remaining tried untried) ≤ cfg.maxTotalBytes ∨
        ∀ b ∈ remaining tried untried, .tried b.1 false ∈ record) ∧
      (∀ before b after, tried = before ++ (b, true) :: after →
        cfg.maxTotalBytes < totalSize (remaining before (b :: (after.map Prod.fst ++ untried)))) ∧
      (∀ name ∈ removed tried, isBatchName name = true) ∧
      (∀ name, w'.dir name = if name ∈ removed tried then none else w.dir name) ∧
      (removed tried).Nodup ∧
      w'.stats = { w.stats with
        batchesEvicted := w.stats.batchesEvicted + (removed tried).length } := by
  obtain hnothing | ⟨entries, batches, tried, untried, hnames, hperm, hrecord, henforced⟩ :=
    enforced_of_cap h
  · exact .inl hnothing
  · rw [henforced.order] at hperm
    refine .inr ⟨entries, tried, untried, hrecord, hperm, ?_, ?_, ?_, henforced.dir, ?_,
      henforced.stats⟩
    · refine henforced.enough.imp (fun hle => by rwa [Nat.zero_add] at hle) fun hall b hb => ?_
      subst hall
      rw [hrecord]
      exact List.mem_cons_of_mem _ (mem_remaining_nil hb)
    · intro before b after hsplit
      have hneeded := henforced.needed before b after hsplit
      rwa [Nat.zero_add] at hneeded
    · intro name hname
      obtain ⟨b, hb, rfl⟩ := mem_of_mem_removed hname
      exact (List.mem_filter.mp (hperm.subset (List.mem_append_left _ hb))).2
    · have hnodup := (hperm.map Prod.fst).nodup_iff.mpr
        (hnames.sublist (List.filter_sublist.map _))
      rw [List.map_append] at hnodup
      exact nodup_removed hnodup.of_append_left

/-- Two batches of ten bytes, and a file that is none. -/
def twoSpooled : SpoolState :=
  (System.start fun name =>
    if name = "batch-1-0.zst" ∨ name = "batch-2-1.zst" ∨ name = "notes.zst" then
      some (.zst [] .whole 10)
    else none).spool

/-- They are listed, and the removal of the older one fails. -/
def oldestStays : List Choice :=
  [{ listing := ["batch-2-1.zst", "notes.zst", "batch-1-0.zst"] }, { ok := false }, {}, {}]

/-- The cap leaves room for one of them. -/
def roomForOne : SpoolConfig := { smallSpool with maxTotalBytes := 10 }

/-- The older batch stays, the other one goes and is counted, and the third file is not touched. -/
theorem oldest_stays : ∃ w' : SpoolState,
    Reaches (logged perform capEvent) (enforceTotalSizeCap roomForOne) (twoSpooled, []) ()
        (w', [.listed [("batch-2-1.zst", 10), ("notes.zst", 10), ("batch-1-0.zst", 10)],
          .tried "batch-1-0.zst" false, .tried "batch-2-1.zst" true]) ∧
      (∀ name, w'.dir name = if name = "batch-2-1.zst" then none else twoSpooled.dir name) ∧
      w'.stats.batchesEvicted = 1 := by
  let run := exec (logged perform capEvent) (enforceTotalSizeCap roomForOne) (twoSpooled, [])
    oldestStays
  have hend : run.1 = some () := by decide +kernel
  have hrecord : run.2.2 = [
      .listed [("batch-2-1.zst", 10), ("notes.zst", 10), ("batch-1-0.zst", 10)],
      .tried "batch-1-0.zst" false, .tried "batch-2-1.zst" true] := by decide +kernel
  have hreaches : Reaches (logged perform capEvent) (enforceTotalSizeCap roomForOne)
      (twoSpooled, []) () (run.2.1, run.2.2) :=
    reaches_iff_exec.mpr ⟨oldestStays, Prod.ext hend rfl⟩
  rw [hrecord] at hreaches
  obtain ⟨hnone, -⟩ | ⟨entries, tried, untried, hevents, -, -, -, -, hdir, -, hstats⟩ :=
    size_cap_minimal hreaches
  · cases hnone
  · have hremoved : removed tried = ["batch-2-1.zst"] := by
      rw [removed_eq, ← (List.cons.inj hevents).2]
      rfl
    refine ⟨run.2.1, hreaches, fun name => ?_, ?_⟩
    · rw [hdir, hremoved]
      simp
    · rw [hstats, hremoved]
      rfl

end Spool

end WazabiAgent
