import Mathlib.Data.List.Dedup
import WazabiAgent.Shipper.Pipeline
import WazabiAgent.Spool.Conservation
import WazabiAgent.Spool.FaithfulLog

/-!
# From the channel to the server, exactly once

The results about the spool end at its directory, and those about the shipper begin there. This
file joins them: what the server has acknowledged, in any interleaving of the spools with the
shipper, beside what the producers have handed in.

The answers of the server are no part of the state of the agent. A run therefore emits a log of
them, `Event.acked` with the body of the request, and beside it each failure of the deletion that
follows, since a batch that stays is sent again.

## What is assumed

As for the spool alone, sealing works and no torn piece is sealed; as for the shipper alone, no
prefix of a frame is accepted, and the directories have no complete batch at the start. Nothing is
assumed of the deletions: they are counted.

## Main definitions

* `Pipeline.emits` — the log of a run
* `Pipeline.ExactlyOnce` — the accepted lines of one spool, and what the server has of them

## Main results

* `Pipeline.Balanced.step` — the invariant over the state and the log
* `Pipeline.exactlyOnce_of_along` — exactly once, but for the deletions that fail
-/

namespace WazabiAgent

namespace Pipeline

open LabelledStep Prog Spool Shipper

/-! ### The log of a run -/

/-- What a run shows of the delivery. -/
inductive Event
  /-- The server has answered 2xx to a POST of this file with this body. -/
  | acked (p : Path) (body : List UInt8)
  /-- The file could not be removed after that. -/
  | unremoved (p : Path)
  deriving DecidableEq

/-- What a step adds to the log. -/
def emits (s : State) : Label → List Event
  | .post decoded answer =>
    match s.shipper with
    | .loaded p _ => if accepts decoded answer then [.acked p (decoded.getD [])] else []
    | _ => []
  | .remove ok =>
    match s.shipper with
    | .accepted p _ => if ok then [] else [.unremoved p]
    | _ => []
  | _ => []

/-- The file `p` has been acknowledged. -/
def Event.acks (p : Path) : Event → Bool
  | .acked q _ => q = p
  | .unremoved _ => false

/-- The name and the body, if the file is in the directory `i`. -/
def Event.receipt? (i : ℕ) : Event → Option (String × List UInt8)
  | .acked p body => if p.dir = i then some (p.name, body) else none
  | .unremoved _ => none

/-- How often the file `p` was acknowledged. -/
def acks (log : List Event) (p : Path) : ℕ := log.countP (Event.acks p)

/-- How often it could not be removed. -/
def stays (log : List Event) (p : Path) : ℕ := log.count (.unremoved p)

/-- The names and bodies of the batches of the directory `i` that the server has acknowledged. -/
def receipts (log : List Event) (i : ℕ) : List (String × List UInt8) :=
  log.filterMap (Event.receipt? i)

@[simp] theorem acks_append (log more : List Event) (p : Path) :
    acks (log ++ more) p = acks log p + acks more p := List.countP_append

@[simp] theorem stays_append (log more : List Event) (p : Path) :
    stays (log ++ more) p = stays log p + stays more p := List.count_append

theorem mem_receipts_iff {log : List Event} {i : ℕ} {n : String} {body : List UInt8} :
    (n, body) ∈ receipts log i ↔ .acked ⟨n, i⟩ body ∈ log := by
  rw [receipts, List.mem_filterMap]
  constructor
  · rintro ⟨e, he, hr⟩
    cases e with
    | acked p b =>
      simp only [Event.receipt?] at hr
      split_ifs at hr with hi
      obtain ⟨rfl, rfl⟩ : p.name = n ∧ b = body := by simpa using hr
      rw [← hi]
      exact he
    | unremoved p => cases hr
  · exact fun h => ⟨_, h, if_pos rfl⟩

theorem acks_pos_iff {log : List Event} {p : Path} :
    0 < acks log p ↔ ∃ body, .acked p body ∈ log := by
  rw [acks, List.countP_pos_iff]
  constructor
  · rintro ⟨e, he, hp⟩
    cases e with
    | acked q body =>
      obtain rfl : q = p := by simpa [Event.acks] using hp
      exact ⟨body, he⟩
    | unremoved q => cases hp
  · rintro ⟨body, h⟩
    exact ⟨_, h, by simp [Event.acks]⟩

/-! ### What is to be shown -/

/-- The batches that the server has acknowledged. -/
def confirmed (log : List Event) (i : ℕ) (w : SpoolState) : List Batch :=
  w.batches.filter fun b => 0 < acks log ⟨b.name, i⟩

/-- The batches that it has not. -/
def unconfirmed (log : List Event) (i : ℕ) (w : SpoolState) : List Batch :=
  w.batches.filter fun b => acks log ⟨b.name, i⟩ = 0

/-- The lines of some batches. -/
def linesOf (bs : List Batch) : List NdjsonLine := bs.flatMap fun b => wholeLines b.chunks

/-- **Exactly once.** Of the spool `i`, every accepted line is in one place, of which the batches
the server has acknowledged are one. What the server has are those batches, each with all of its
lines and nothing else; and it has one again only after a deletion has failed. A batch that it does
not have is in the directory, complete, or was evicted and counted. -/
structure ExactlyOnce (s : State) (log : List Event) (i : ℕ) : Prop where
  places : (s.spools i).spool.accepted.Perm
    (linesOf (confirmed log i (s.spools i).spool) ++
      linesOf (unconfirmed log i (s.spools i).spool) ++ (s.spools i).spool.unsealed ++
      (s.spools i).spool.hand.toList ++ (s.spools i).spool.queue ++ (s.spools i).spool.dropped)
  bodies : (receipts log i).dedup.Perm ((confirmed log i (s.spools i).spool).map fun b =>
    (b.name, (wholeLines b.chunks).flatMap NdjsonLine.bytes))
  repeats : ∀ n body, log.count (.acked ⟨n, i⟩ body) ≤ stays log ⟨n, i⟩ + 1
  kept : ∀ b ∈ unconfirmed log i (s.spools i).spool,
    (∃ size, (s.spools i).spool.dir b.name = some (.zst b.chunks .whole size)) ∨
      b.fate = .evicting ∨ b.fate = .evicted
  counted : (unconfirmed log i (s.spools i).spool).countP (fun b => b.fate = .evicted) ≤
    (s.spools i).spool.stats.batchesEvicted

/-- The condition: the spools meet theirs, and no prefix of a frame is accepted. -/
def Conserving (s : State) : Label → Prop
  | .spool i l => StepOk (s.spools i) l ∧ SealsUntorn (s.spools i) l
  | l => PrefixRefused s l

/-! ### The steps of one spool -/

/-- The name and the content of every batch that was sealed, in this order. -/
def contents (w : SpoolState) : List (String × List Chunk) :=
  w.batches.map fun b => (b.name, b.chunks)

variable {T : Terms} {cfg : SpoolConfig} {cfgs : ℕ → SpoolConfig} {w : SpoolState} {n : String}

theorem map_fst_contents (w : SpoolState) : (contents w).map Prod.fst = w.names := by
  simp [contents, SpoolState.names, Function.comp_def]

theorem mem_names_of_mem_contents {cs : List Chunk} (h : (n, cs) ∈ contents w) : n ∈ w.names := by
  rw [← map_fst_contents]
  exact List.mem_map_of_mem h

theorem exists_of_mem_contents {cs : List Chunk} (h : (n, cs) ∈ contents w) :
    ∃ b ∈ w.batches, b.name = n ∧ b.chunks = cs := by
  obtain ⟨b, hb, heq⟩ := List.mem_map.mp h
  obtain ⟨rfl, rfl⟩ := Prod.mk.inj heq
  exact ⟨b, hb, rfl, rfl⟩

/-- The file is the complete frame of the batch `n`. -/
def Sealed (w : SpoolState) (n : String) (f : File) : Prop :=
  ∃ cs size, f = .zst cs .whole size ∧ (n, cs) ∈ contents w

/-- What a step of a spool does to its record and to its complete batches: the record grows, under
new names, and a batch file becomes complete only by being recorded. -/
structure Grows (w w' : SpoolState) : Prop where
  contents : contents w <+: contents w'
  nodup : w.names.Nodup → w'.names.Nodup
  files : ∀ n f, isBatchName n = true → w'.dir n = some f → isWhole f = true →
    w.dir n = some f ∨ n ∉ w.names ∧ Sealed w' n f

theorem Grows.refl (w : SpoolState) : Grows w w :=
  ⟨List.prefix_refl _, id, fun _ _ _ hf _ => .inl hf⟩

theorem Sealed.grows {w' : SpoolState} {f : File} (h : Sealed w n f) (hg : Grows w w') :
    Sealed w' n f := by
  obtain ⟨cs, size, rfl, hmem⟩ := h
  exact ⟨cs, size, rfl, hg.contents.subset hmem⟩

theorem grows_of_beside {w' : SpoolState} (hb : Beside w w') (hc : contents w' = contents w) :
    Grows w w' where
  contents := hc ▸ List.prefix_refl _
  nodup := fun h => hb.names ▸ h
  files n f _ hf _ := by
    rcases hb.shipped n with hsame | hnone
    · exact .inl (hsame.symm.trans hf)
    · simp [hnone] at hf

/-- The end of an encoding records the batch and completes its file. -/
theorem grows_of_finish {ts seq : ℕ} {cs : List Chunk} (h : Compressing T w cs ts seq cs)
    (c : Choice) : Grows w (perform (.finishEncoder (batchName ts seq)) w c).2 := by
  have hnew : batchName ts seq ∉ w.names := fun hmem => (h.earlier _ hmem).ne rfl
  simp only [perform, h.encoder]
  split_ifs
  · refine ⟨⟨[(batchName ts seq, cs)], by simp [contents]⟩, fun hnd => ?_, fun n f hn hf hw => ?_⟩
    · rw [SpoolState.names, List.map_append]
      exact hnd.append (List.nodup_singleton _) (by simpa [SpoolState.names] using hnew)
    · by_cases hname : n = batchName ts seq
      · subst hname
        exact .inr ⟨hnew, cs, c.size, eq_of_overwrite hf, by simp [contents]⟩
      · exact .inl ((Dir.overwrite_of_ne hname _).symm.trans hf)
  · exact .refl w

/-- An operation does the same, whichever it is. -/
theorem grows_of_perform {β : Type} {o : SpoolOp β} (h : Sound T o w) (c : Choice) :
    Grows w (perform o w c).2 := by
  by_cases hends : ∃ n, o.ends n
  · obtain ⟨n, hn⟩ := hends
    cases o with
    | finishEncoder dst =>
      obtain ⟨ts, seq, cs, rfl, hcomp⟩ := h
      exact grows_of_finish hcomp c
    | _ => exact hn.elim
  · have hsame {α : Type} (f : Batch → α) (hf : ∀ b fate, f { b with fate := fate } = f b) :
        (perform o w c).2.batches.map f = w.batches.map f := by
      rcases perform_batches hf o w c with ⟨-, h⟩ | ⟨n, -, hn, -⟩
      · exact h
      · exact absurd ⟨n, hn⟩ hends
    refine ⟨?_, fun hnd => ?_, fun n f hn hf hw => .inl ?_⟩
    · have hcontents : contents (perform o w c).2 = contents w := hsame _ fun _ _ => rfl
      exact hcontents ▸ List.prefix_refl _
    · rw [SpoolState.names, hsame _ fun _ _ => rfl]
      exact hnd
    · rcases h.batchFile hn c with hfile | ⟨-, -, hnew⟩ | ⟨hcomp, -⟩ | ⟨-, -, hnone⟩
      · exact hfile.symm.trans hf
      · obtain rfl := Option.some.inj (hnew.symm.trans hf)
        cases hw
      · cases o with
        | copy src dst =>
          -- what is copied is not yet the end of the frame
          obtain ⟨ts, seq, cs, rfl, rfl, hcompressing⟩ := h
          obtain rfl : batchName ts seq = n := hcomp
          simp only [perform, hcompressing.file] at hf
          rw [eq_of_overwrite hf] at hw
          split_ifs at hw <;> cases hw
        | finishEncoder dst => exact absurd ⟨dst, rfl⟩ hends
        | _ => exact hcomp.elim
      · simp [hnone] at hf

theorem grows_of_step {x y : System} {l : Spool.Label} (hd : Disciplined T x)
    (hst : x.step cfg l = some y) : Grows x.spool y.spool := by
  rcases System.step_cases hst with ⟨z, rfl, hz, -⟩ | ⟨c, β, o, k, rfl, hw, -, rfl⟩ | ⟨-, -, rfl⟩
  · exact grows_of_beside (beside_of_other hz) (other_batches (fun _ _ => rfl) hz)
  · exact grows_of_perform (hd.sound_op hw) c
  · exact ⟨List.prefix_refl _, id, fun n f _ hf _ => .inl hf⟩

/-- **A batch becomes acknowledged only by a deletion of the shipper.** -/
theorem acknowledged_of_step {x y : System} {l : Spool.Label} (hst : x.step cfg l = some y)
    {b : Batch} (hb : b ∈ y.spool.batches) (hf : b.fate = .acknowledged) :
    (∃ b' ∈ x.spool.batches, b'.name = b.name ∧ b'.fate = .acknowledged) ∨
      l = .other (.ship b.name) := by
  rcases System.step_cases hst with ⟨z, rfl, hz, -⟩ | ⟨c, β, o, k, rfl, hw, -, rfl⟩ | ⟨-, -, rfl⟩
  · rcases SpoolState.other_cases hz with ⟨v, rfl, hv⟩ | ⟨_, _, _, hv⟩ | ⟨name, rfl, -, hv⟩
    · rw [hv, SpoolState.trySubmit] at hb
      split_ifs at hb <;> exact .inl ⟨b, hb, rfl, hf⟩
    · rw [hv] at hb
      exact .inl ⟨b, hb, rfl, hf⟩
    · rw [hv] at hb
      obtain ⟨b', hb', rfl⟩ := List.mem_map.mp hb
      by_cases hname : b'.name = name
      · rw [Batch.lose_name, hname]
        exact .inr rfl
      · rw [Batch.lose_of_ne hname] at hf ⊢
        exact .inl ⟨b', hb', rfl, hf⟩
  · left
    cases o with
    | remove name =>
      simp only [perform] at hb
      split_ifs at hb
      · obtain ⟨b', hb', rfl⟩ := List.mem_map.mp hb
        refine ⟨b', hb', (Batch.lose_name _ _ _).symm, ?_⟩
        rw [Batch.lose] at hf
        split_ifs at hf
        exact hf
      · exact ⟨b, hb, rfl, hf⟩
    | countEvicted =>
      obtain ⟨b', hb', rfl⟩ := List.mem_map.mp hb
      refine ⟨b', hb', (Batch.count_name _).symm, ?_⟩
      rw [Batch.count] at hf
      split_ifs at hf
      exact hf
    | finishEncoder dst =>
      simp only [perform] at hb
      split at hb
      · split_ifs at hb
        · rcases List.mem_append.mp hb with hb | hb
          · exact ⟨b, hb, rfl, hf⟩
          · obtain rfl := List.mem_singleton.mp hb
            cases hf
        · exact ⟨b, hb, rfl, hf⟩
      · exact ⟨b, hb, rfl, hf⟩
    | createActive | writeLine | createFile =>
      simp only [perform] at hb
      split_ifs at hb <;> exact ⟨b, hb, rfl, hf⟩
    | rename | copy | recv =>
      simp only [perform] at hb
      split at hb <;> try split_ifs at hb
      all_goals exact ⟨b, hb, rfl, hf⟩
    | _ => exact ⟨b, hb, rfl, hf⟩
  · exact .inl ⟨b, hb, rfl, hf⟩

/-- What holds of each spool: besides its own invariant, its batches are untorn, their names
differ, and every complete batch file is one of them. -/
structure Sourced (x : System) : Prop where
  inv : SystemInv x
  untorn : ∀ b ∈ x.spool.batches, Untorn b.chunks
  nodup : x.spool.names.Nodup
  files : ∀ n f, isBatchName n = true → x.spool.dir n = some f → isWhole f = true →
    Sealed x.spool n f

theorem Sourced.step {x y : System} {l : Spool.Label} (h : Sourced x) (hd : Disciplined T x)
    (hok : StepOk x l) (hu : SealsUntorn x l) (hst : x.step cfg l = some y) : Sourced y := by
  have hg := grows_of_step hd hst
  refine ⟨h.inv.step hok hst, (untorn_step_iff h.untorn hst).mpr hu, hg.nodup h.nodup,
    fun n f hn hf hw => ?_⟩
  rcases hg.files n f hn hf hw with hold | ⟨-, hnew⟩
  · exact (h.files n f hn hold hw).grows hg
  · exact hnew

/-! ### The steps of the system -/

variable {s t : State} {l : Label} {i : ℕ} {log : List Event}

/-- All that a step can be, with what it adds to the log. -/
inductive Acts (cfgs : ℕ → SpoolConfig) (s : State) : Label → State → List Event → Prop
  | spool {i : ℕ} {l : Spool.Label} {x : System} (hl : ships l = false)
      (hx : (s.spools i).step (cfgs i) l = some x) :
      Acts cfgs s (.spool i l) (s.setSpool i x) []
  | ship {p : Path} {body : List UInt8} {x : System} (hs : s.shipper = .accepted p body)
      (hx : (s.spools p.dir).step (cfgs p.dir) (.other (.ship p.name)) = some x) :
      Acts cfgs s (.remove true) { s.setSpool p.dir x with shipper := .idle } []
  /-- The file is no longer there. -/
  | gone {p : Path} {body : List UInt8} (hs : s.shipper = .accepted p body)
      (hx : (s.spools p.dir).step (cfgs p.dir) (.other (.ship p.name)) = none) :
      Acts cfgs s (.remove true) { s with shipper := .idle } []
  | stay {p : Path} {body : List UInt8} (hs : s.shipper = .accepted p body) :
      Acts cfgs s (.remove false) { s with shipper := .idle } [.unremoved p]
  | post {p : Path} {f : File} {decoded : Option (List UInt8)} {answer : Answer}
      (hs : s.shipper = .loaded p f) (hd : decodesTo f decoded = true)
      (ha : accepts decoded answer = true) :
      Acts cfgs s (.post decoded answer) { s with shipper := .accepted p (decoded.getD []) }
        [.acked p (decoded.getD [])]
  | moves {l : Label} {ph : Phase} (hm : Moves s l ph) (hph : ∀ p body, ph ≠ .accepted p body)
      (hs : ∀ p body, s.shipper ≠ .accepted p body) : Acts cfgs s l { s with shipper := ph } []

theorem acts_of_step (h : s.step cfgs l = some t) : Acts cfgs s l t (emits s l) := by
  obtain ⟨spools, shipper⟩ := s
  cases l with
  | spool i l =>
    simp only [State.step] at h
    split_ifs at h with hl
    obtain ⟨x, hx, rfl⟩ := Option.map_eq_some_iff.mp h
    exact .spool (by simpa using hl) hx
  | pick listing =>
    cases shipper with
    | idle =>
      obtain rfl := Option.some.inj h
      cases hp : oldestBatch listing with
      | none => exact .moves .rest (by simp) (by simp)
      | some p => exact .moves (.pick hp) (by simp) (by simp)
    | _ => cases h
  | read ok =>
    cases shipper with
    | picked p =>
      simp only [State.step] at h
      cases hf : (spools p.dir).spool.dir p.name with
      | none =>
        rw [hf] at h
        obtain rfl := Option.some.inj h
        exact .moves .rest (by simp) (by simp)
      | some f =>
        rw [hf] at h
        obtain rfl := Option.some.inj h
        cases ok with
        | false => exact .moves .rest (by simp) (by simp)
        | true => exact .moves (.read rfl hf) (by simp) (by simp)
    | _ => cases h
  | post decoded answer =>
    cases shipper with
    | loaded p f =>
      simp only [State.step] at h
      split_ifs at h with hd ha
      · obtain rfl := Option.some.inj h
        rw [show emits ⟨spools, .loaded p f⟩ (.post decoded answer) =
          [.acked p (decoded.getD [])] from if_pos ha]
        exact .post rfl hd ha
      · obtain rfl := Option.some.inj h
        rw [show emits ⟨spools, .loaded p f⟩ (.post decoded answer) = [] from if_neg ha]
        exact .moves .rest (by simp) (by simp)
    | _ => cases h
  | remove ok =>
    cases shipper with
    | accepted p body =>
      cases ok with
      | false =>
        obtain rfl := Option.some.inj h
        exact .stay rfl
      | true =>
        simp only [State.step, if_true] at h
        cases hx : (spools p.dir).step (cfgs p.dir) (.other (.ship p.name)) with
        | none =>
          rw [hx] at h
          obtain rfl := Option.some.inj h
          exact .gone rfl hx
        | some x =>
          rw [hx] at h
          obtain rfl := Option.some.inj h
          exact .ship rfl hx
    | _ => cases h

/-- The next acknowledgement of this file would be its first, or follow a failed deletion: it is
under way to the server, or waits to be picked. -/
def Owes (s : State) (p : Path) : Prop :=
  (∃ f, s.shipper = .loaded p f ∧ isWhole f = true) ∨
    isBatchName p.name = true ∧ (∃ f ∈ (s.spools p.dir).spool.dir p.name, isWhole f = true) ∧
      ∀ body, s.shipper ≠ .accepted p body

/-- **The invariant over the state and the log.** -/
structure Balanced (s : State) (log : List Event) : Prop where
  consistent : Consistent s
  spools : ∀ i, Sourced (s.spools i)
  loaded : ∀ p f, s.shipper = .loaded p f → isWhole f = true →
    Sealed (s.spools p.dir).spool p.name f
  accepted : ∀ p body, s.shipper = .accepted p body → 0 < acks log p
  receipts : ∀ p body, .acked p body ∈ log →
    ∃ cs, (p.name, cs) ∈ contents (s.spools p.dir).spool ∧ contentBytes cs = body
  fates : ∀ i, ∀ b ∈ (s.spools i).spool.batches, b.fate = .acknowledged →
    0 < acks log ⟨b.name, i⟩
  bounded : ∀ p, acks log p ≤ stays log p + 1
  owes : ∀ p, Owes s p → acks log p ≤ stays log p

theorem balanced_start {dirs : ℕ → Dir}
    (hclean : ∀ i n f, isBatchName n = true → dirs i n = some f → isWhole f = false) :
    Balanced (.start dirs) [] where
  consistent := consistent_start dirs
  spools i := by
    refine ⟨systemInv_start (dirs i), fun b hb => absurd hb List.not_mem_nil, .nil,
      fun n f hn hf hw => ?_⟩
    exact absurd ((hclean i n f hn hf).symm.trans hw) (by decide)
  loaded p f h := by cases h
  accepted p body h := by cases h
  receipts p body h := absurd h List.not_mem_nil
  fates i b hb := absurd hb List.not_mem_nil
  bounded p := Nat.zero_le _
  owes p _ := le_rfl

/-- What has no name in the record was never acknowledged. -/
theorem Balanced.acks_eq_zero (h : Balanced s log) {p : Path}
    (hp : p.name ∉ (s.spools p.dir).spool.names) : acks log p = 0 := by
  by_contra hne
  obtain ⟨body, hmem⟩ := acks_pos_iff.mp (Nat.pos_of_ne_zero hne)
  obtain ⟨cs, hcs, -⟩ := h.receipts p body hmem
  exact hp (mem_names_of_mem_contents hcs)

/-- One spool moves. -/
theorem grows_setSpool (h : Consistent s) {x : System} {l : Spool.Label}
    (hx : (s.spools i).step cfg l = some x) (j : ℕ) :
    Grows (s.spools j).spool ((s.setSpool i x).spools j).spool := by
  by_cases hj : j = i
  · subst hj
    rw [setSpool_spools_self]
    exact grows_of_step (h.disciplined j) hx
  · rw [setSpool_spools_of_ne hj]
    exact .refl _

theorem sourced_setSpool (h : Balanced s log) {x : System} {l : Spool.Label}
    (hok : StepOk (s.spools i) l) (hu : SealsUntorn (s.spools i) l)
    (hx : (s.spools i).step cfg l = some x) (j : ℕ) : Sourced ((s.setSpool i x).spools j) := by
  by_cases hj : j = i
  · subst hj
    rw [setSpool_spools_self]
    exact (h.spools j).step (h.consistent.disciplined j) hok hu hx
  · rw [setSpool_spools_of_ne hj]
    exact h.spools j

theorem fates_setSpool (h : Balanced s log) {x : System} {l : Spool.Label}
    (hx : (s.spools i).step cfg l = some x)
    (hship : ∀ n, l = .other (.ship n) → 0 < acks log ⟨n, i⟩) (j : ℕ) {b : Batch}
    (hb : b ∈ ((s.setSpool i x).spools j).spool.batches) (hf : b.fate = .acknowledged) :
    0 < acks log ⟨b.name, j⟩ := by
  by_cases hj : j = i
  · subst hj
    rw [setSpool_spools_self] at hb
    rcases acknowledged_of_step hx hb hf with ⟨b', hb', hname, hf'⟩ | hl
    · exact hname ▸ h.fates j b' hb' hf'
    · exact hship b.name hl
  · rw [setSpool_spools_of_ne hj] at hb
    exact h.fates j b hb hf

/-- A spool moves on its own. -/
theorem Balanced.spool (h : Balanced s log) {x : System} {l : Spool.Label}
    (hc : Consistent (s.setSpool i x)) (hl : ships l = false)
    (hok : StepOk (s.spools i) l) (hu : SealsUntorn (s.spools i) l)
    (hx : (s.spools i).step cfg l = some x) : Balanced (s.setSpool i x) log where
  consistent := hc
  spools := sourced_setSpool h hok hu hx
  loaded p f hs hw := (h.loaded p f hs hw).grows (grows_setSpool h.consistent hx p.dir)
  accepted := h.accepted
  receipts p body hmem := by
    obtain ⟨cs, hcs, hbody⟩ := h.receipts p body hmem
    exact ⟨cs, (grows_setSpool h.consistent hx p.dir).contents.subset hcs, hbody⟩
  fates j b hb hf := by
    refine fates_setSpool h hx (fun n hn => ?_) j hb hf
    rw [hn] at hl
    cases hl
  bounded := h.bounded
  owes p ho := by
    rcases ho with hloaded | ⟨hn, ⟨f, hf, hw⟩, hs⟩
    · exact h.owes p (.inl hloaded)
    · rcases (grows_setSpool h.consistent hx p.dir).files p.name f hn hf hw with hold | ⟨hnew, -⟩
      · exact h.owes p (.inr ⟨hn, ⟨f, hold, hw⟩, hs⟩)
      · rw [h.acks_eq_zero hnew]
        exact Nat.zero_le _

/-- The shipper deletes what the server has acknowledged. -/
theorem Balanced.ship (h : Balanced s log) {p : Path} {body : List UInt8} {x : System}
    (hs : s.shipper = .accepted p body)
    (hc : Consistent { s.setSpool p.dir x with shipper := .idle })
    (hx : (s.spools p.dir).step cfg (.other (.ship p.name)) = some x) :
    Balanced { s.setSpool p.dir x with shipper := .idle } log where
  consistent := hc
  spools := by
    have hok : StepOk (s.spools p.dir) (.other (.ship p.name)) :=
      h.consistent.apart p body (.inr hs)
    exact sourced_setSpool h hok trivial hx
  loaded q f hq := by cases hq
  accepted q b hq := by cases hq
  receipts q b hmem := by
    obtain ⟨cs, hcs, hbody⟩ := h.receipts q b hmem
    exact ⟨cs, (grows_setSpool h.consistent hx q.dir).contents.subset hcs, hbody⟩
  fates j b hb hf := by
    refine fates_setSpool h hx (fun n hn => ?_) j hb hf
    obtain rfl : p.name = n := by simpa using hn
    exact h.accepted p body hs
  bounded := h.bounded
  owes q ho := by
    rcases ho with ⟨f, hf, -⟩ | ⟨hn, ⟨f, hf, hw⟩, -⟩
    · cases hf
    · have hf : ((s.setSpool p.dir x).spools q.dir).spool.dir q.name = some f := hf
      have hne : q ≠ p := by
        rintro rfl
        rw [setSpool_spools_self, dir_of_ship hx, Function.update_self] at hf
        cases hf
      refine h.owes q (.inr ⟨hn, ⟨f, ?_, hw⟩, fun b hb => hne ?_⟩)
      · by_cases hd : q.dir = p.dir
        · have hname : q.name ≠ p.name := fun hname => hne (by
            cases q
            cases p
            simp_all)
          rw [hd, setSpool_spools_self, dir_of_ship hx, Function.update_of_ne hname] at hf
          rw [hd]
          exact hf
        · rw [setSpool_spools_of_ne hd] at hf
          exact hf
      · exact (Phase.accepted.inj (hb.symm.trans hs)).1

/-- The shipper comes to rest without touching a file. -/
theorem Balanced.rest (h : Balanced s log) {more : List Event}
    (hacks : ∀ q, acks more q = 0) (hmem : ∀ q b, .acked q b ∉ more)
    (howes : ∀ q, Owes { s with shipper := .idle } q → acks log q ≤ stays log q + stays more q) :
    Balanced { s with shipper := .idle } (log ++ more) where
  consistent := h.consistent.idle
  spools := h.spools
  loaded q f hq := by cases hq
  accepted q b hq := by cases hq
  receipts q b hq := h.receipts q b ((List.mem_append.mp hq).resolve_right (hmem q b))
  fates j b hb hf := by
    have := h.fates j b hb hf
    rw [acks_append]
    omega
  bounded q := by
    have := h.bounded q
    rw [acks_append, stays_append, hacks q]
    omega
  owes q ho := by
    have := howes q ho
    rw [acks_append, stays_append, hacks q]
    omega

/-- The file that the server has acknowledged can be deleted while it is there. -/
theorem none_of_ship_eq_none (h : Balanced s log) {p : Path} {body : List UInt8}
    (hs : s.shipper = .accepted p body)
    (hx : (s.spools p.dir).step cfg (.other (.ship p.name)) = none) :
    (s.spools p.dir).spool.dir p.name = none := by
  cases hf : (s.spools p.dir).spool.dir p.name with
  | none => rfl
  | some f =>
    obtain ⟨cs, size, rfl, -⟩ := h.consistent.carried p body (.inr hs) f hf
    have hn : isBatchName p.name = true := h.consistent.batch p (by rw [hs]; rfl)
    simp [System.step, SpoolState.other, hf, hn] at hx

/-- What waits while the shipper rests waited before, unless it was the file at hand. -/
theorem Owes.of_idle {p q : Path} {body : List UInt8} (hs : s.shipper = .accepted p body)
    (ho : Owes { s with shipper := .idle } q) (hq : q ≠ p) : Owes s q := by
  rcases ho with ⟨f, hf, -⟩ | ⟨hn, hf, -⟩
  · cases hf
  · exact .inr ⟨hn, hf, fun b hb => hq (Phase.accepted.inj (hb.symm.trans hs)).1⟩

theorem Balanced.gone (h : Balanced s log) {p : Path} {body : List UInt8}
    (hs : s.shipper = .accepted p body)
    (hx : (s.spools p.dir).step cfg (.other (.ship p.name)) = none) :
    Balanced { s with shipper := .idle } (log ++ []) := by
  refine h.rest (fun _ => rfl) (fun _ _ => List.not_mem_nil) fun q ho => ?_
  refine (h.owes q (ho.of_idle hs ?_)).trans (Nat.le_add_right _ _)
  rintro rfl
  rcases ho with ⟨f, hf, -⟩ | ⟨-, ⟨f, hf, -⟩, -⟩
  · cases hf
  · have hnone := none_of_ship_eq_none h hs hx
    have hf : (s.spools q.dir).spool.dir q.name = some f := hf
    rw [hnone] at hf
    cases hf

theorem Balanced.stay (h : Balanced s log) {p : Path} {body : List UInt8}
    (hs : s.shipper = .accepted p body) :
    Balanced { s with shipper := .idle } (log ++ [.unremoved p]) := by
  refine h.rest (fun _ => rfl) (by simp) fun q ho => ?_
  by_cases hq : q = p
  · subst hq
    have := h.bounded q
    simpa [stays] using this
  · exact (h.owes q (ho.of_idle hs hq)).trans (Nat.le_add_right _ _)

/-- **The server acknowledges a batch**: all of it, and what was owed. -/
theorem Balanced.post (h : Balanced s log) {p : Path} {f : File}
    {decoded : Option (List UInt8)} {answer : Answer}
    (hp : PrefixRefused s (.post decoded answer)) (hs : s.shipper = .loaded p f)
    (hd : decodesTo f decoded = true) (ha : accepts decoded answer = true) :
    Balanced { s with shipper := .accepted p (decoded.getD []) }
      (log ++ [.acked p (decoded.getD [])]) where
  consistent := h.consistent.moves hp (.post hs hd ha)
  spools := h.spools
  loaded q g hq := by cases hq
  accepted q b hq := by
    obtain ⟨rfl, -⟩ := Phase.accepted.inj hq
    simp [acks, Event.acks]
  receipts q b hq := by
    rcases List.mem_append.mp hq with hq | hq
    · exact h.receipts q b hq
    · obtain ⟨rfl, rfl⟩ := Event.acked.inj (List.mem_singleton.mp hq)
      obtain ⟨cs, size, hf, hbody⟩ := whole_of_accepted hp hs hd ha
      obtain ⟨ds, size', hf', hmem⟩ := h.loaded q f hs (by rw [hf]; rfl)
      obtain ⟨rfl, -⟩ : cs = ds ∧ size = size' := by simpa using hf.symm.trans hf'
      exact ⟨cs, hmem, hbody⟩
  fates j b hb hf := by
    have := h.fates j b hb hf
    rw [acks_append]
    omega
  bounded q := by
    rw [acks_append, stays_append]
    by_cases hq : p = q
    · subst hq
      have hw := isWhole_of_whole (whole_of_accepted hp hs hd ha)
      have := h.owes p (.inl ⟨f, hs, hw⟩)
      simp [acks, stays, Event.acks] at this ⊢
      omega
    · have := h.bounded q
      simp [acks, stays, Event.acks, hq] at this ⊢
      omega
  owes q ho := by
    rcases ho with ⟨g, hg, -⟩ | ⟨hn, hf, hne⟩
    · cases hg
    · have hq : p ≠ q := by
        rintro rfl
        exact hne _ rfl
      have := h.owes q (.inr ⟨hn, hf, fun b hb => by cases hs.symm.trans hb⟩)
      simp [acks, stays, Event.acks, hq] at this ⊢
      omega

theorem Balanced.moves (h : Balanced s log) {ph : Phase} (hp : PrefixRefused s l)
    (hm : Moves s l ph) (hph : ∀ p body, ph ≠ .accepted p body)
    (hs : ∀ p body, s.shipper ≠ .accepted p body) : Balanced { s with shipper := ph } log where
  consistent := h.consistent.moves hp hm
  spools := h.spools
  loaded p f hf hw := by
    cases hm with
    | rest | pick | post => cases hf
    | @read q g hpicked hfile =>
      obtain ⟨rfl, rfl⟩ := Phase.loaded.inj hf
      have hn : isBatchName q.name = true := h.consistent.batch q (by rw [hpicked]; rfl)
      exact (h.spools q.dir).files q.name g hn hfile hw
  accepted p body hf := absurd hf (hph p body)
  receipts := h.receipts
  fates := h.fates
  bounded := h.bounded
  owes p ho := by
    refine h.owes p (.inr ?_)
    rcases ho with ⟨f, hf, hw⟩ | ⟨hn, hf, -⟩
    · cases hm with
      | rest | pick | post => cases hf
      | @read q g hpicked hfile =>
        obtain ⟨rfl, rfl⟩ := Phase.loaded.inj hf
        exact ⟨h.consistent.batch q (by rw [hpicked]; rfl), ⟨g, hfile, hw⟩, hs q⟩
    · exact ⟨hn, hf, hs p⟩

/-- **The step lemma.** -/
theorem Balanced.step (h : Balanced s log) (hc : Conserving s l) (ha : NamesApart s l)
    (hst : s.step cfgs l = some t) : Balanced t (log ++ emits s l) := by
  have hp : PrefixRefused s l := by
    cases l with
    | spool i l => trivial
    | _ => exact hc
  have hcons := h.consistent.step hp ha hst
  have hacts := acts_of_step hst
  generalize emits s l = more at hacts ⊢
  cases hacts with
  | spool hl hx => simpa using h.spool hcons hl hc.1 hc.2 hx
  | ship hs hx => simpa using h.ship hs hcons hx
  | gone hs hx => exact h.gone hs hx
  | stay hs => exact h.stay hs
  | post hs hd hok => exact h.post hp hs hd hok
  | moves hm hph hs => simpa using h.moves hp hm hph hs

/-! ### Exactly once -/

theorem eq_of_name (h : Sourced (s.spools i)) {b b' : Batch}
    (hb : b ∈ (s.spools i).spool.batches) (hb' : b' ∈ (s.spools i).spool.batches)
    (hname : b'.name = b.name) : b' = b :=
  List.inj_on_of_nodup_map h.nodup hb' hb hname

/-- Every body the server has is that of a batch, and all of it. -/
theorem Balanced.bodies (h : Balanced s log) (i : ℕ) :
    (Pipeline.receipts log i).dedup.Perm ((confirmed log i (s.spools i).spool).map fun b =>
      (b.name, (wholeLines b.chunks).flatMap NdjsonLine.bytes)) := by
  have hx := h.spools i
  have hnames : ((confirmed log i (s.spools i).spool).map Batch.name).Nodup :=
    (List.filter_sublist.map _).nodup hx.nodup
  refine (List.perm_ext_iff_of_nodup (List.nodup_dedup _) ?_).mpr fun r => ?_
  · refine List.Nodup.of_map Prod.fst ?_
    rw [List.map_map]
    exact hnames
  · obtain ⟨n, body⟩ := r
    rw [List.mem_dedup, mem_receipts_iff, List.mem_map]
    constructor
    · intro hmem
      obtain ⟨cs, hcs, rfl⟩ := h.receipts _ _ hmem
      obtain ⟨b, hb, rfl, rfl⟩ := exists_of_mem_contents hcs
      refine ⟨b, List.mem_filter.mpr ⟨hb, ?_⟩, ?_⟩
      · exact decide_eq_true (acks_pos_iff.mpr ⟨_, hmem⟩)
      · rw [contentBytes_of_untorn (hx.untorn b hb)]
    · rintro ⟨b, hb, heq⟩
      obtain ⟨rfl, rfl⟩ := Prod.mk.inj heq
      obtain ⟨hb, hpos⟩ := List.mem_filter.mp hb
      obtain ⟨body, hmem⟩ := acks_pos_iff.mp (of_decide_eq_true hpos)
      obtain ⟨cs, hcs, rfl⟩ := h.receipts _ _ hmem
      -- the batch of that name is this one
      obtain ⟨b', hb', hname, rfl⟩ := exists_of_mem_contents hcs
      obtain rfl := eq_of_name hx hb hb' hname
      rw [← contentBytes_of_untorn (hx.untorn _ hb)]
      exact hmem

theorem linesOf_confirmed_append (log : List Event) (i : ℕ) (w : SpoolState) :
    (linesOf (confirmed log i w) ++ linesOf (unconfirmed log i w)).Perm w.sealedLines := by
  have hrest : unconfirmed log i w =
      w.batches.filter fun b => !decide (0 < acks log ⟨b.name, i⟩) := by
    refine List.filter_congr fun b _ => ?_
    rw [← decide_not, decide_eq_decide, Nat.pos_iff_ne_zero, not_not]
  rw [linesOf, linesOf, ← List.flatMap_append, hrest]
  exact (List.filter_append_perm _ w.batches).flatMap_right fun b => wholeLines b.chunks

theorem Balanced.exactlyOnce (h : Balanced s log) (i : ℕ) : ExactlyOnce s log i where
  places := by
    have hplaces := (h.spools i).inv.accounted.places
    have hsealed := linesOf_confirmed_append log i (s.spools i).spool
    rw [List.perm_iff_count] at hplaces hsealed ⊢
    intro x
    have h₁ := hplaces x
    have h₂ := hsealed x
    simp only [List.count_append] at h₁ h₂ ⊢
    omega
  bodies := h.bodies i
  repeats n body := by
    refine le_trans ?_ (h.bounded ⟨n, i⟩)
    refine List.countP_mono_left fun e _ he => ?_
    obtain rfl : e = .acked ⟨n, i⟩ body := by simpa using he
    simp [Event.acks]
  kept b hb := by
    obtain ⟨hb, hnone⟩ := List.mem_filter.mp hb
    cases hf : b.fate with
    | present =>
      obtain ⟨f, hfile, hwhole⟩ := (h.spools i).inv.accounted.present b hb hf
      exact .inl ⟨f.size, hfile.trans (congrArg some hwhole)⟩
    | acknowledged =>
      have hpos := h.fates i b hb hf
      rw [of_decide_eq_true hnone] at hpos
      exact absurd hpos (lt_irrefl 0)
    | evicting => exact .inr (.inl rfl)
    | evicted => exact .inr (.inr rfl)
  counted := by
    refine le_trans ?_ (h.spools i).inv.accounted.evictCount
    exact List.filter_sublist.countP_le

theorem balanced_of_along (cfgs : ℕ → SpoolConfig) (dirs : ℕ → Dir) (ls : List Label)
    (hclean : ∀ i n f, isBatchName n = true → dirs i n = some f → isWhole f = false)
    (hc : Along (State.step cfgs) Conserving (.start dirs) ls) (t : State)
    (hr : run (State.step cfgs) (.start dirs) ls = some t) :
    Balanced t (emitted (State.step cfgs) emits (.start dirs) ls) := by
  have hp : Along (State.step cfgs) PrefixRefused (.start dirs) ls := hc.mono fun s l h => by
    cases l with
    | spool i l => trivial
    | _ => exact h
  have hb : Balanced t ([] ++ emitted (State.step cfgs) emits (.start dirs) ls) :=
    invariant_of_emitted (fun s es l t hb hl hst => hb.step hl.1 hl.2 hst) (balanced_start hclean)
      (hc.and (apart_of_clean hclean hp)) hr
  exact hb

/-- **From the channel to the server, exactly once.** In every interleaving of the spools with the
shipper within the condition, from directories without a complete batch. -/
theorem exactlyOnce_of_along (cfgs : ℕ → SpoolConfig) (dirs : ℕ → Dir) (ls : List Label)
    (hclean : ∀ i n f, isBatchName n = true → dirs i n = some f → isWhole f = false)
    (hc : Along (State.step cfgs) Conserving (.start dirs) ls) (t : State)
    (hr : run (State.step cfgs) (.start dirs) ls = some t) (i : ℕ) :
    ExactlyOnce t (emitted (State.step cfgs) emits (.start dirs) ls) i :=
  (balanced_of_along cfgs dirs ls hclean hc t hr).exactlyOnce i

instance (s : State) (l : Label) : Decidable (Conserving s l) := by
  induction l using Label.casesOn <;> unfold Conserving <;> infer_instance

/-- A batch is sealed and sent: its deletion fails, so that it is sent again. -/
def sentTwice : List Label :=
  (settingUp ++ sealAt 1700000000).map (.spool 0) ++
    (shipping (batchName 1700000000 0) [.whole emptyEvent]).dropLast ++ [.remove false] ++
    shipping (batchName 1700000000 0) [.whole emptyEvent]

theorem sentTwice_exactlyOnce : ∃ t,
    run (State.step fun _ => smallSpool) (.start (oneSpool fun _ => none)) sentTwice = some t ∧
      (emitted (State.step fun _ => smallSpool) emits (.start (oneSpool fun _ => none))
        sentTwice).length = 3 ∧
      ExactlyOnce t (emitted (State.step fun _ => smallSpool) emits
        (.start (oneSpool fun _ => none)) sentTwice) 0 := by
  have hsome : (run (State.step fun _ => smallSpool) (.start (oneSpool fun _ => none))
      sentTwice).isSome = true := by decide +kernel
  obtain ⟨t, ht⟩ := Option.isSome_iff_exists.mp hsome
  refine ⟨t, ht, by decide +kernel, exactlyOnce_of_along (fun _ => smallSpool)
    (oneSpool fun _ => none) sentTwice (fun i n f _ hf => ?_) (by decide +kernel) t ht 0⟩
  simp [oneSpool] at hf

end Pipeline

end WazabiAgent
