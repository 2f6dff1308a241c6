import WazabiAgent.Lib.Decimal
import WazabiAgent.Shipper.Run
import WazabiAgent.Spool.Discipline

/-!
# Is the order of the file names the rotation order?

The eviction sorts batches by path and the shipper picks the least file name, both in the belief
that this is the order in which the batches were sealed. A name is made of a clock reading and a
number, written without padding. Both only grow, so the names of two batches are in order exactly
if the two texts happen to be: `batchName_lt_iff` says when, and `oldestFirst_iff` says it of
runs.

Seconds since 1970 have had ten digits since 2001. The number is what matters: the tenth and the
eleventh batch of a run are in the wrong order if they are sealed within one second, and so are
the hundredth and the hundred and first.

## Main results

* `Spool.batchName_lt_iff` — the comparison of two names
* `Spool.oldestFirst_iff` — when eviction and shipping go by age
* `Spool.tenth_after_eleventh` — the batch that is sealed later comes first
-/

namespace WazabiAgent

namespace Spool

open LabelledStep Prog

/-! ### Two names -/

/-- The clock reading and the number that a batch name was made from. -/
def stamp (name : String) : ℕ × ℕ :=
  let ts := name.toList.drop "batch-".length
  let seq := (ts.dropWhile Char.isDigit).drop 1
  (Nat.ofDigitChars 10 (ts.takeWhile Char.isDigit) 0,
    Nat.ofDigitChars 10 (seq.takeWhile Char.isDigit) 0)

theorem takeWhile_isDigit {ds : List Char} (hds : ∀ d ∈ ds, d.isDigit = true) {c : Char}
    (hc : c.isDigit = false) (rest : List Char) :
    (ds ++ c :: rest).takeWhile Char.isDigit = ds ∧
      (ds ++ c :: rest).dropWhile Char.isDigit = c :: rest := by
  rw [List.takeWhile_append_of_pos hds, List.dropWhile_append_of_pos hds]
  simp [hc]

theorem stamp_batchName (ts seq : ℕ) : stamp (batchName ts seq) = (ts, seq) := by
  have hdigits (n : ℕ) : ∀ d ∈ Nat.toDigits 10 n, d.isDigit = true :=
    fun d hd => Nat.isDigit_of_mem_toDigits (by decide) (by decide) hd
  have hdrop : (batchName ts seq).toList.drop "batch-".length =
      Nat.toDigits 10 ts ++ '-' :: (Nat.toDigits 10 seq ++ '.' :: "zst".toList) := by
    rw [toList_batchName, Nat.toList_repr, Nat.toList_repr]
    rfl
  obtain ⟨htake, hrest⟩ := takeWhile_isDigit (hdigits ts) (show '-'.isDigit = false by decide)
    (Nat.toDigits 10 seq ++ '.' :: "zst".toList)
  obtain ⟨htake', -⟩ := takeWhile_isDigit (hdigits seq) (show '.'.isDigit = false by decide)
    "zst".toList
  simp only [stamp, hdrop, htake, hrest, List.drop_succ_cons, List.drop_zero, htake']
  simp

/-- The texts of the clock readings are in order, and if they are the same those of the numbers. -/
def NamesInOrder (p q : ℕ × ℕ) : Prop :=
  Decimal.TextLe p.1 q.1 ∧ (p.1 = q.1 → Decimal.TextLe p.2 q.2)

instance (p q : ℕ × ℕ) : Decidable (NamesInOrder p q) := by
  unfold NamesInOrder
  infer_instance

/-- **The comparison of two names**, the second made from a later reading and a greater number. -/
theorem batchName_lt_iff {ts seq ts' seq' : ℕ} (hts : ts ≤ ts') (hseq : seq < seq') :
    batchName ts seq < batchName ts' seq' ↔ NamesInOrder (ts, seq) (ts', seq') := by
  have hnum : Nat.toDigits 10 seq ++ ".zst".toList < Nat.toDigits 10 seq' ++ ".zst".toList ↔
      Decimal.TextLe seq seq' := by
    refine (Decimal.text_lt_iff hseq.le (by decide) _ _).trans ?_
    simp only [hseq, hseq.ne, false_and, false_or, true_and]
  rw [String.lt_iff_toList_lt, toList_batchName, toList_batchName,
    Decimal.append_lt_append_iff rfl]
  simp only [Nat.toList_repr]
  rw [Decimal.text_lt_iff hts (by decide), hnum, NamesInOrder]
  have hself : ∀ n, Decimal.TextLe n n := fun n => by simp [Decimal.TextLe, Decimal.leading]
  rcases hts.lt_or_eq with hlt | rfl
  · simp [hlt, hlt.ne]
  · simp [hself]

example : ¬ NamesInOrder (1700000000, 9) (1700000000, 10) := by decide +kernel

/-! ### What is believed of the names -/

/-- The names are in the order of the sealing, and eviction and shipper go by it. -/
structure OldestFirst (w : SpoolState) : Prop where
  sorted : w.names.Pairwise (· < ·)
  /-- The batches that the eviction looks at, sorted by name, are sorted by age. -/
  evicts : ∀ entries : List (String × ℕ), (entries.map Prod.fst).Nodup →
    (∀ e ∈ entries, e.1 ∈ w.names) →
      ((entries.insertionSort fun a b => a.1 ≤ b.1).map Prod.fst).Sublist w.names
  /-- The batch that the shipper picks is the oldest that it sees. -/
  ships : ∀ listed : List String, (∀ n ∈ listed, n ∈ w.names ∧ isBatchName n = true) →
    ∀ p, Shipper.oldestBatch [some listed] = some p →
      ∀ n ∈ listed, w.names.idxOf p.name ≤ w.names.idxOf n

theorem sorted_evicts {names : List String} (h : names.Pairwise (· < ·))
    {entries : List (String × ℕ)} (hnd : (entries.map Prod.fst).Nodup)
    (hmem : ∀ e ∈ entries, e.1 ∈ names) :
    ((entries.insertionSort fun a b => a.1 ≤ b.1).map Prod.fst).Sublist names := by
  have htotal : Std.Total fun a b : String × ℕ => a.1 ≤ b.1 := ⟨fun a b => le_total a.1 b.1⟩
  have htrans : IsTrans (String × ℕ) fun a b => a.1 ≤ b.1 := ⟨fun _ _ _ => le_trans⟩
  have hperm := (entries.perm_insertionSort fun a b => a.1 ≤ b.1).map Prod.fst
  refine List.sublist_of_subperm_of_pairwise (r := (· ≤ ·)) ?_ ?_ (h.imp le_of_lt)
  · refine List.subperm_of_subset (hperm.nodup_iff.mpr hnd) fun n hn => ?_
    obtain ⟨e, he, rfl⟩ := List.mem_map.mp (hperm.subset hn)
    exact hmem e he
  · exact List.pairwise_map.mpr (List.pairwise_insertionSort _ entries)

theorem idxOf_le_of_sorted {names : List String} (h : names.Pairwise (· < ·)) {a b : String}
    (ha : a ∈ names) (hb : b ∈ names) (hle : a ≤ b) : names.idxOf a ≤ names.idxOf b := by
  by_contra hlt
  have hpair := List.pairwise_iff_get.mp h ⟨_, List.idxOf_lt_length_of_mem hb⟩
    ⟨_, List.idxOf_lt_length_of_mem ha⟩ (not_le.mp hlt)
  rw [List.idxOf_get, List.idxOf_get] at hpair
  exact absurd hle (not_le.mpr hpair)

/-- All of it is the order of the names. -/
theorem oldestFirst_iff_sorted {w : SpoolState} :
    OldestFirst w ↔ w.names.Pairwise (· < ·) := by
  refine ⟨OldestFirst.sorted, fun h => ⟨h, fun entries => sorted_evicts h, ?_⟩⟩
  intro listed hlisted p hp n hn
  have hmem {q : String} (hq : q ∈ listed) : (⟨q, 0⟩ : Shipper.Path) ∈
      Shipper.batches [some listed] := by
    simp [Shipper.batches, Shipper.batchesFrom, hq, (hlisted q hq).2]
  obtain ⟨hpmem, hfirst⟩ := Shipper.oldestBatch_eq_some hp
  have hplisted : p.name ∈ listed := by
    simp only [Shipper.batches, Shipper.batchesFrom, List.append_nil, Option.getD_some,
      List.mem_map, List.mem_filter] at hpmem
    obtain ⟨q, ⟨hq, -⟩, rfl⟩ := hpmem
    exact hq
  refine idxOf_le_of_sorted h (hlisted _ hplisted).1 (hlisted n hn).1 ?_
  by_cases heq : (⟨n, 0⟩ : Shipper.Path) = p
  · rw [← heq]
  · rcases hfirst _ (hmem hn) heq with hlt | ⟨hname, -⟩
    · exact hlt.le
    · exact hname.le

/-! ### Runs -/

/-- The wall clock does not go back behind a batch that was sealed. -/
def forward : Terms where
  clock ts names := ∀ n ∈ names, (stamp n).1 ≤ ts
  clean := False

/-- The batch that the operation seals, if it does, has a name after those sealed before. -/
def SpoolOp.namesLater {β : Type} : SpoolOp β → SpoolState → Choice → Prop
  | .finishEncoder dst, w, c =>
    c.ok = true → ∀ n ∈ w.names, NamesInOrder (stamp n) (stamp dst)
  | _, _, _ => True

/-- The batch that the step seals, if it does, has a name after those sealed before. -/
def NamedLater : System → Label → Prop := OnOp fun o _ w c => o.namesLater w c

variable {cfg : SpoolConfig} {dir : Dir} {s t : System} {l : Label}

/-- The step lemma: a batch is added in order exactly if the texts say so. -/
theorem sorted_step_iff (hd : Disciplined forward s) (h : s.spool.names.Pairwise (· < ·))
    (hst : s.step cfg l = some t) : t.spool.names.Pairwise (· < ·) ↔ NamedLater s l := by
  rcases System.step_cases hst with ⟨x, rfl, hx, -⟩ | ⟨c, β, o, k, rfl, hw, -, rfl⟩ | ⟨rfl, -, rfl⟩
  · rw [(beside_of_other hx).names]
    exact iff_of_true h trivial
  · rcases perform_batches (f := Batch.name) (fun _ _ => rfl) o s.spool c with
      ⟨hends, hsame⟩ | ⟨dst, e, hdst, hok, he, hadd⟩
    · have hnames : (perform o s.spool c).2.names = s.spool.names := hsame
      rw [hnames]
      refine iff_of_true h ((onOp_op hw).mpr ?_)
      cases o with
      | finishEncoder dst =>
        intro hok
        obtain ⟨ts, seq, cs, rfl, hcomp⟩ := hd.sound_op hw
        have henc := hends _ rfl hok
        simp [hcomp.encoder] at henc
      | _ => trivial
    · cases o with
      | finishEncoder name =>
        obtain ⟨ts', seq', cs, rfl, hcomp⟩ := hd.sound_op hw
        obtain rfl : batchName ts' seq' = dst := hdst
        have hnames : (perform (.finishEncoder (batchName ts' seq')) s.spool c).2.names =
            s.spool.names ++ [batchName ts' seq'] := by
          rw [SpoolState.names, hadd, List.map_append]
          rfl
        have hpair : ∀ n ∈ s.spool.names, n < batchName ts' seq' ↔
            NamesInOrder (stamp n) (stamp (batchName ts' seq')) := by
          intro n hn
          obtain ⟨ts, seq, rfl, hlt⟩ := hcomp.earlier n hn
          have hts := hcomp.reading _ hn
          rw [stamp_batchName] at hts
          rw [batchName_lt_iff hts hlt, stamp_batchName, stamp_batchName]
        show (perform _ _ _).2.names.Pairwise _ ↔ _
        rw [hnames, List.pairwise_append, NamedLater, onOp_op hw]
        simp only [SpoolOp.namesLater, hok, forall_const, h, true_and, List.pairwise_singleton,
          List.mem_singleton, forall_eq]
        exact forall₂_congr hpair
      | _ => exact hdst.elim
  · exact iff_of_true h trivial

/-- **When the names are in the order of the sealing.** In a run whose clock does not go back, at
every moment the eviction and the shipper take the oldest batch first, if and only if each batch
that is sealed has a name after the earlier ones: its clock reading has no smaller text, and of
two batches sealed in one second the number has not. -/
theorem oldestFirst_iff (cfg : SpoolConfig) (dir : Dir) (ls : List Label) (s : System)
    (hclock : Along (System.step cfg) (StepGranted forward) (.start dir) ls)
    (hr : run (System.step cfg) (.start dir) ls = some s) :
    (∀ ms rest t, ls = ms ++ rest → run (System.step cfg) (.start dir) ms = some t →
      OldestFirst t.spool) ↔ Along (System.step cfg) NamedLater (.start dir) ls := by
  simp only [oldestFirst_iff_sorted]
  exact forall_split_iff_along_of (K := Disciplined forward) List.Pairwise.nil
    (disciplined_start forward False.elim) hclock (fun _ _ _ hK hA hst => hK.step hA hst)
    (fun _ _ _ hK _ hI hP hst => (sorted_step_iff hK hI hst).mpr hP)
    (fun _ _ _ hK _ hI hst hv => (sorted_step_iff hK hI hst).mp hv) hr

/-! ### Concrete runs -/

instance (ts : ℕ) (names : List String) : Decidable (forward.clock ts names) :=
  inferInstanceAs (Decidable (∀ n ∈ names, (stamp n).1 ≤ ts))

instance {β : Type} (o : SpoolOp β) (w : SpoolState) (c : Choice) :
    Decidable (forward.Grants o w c) := by
  induction o using SpoolOp.casesOn <;> unfold Terms.Grants <;> infer_instance

instance (s : System) (l : Label) : Decidable (StepGranted forward s l) := decidableOnOp s l

instance {β : Type} (o : SpoolOp β) (w : SpoolState) (c : Choice) :
    Decidable (o.namesLater w c) := by
  induction o using SpoolOp.casesOn <;> unfold SpoolOp.namesLater <;> infer_instance

instance (s : System) (l : Label) : Decidable (NamedLater s l) := decidableOnOp s l

/-- Two batches, in two seconds. -/
def twoBatches : List Label :=
  settingUp ++ sealAt 1700000000 ++ sealAt 1700000001

theorem twoBatches_oldestFirst : ∃ s,
    run (System.step smallSpool) (.start fun _ => none) twoBatches = some s ∧
      s.spool.batches.length = 2 ∧
      ∀ ms rest t, twoBatches = ms ++ rest →
        run (System.step smallSpool) (.start fun _ => none) ms = some t → OldestFirst t.spool :=
  ⟨_, rfl, rfl, (oldestFirst_iff smallSpool (fun _ => none) twoBatches _ (by decide +kernel)
    rfl).mpr (by decide +kernel)⟩

/-- Eleven batches within one second. -/
def elevenBatches : List Label :=
  settingUp ++ (List.replicate 11 (sealAt 1700000000)).flatten

/-- **The batch that is sealed later comes first.** Of the last two batches the eleventh has the
lesser name. -/
theorem tenth_after_eleventh : ∃ s,
    run (System.step smallSpool) (.start fun _ => none) elevenBatches = some s ∧
      Along (System.step smallSpool) (StepGranted forward) (.start fun _ => none) elevenBatches ∧
      s.spool.names.drop 9 = [batchName 1700000000 9, batchName 1700000000 10] ∧
      Shipper.oldestBatch [some (s.spool.names.drop 9)] =
        some ⟨batchName 1700000000 10, 0⟩ ∧ ¬ OldestFirst s.spool := by
  have hrun : (run (System.step smallSpool) (.start fun _ => none) elevenBatches).map
      (fun s => (s.spool.names.drop 9, decide (s.spool.names.Pairwise (· < ·)))) =
        some ([batchName 1700000000 9, batchName 1700000000 10], false) := by decide +kernel
  obtain ⟨s, hs, hnames⟩ := Option.map_eq_some_iff.mp hrun
  obtain ⟨hdrop, hsorted⟩ := Prod.ext_iff.mp hnames
  refine ⟨s, hs, by decide +kernel, hdrop, ?_, fun h => ?_⟩
  · have hdrop : s.spool.names.drop 9 = [batchName 1700000000 9, batchName 1700000000 10] := hdrop
    rw [hdrop]
    decide +kernel
  · exact of_decide_eq_false hsorted h.sorted

end Spool

end WazabiAgent
