import WazabiAgent.Spool.Discipline

/-!
# Is a sealed batch a faithful log?

A batch should be a stream of newline-terminated lines: what was submitted, in that order, each
line once and whole. The writer keeps the order and seals no line twice, whatever fails. But a
failed write may leave the beginning of its line in the file, and the writer goes on behind it:
the torn piece and the next line become one line of the batch.

## Main results

* `Spool.Ordered.step` — what was written is a sublist of what was accepted
* `Spool.faithfulLog_iff` — the batches are a faithful log exactly if no file with a torn piece
  is sealed
* `Spool.torn_merges` — a torn piece and the line after it
-/

namespace WazabiAgent

namespace Spool

open LabelledStep Prog

/-! ### The order of the lines -/

/-- Sealed, written and not yet written lines, in the order in which they were accepted. -/
def Ordered (w : SpoolState) : Prop :=
  (w.sealedLines ++ w.unsealed ++ w.hand.toList ++ w.queue).Sublist w.accepted

variable {cfg : SpoolConfig} {dir : Dir} {s t : System} {l : Label} {w w' : SpoolState}

/-- Lines may go missing. -/
theorem Ordered.of_sublist (h : Ordered w) (hs : w'.sealedLines = w.sealedLines)
    (hu : w'.unsealed.Sublist w.unsealed) (hh : w'.hand.toList.Sublist w.hand.toList)
    (hq : w'.queue.Sublist w.queue) (ha : w'.accepted = w.accepted) : Ordered w' := by
  rw [Ordered, hs, ha]
  exact (((List.Sublist.refl _).append hu |>.append hh).append hq).trans h

/-- The lines of the file to be sealed stay, or are gone with the file. -/
theorem unsealed_sublist (hc : w'.current = w.current)
    (hd : ∀ n ∈ w.current, w'.dir n = w.dir n ∨ (w'.dir n).elim [] File.lines = []) :
    w'.unsealed.Sublist w.unsealed := by
  cases hn : w.current with
  | none => simp [SpoolState.unsealed, hc, hn]
  | some n =>
    simp only [SpoolState.unsealed, hc, hn, Option.bind_some]
    rcases hd n hn with hsame | hnil
    · rw [hsame]
    · rw [hnil]
      exact List.nil_sublist _

theorem Ordered.delete (h : Ordered w) (name : String) (fate : Fate) :
    Ordered (w.delete name fate) := by
  refine h.of_sublist (sealedLines_delete name fate) ?_ (.refl _) (.refl _) rfl
  refine unsealed_sublist rfl fun n _ => ?_
  by_cases hn : n = name
  · exact .inr (by simp [SpoolState.delete, hn])
  · exact .inl (Function.update_of_ne hn _ _)

/-- A file with a batch name that is written to has no lines of its own. -/
theorem Ordered.writeBatch (h : Ordered w) (name : String) {cs : List Chunk} {frame : Frame}
    {size : ℕ} (e : Option (String × List Chunk)) : Ordered { w with
      dir := Function.update w.dir name (some (.zst cs frame size)), encoding := e } := by
  refine h.of_sublist rfl (unsealed_sublist rfl fun n _ => ?_) (.refl _) (.refl _) rfl
  by_cases hn : n = name
  · exact .inr (by simp [hn, File.lines])
  · exact .inl (Function.update_of_ne hn _ _)

theorem Ordered.overwrite (h : Ordered w) (name : String) {cs : List Chunk} {frame : Frame}
    {size : ℕ} (e : Option (String × List Chunk)) : Ordered { w with
      dir := w.dir.overwrite name (.zst cs frame size), encoding := e } := by
  rw [Dir.overwrite]
  split_ifs
  · exact h.writeBatch name e
  · exact h.of_sublist rfl (.refl _) (.refl _) (.refl _) rfl

/-- **Every operation keeps the order**, whether it succeeds or not. -/
theorem Ordered.perform (h : Ordered w) {β : Type} {o : SpoolOp β} (hs : Sound .none o w)
    (c : Choice) : Ordered (perform o w c).2 := by
  cases o with
  | createActive =>
    rw [Spool.perform]
    split_ifs
    · refine h.of_sublist rfl ?_ (.refl _) (.refl _) rfl
      simp [SpoolState.unsealed, File.lines]
    · refine h.of_sublist rfl ?_ (.refl _) (.refl _) rfl
      simp [SpoolState.unsealed]
  | remove name =>
    rw [Spool.perform]
    split_ifs
    · exact h.delete name .evicting
    · exact h
  | writeLine l =>
    obtain ⟨hhand, cs, hf⟩ := hs
    have hun : w.unsealed = wholeLines cs := unsealed_of_current hf.current hf.file
    rw [Spool.perform, Dir.append_of_some hf.file, Dir.append_of_some hf.file]
    split_ifs
    · rw [Ordered, hun, hhand] at h
      simpa [Ordered, SpoolState.unsealed, SpoolState.sealedLines, hf.current, File.lines] using h
    · refine h.of_sublist rfl ?_ (.refl _) (.refl _) rfl
      rw [hun]
      simp [SpoolState.unsealed, hf.current, File.lines]
  | rename dst =>
    obtain ⟨ts, seq, cs, rfl, hstage⟩ := hs
    simp only [Spool.perform, hstage.file]
    split_ifs
    · refine h.of_sublist rfl ?_ (.refl _) (.refl _) rfl
      rw [unsealed_of_current hstage.current hstage.file]
      simp [SpoolState.unsealed]
    · exact h
  | createFile name =>
    rw [Spool.perform]
    split_ifs
    · exact h.writeBatch name _
    · exact h
  | copy src dst =>
    obtain ⟨ts, seq, cs, rfl, rfl, hcomp⟩ := hs
    simp only [Spool.perform, hcomp.file]
    exact h.overwrite _ _
  | finishEncoder dst =>
    obtain ⟨ts, seq, cs, rfl, hcomp⟩ := hs
    have hun : w.unsealed = wholeLines cs := unsealed_of_current hcomp.current hcomp.file
    simp only [Spool.perform, hcomp.encoder]
    split_ifs
    · rw [Ordered, hun] at h
      simpa [Ordered, SpoolState.unsealed, SpoolState.sealedLines] using h
    · exact h
  | countDropped => exact h.of_sublist rfl (.refl _) (List.nil_sublist _) (.refl _) rfl
  | countEvicted =>
    refine h.of_sublist ?_ (.refl _) (.refl _) (.refl _) rfl
    simp [SpoolState.sealedLines, Spool.perform, List.flatMap_map]
  | recv =>
    cases hq : w.queue with
    | nil =>
      simp only [Spool.perform, hq]
      exact h.of_sublist rfl (.refl _) (.refl _) (List.nil_sublist _) rfl
    | cons x rest =>
      simp only [Spool.perform, hq]
      rw [Ordered, hq] at h
      have hsub : (w.sealedLines ++ w.unsealed ++ [x] ++ rest).Sublist
          (w.sealedLines ++ w.unsealed ++ w.hand.toList ++ x :: rest) := by
        rw [List.append_assoc, List.append_assoc _ w.hand.toList]
        exact (List.Sublist.refl _).append (List.sublist_append_right _ _)
      exact hsub.trans h
  | _ => exact h.of_sublist rfl (.refl _) (.refl _) (.refl _) rfl

theorem Ordered.other {x : Other} (h : Ordered w) (hx : w.other cfg x = some w') :
    Ordered w' := by
  rcases SpoolState.other_cases hx with ⟨y, rfl, rfl⟩ | ⟨_, _, _, rfl⟩ | ⟨name, rfl, -, rfl⟩
  · rw [SpoolState.trySubmit]
    split_ifs
    · have happ : (w.sealedLines ++ w.unsealed ++ w.hand.toList ++ (w.queue ++ [y])).Sublist
          (w.accepted ++ [y]) := by
        rw [← List.append_assoc]
        exact List.Sublist.append h (.refl _)
      exact happ
    · exact h
  · exact h
  · exact h.delete name .acknowledged

/-- **The step lemma.** -/
theorem Ordered.step (hd : Disciplined .none s) (h : Ordered s.spool)
    (hst : s.step cfg l = some t) : Ordered t.spool := by
  rcases System.step_cases hst with ⟨x, rfl, hx, -⟩ | ⟨c, β, o, k, rfl, hw, -, rfl⟩ | ⟨-, -, rfl⟩
  · exact h.other hx
  · exact h.perform (hd.sound_op hw) c
  · exact h.of_sublist rfl (.refl _) (.refl _) (List.nil_sublist _) rfl

/-- The run lemma. -/
theorem ordered_of_reachable (h : Reachable (System.step cfg) (.start dir) s) :
    Ordered s.spool := by
  have hinv := h.invariant (I := fun t => Disciplined .none t ∧ Ordered t.spool)
    (fun _ _ _ hI hst => ⟨hI.1.step (stepGranted_none _ _) hst, hI.2.step hI.1 hst⟩)
    ⟨disciplined_start .none False.elim, List.Sublist.refl []⟩
  exact hinv.2

/-! ### Torn pieces -/

/-- No write has left the beginning of a line. -/
def Untorn (cs : List Chunk) : Prop := ∀ bs, .torn bs ∈ cs → bs = []

theorem contentBytes_of_untorn {cs : List Chunk} (h : Untorn cs) :
    contentBytes cs = (wholeLines cs).flatMap NdjsonLine.bytes := by
  induction cs with
  | nil => rfl
  | cons c cs ih =>
    have hrest := ih fun bs hbs => h bs (List.mem_cons_of_mem _ hbs)
    rw [contentBytes] at hrest ⊢
    rw [List.flatMap_cons, hrest]
    cases c with
    | whole l => rfl
    | torn bs =>
      obtain rfl := h bs List.mem_cons_self
      rfl

/-- The batches, decompressed and in the order of the sealing, consist of accepted lines, in
order, each one once and whole. -/
structure FaithfulLog (w : SpoolState) : Prop where
  lines : w.sealedLines.Sublist w.accepted
  bytes : contentBytes (w.batches.flatMap Batch.chunks) =
    w.sealedLines.flatMap NdjsonLine.bytes
  untorn : ∀ b ∈ w.batches, Untorn b.chunks

theorem faithfulLog_iff_untorn (h : Ordered w) :
    FaithfulLog w ↔ ∀ b ∈ w.batches, Untorn b.chunks := by
  refine ⟨FaithfulLog.untorn, fun hb => ⟨?_, ?_, hb⟩⟩
  · refine List.Sublist.trans ?_ h
    rw [List.append_assoc, List.append_assoc]
    exact List.sublist_append_left _ _
  · have huntorn : Untorn (w.batches.flatMap Batch.chunks) := by
      intro bs hbs
      obtain ⟨b, hmem, hc⟩ := List.mem_flatMap.mp hbs
      exact hb b hmem bs hc
    rw [contentBytes_of_untorn huntorn]
    congr 1
    exact List.filterMap_flatMap

/-- The operation seals no file with a torn piece in it. -/
def SpoolOp.sealsUntorn {β : Type} : SpoolOp β → SpoolState → Choice → Prop
  | .finishEncoder _, w, c => c.ok = true → ∀ e ∈ w.encoding, Untorn e.2
  | _, _, _ => True

/-- The step seals no file with a torn piece in it. -/
def SealsUntorn : System → Label → Prop := OnOp fun o _ w c => o.sealsUntorn w c

theorem untorn_map {w w' : SpoolState}
    (h : w'.batches.map Batch.chunks = w.batches.map Batch.chunks) :
    (∀ b ∈ w'.batches, Untorn b.chunks) ↔ ∀ b ∈ w.batches, Untorn b.chunks := by
  have hall (v : SpoolState) : (∀ b ∈ v.batches, Untorn b.chunks) ↔
      ∀ cs ∈ v.batches.map Batch.chunks, Untorn cs := List.forall_mem_map.symm
  rw [hall, hall, h]

/-- The step lemma for torn pieces. -/
theorem untorn_step_iff (h : ∀ b ∈ s.spool.batches, Untorn b.chunks) (hst : s.step cfg l = some t) :
    (∀ b ∈ t.spool.batches, Untorn b.chunks) ↔ SealsUntorn s l := by
  rcases System.step_cases hst with ⟨x, rfl, hx, -⟩ | ⟨c, β, o, k, rfl, hw, -, rfl⟩ | ⟨rfl, -, rfl⟩
  · exact iff_of_true ((untorn_map (other_batches (fun _ _ => rfl) hx)).mpr h) trivial
  · rcases perform_batches (f := Batch.chunks) (fun _ _ => rfl) o s.spool c with
      ⟨hends, hsame⟩ | ⟨dst, e, hdst, hok, he, hadd⟩
    · refine iff_of_true ((untorn_map hsame).mpr h) ((onOp_op hw).mpr ?_)
      cases o with
      | finishEncoder dst =>
        intro hok e he
        simp [hends dst rfl hok] at he
      | _ => trivial
    · cases o with
      | finishEncoder name =>
        show (∀ b ∈ (perform _ _ _).2.batches, _) ↔ _
        rw [hadd, SealsUntorn, onOp_op hw]
        simp only [SpoolOp.sealsUntorn, hok, he, List.mem_append, List.mem_singleton,
          Option.mem_def, Option.some.injEq, forall_const, forall_eq']
        constructor
        · exact fun hb => hb _ (.inr rfl)
        · rintro hu b (hb | rfl)
          · exact h b hb
          · exact hu
      | _ => exact hdst.elim
  · exact iff_of_true h trivial

/-- **When the batches are a faithful log.** At every moment of a run they consist of accepted
lines, in order, each one once and whole, if and only if the run seals no file with a torn piece
in it. -/
theorem faithfulLog_iff (cfg : SpoolConfig) (dir : Dir) (ls : List Label) (s : System)
    (hr : run (System.step cfg) (.start dir) ls = some s) :
    (∀ ms rest t, ls = ms ++ rest → run (System.step cfg) (.start dir) ms = some t →
      FaithfulLog t.spool) ↔ Along (System.step cfg) SealsUntorn (.start dir) ls := by
  rw [← forall_split_iff_along (I := fun t => ∀ b ∈ t.spool.batches, Untorn b.chunks)
    (by simp [System.start])
    (fun _ _ _ _ h hP hst => (untorn_step_iff h hst).mpr hP)
    (fun _ _ _ _ h hst hv => (untorn_step_iff h hst).mp hv) hr]
  refine forall₅_congr fun ms rest t _ ht => ?_
  exact faithfulLog_iff_untorn (ordered_of_reachable ⟨ms, ht⟩)

/-! ### Concrete runs -/

instance (cs : List Chunk) : Decidable (Untorn cs) :=
  decidable_of_iff (∀ c ∈ cs, c.line? = none → c.bytes = []) (by
    constructor
    · exact fun h bs hbs => h _ hbs rfl
    · intro h c hc hline
      cases c with
      | whole l => cases hline
      | torn bs => exact h bs hc)

instance {β : Type} (o : SpoolOp β) (w : SpoolState) (c : Choice) :
    Decidable (o.sealsUntorn w c) := by
  induction o using SpoolOp.casesOn <;> unfold SpoolOp.sealsUntorn <;> infer_instance

instance (s : System) (l : Label) : Decidable (SealsUntorn s l) := decidableOnOp s l

/-- One line, one batch. -/
def oneSealed : List Label := settingUp ++ sealAt 0

theorem oneSealed_faithful : ∃ s,
    run (System.step smallSpool) (.start fun _ => none) oneSealed = some s ∧
      s.spool.batches.length = 1 ∧
      ∀ ms rest t, oneSealed = ms ++ rest →
        run (System.step smallSpool) (.start fun _ => none) ms = some t → FaithfulLog t.spool :=
  ⟨_, rfl, rfl, (faithfulLog_iff smallSpool (fun _ => none) oneSealed _ rfl).mpr (by decide)⟩

/-- A line that is longer than the buffer of the writer, which hands it to the file as it is. -/
def longEvent : NdjsonLine where
  bytes := 123 :: List.replicate 70000 32 ++ [125, 10]
  terminated := List.getLast?_append_of_ne_nil _ (List.cons_ne_nil _ _)

theorem length_longEvent : longEvent.bytes.length = 70003 := by
  rw [longEvent, List.length_append, List.length_cons, List.length_replicate]
  rfl

/-- The write of the long line fails after one byte; a second line fills the file. -/
def tornThenSealed : List Label :=
  settingUp ++ [.other (.submit longEvent), .op {}, .op { ok := false, size := 1 }] ++
    List.replicate 3 (.op {}) ++ sealAt 0

/-- **A torn piece and the line after it become one line.** The content of the batch is no
concatenation of accepted lines. -/
theorem torn_merges : ∃ s,
    run (System.step smallSpool) (.start fun _ => none) tornThenSealed = some s ∧
      s.spool.accepted = [longEvent, emptyEvent] ∧
      contentBytes (s.spool.batches.flatMap Batch.chunks) = [123, 123, 125, 10] ∧
      (¬ ∃ ls : List NdjsonLine, ls.Sublist s.spool.accepted ∧
        contentBytes (s.spool.batches.flatMap Batch.chunks) = ls.flatMap NdjsonLine.bytes) ∧
      ¬ FaithfulLog s.spool := by
  refine ⟨_, rfl, rfl, rfl, ?_, fun h => absurd h.untorn (by decide)⟩
  rintro ⟨ls, hsub, hbytes⟩
  have hsub : ls.Sublist [longEvent, emptyEvent] := hsub
  have hbytes : [123, 123, 125, 10] = ls.flatMap NdjsonLine.bytes := hbytes
  have hall : ∀ l ∈ ls, l.bytes.length = 3 := by
    intro l hl
    obtain rfl | rfl : l = longEvent ∨ l = emptyEvent := by simpa using hsub.subset hl
    · obtain ⟨before, after, rfl⟩ := List.append_of_mem hl
      have := congrArg List.length hbytes
      rw [List.flatMap_append, List.flatMap_cons, List.length_append, List.length_append,
        length_longEvent, List.length_cons, List.length_cons, List.length_cons,
        List.length_cons, List.length_nil] at this
      omega
    · rfl
  -- three bytes a line, and four bytes
  have hlen : ls.length * 3 = 4 := by
    have := congrArg List.length hbytes
    rw [List.length_flatMap, List.map_congr_left hall, List.map_const', List.sum_replicate_nat]
      at this
    simpa using this.symm
  omega

end Spool

end WazabiAgent
