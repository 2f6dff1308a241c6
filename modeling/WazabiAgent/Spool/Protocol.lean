import WazabiAgent.Spool.Shutdown

/-!
# What the writer knows at each of its operations

The results about batch files all ask the same question of the thread: when it comes to an
operation, what is in the directory, what is in the encoder, and which names has it used? This
file answers it once, whatever fails and whatever the others do.

`Sound o w` is the answer for the operation `o`. At a rename the active file is there; at a copy
the encoder is new and its file unfinished; at the end of an encoding the encoder has the whole
staging file. Names are numbered: each one in use was made from a number already given out.

## What may be assumed

`Terms` are assumptions about the environment that some of the results make: on the readings of
the wall clock, and on what earlier runs have left. Without them there is `Terms.none`.

## Main results

* `Spool.Known.perform` — every operation keeps the names numbered
* `Spool.disciplined_iteration`, `disciplined_setup` — the thread comes to its operations as
  `Sound` says
-/

namespace WazabiAgent

namespace Spool

open LabelledStep Prog

/-! ### The assertions -/

/-- The names of the batches sealed in this run, in this order. -/
def SpoolState.names (w : SpoolState) : List String := w.batches.map Batch.name

/-- Assumptions about the environment. -/
structure Terms where
  /-- On a reading of the wall clock, given the names of the batches sealed before. -/
  clock : ℕ → List String → Prop
  /-- Earlier runs have left no batch file. -/
  clean : Prop

/-- No assumptions. -/
def Terms.none : Terms := ⟨fun _ _ => True, False⟩

/-- What the terms grant of a single choice. -/
def Terms.Grants (T : Terms) {β : Type} : SpoolOp β → SpoolState → Choice → Prop
  | .unixTime, w, c => T.clock c.unix w.names
  | _, _, _ => True

/-- The name was made from a number below `k`. -/
def Below (k : ℕ) (n : String) : Prop := ∃ ts seq, n = batchName ts seq ∧ seq < k

theorem Below.mono {k k' : ℕ} {n : String} (h : Below k n) (hk : k ≤ k') : Below k' n := by
  obtain ⟨ts, seq, hn, hlt⟩ := h
  exact ⟨ts, seq, hn, hlt.trans_le hk⟩

theorem Below.ne {ts seq : ℕ} {n : String} (h : Below seq n) : n ≠ batchName ts seq := by
  rintro rfl
  obtain ⟨ts', seq', hn, hlt⟩ := h
  have := (batchName_inj.mp hn).2
  omega

/-- The names in use are made from numbers below `k`. -/
structure Numbered (T : Terms) (k : ℕ) (w : SpoolState) : Prop where
  batches : ∀ n ∈ w.names, Below k n
  encoder : ∀ e ∈ w.encoding, Below k e.1
  files : T.clean → ∀ n, isBatchName n = true → (w.dir n).isSome → Below k n

/-- The numbers given out are those below the counter. -/
def Known (T : Terms) (w : SpoolState) : Prop := Numbered T w.stats.batchesSealed w

/-- What is in the file `n` is not a finished batch. -/
def Unfinished (w : SpoolState) (n : String) : Prop :=
  ∀ f ∈ w.dir n, ∃ cs frame size, f = .zst cs frame size ∧ frame ≠ .whole

/-- The file `n` with the content `cs` is the one whose lines are to be sealed. -/
structure Filed (w : SpoolState) (n : String) (cs : List Chunk) : Prop where
  current : w.current = some n
  file : w.dir n = some (.ndjson cs)
  plain : isBatchName n = false

/-- A sealing that has its clock reading and its number; the number is not in use. -/
structure Stage (T : Terms) (w : SpoolState) (n : String) (cs : List Chunk) (ts seq : ℕ) : Prop
    extends Filed w n cs where
  reading : T.clock ts w.names
  numbered : Numbered T seq w
  given : seq < w.stats.batchesSealed

/-- A sealing whose batch file has been created. The encoder has been given `given`. -/
structure Compressing (T : Terms) (w : SpoolState) (cs : List Chunk) (ts seq : ℕ)
    (given : List Chunk) : Prop extends Filed w (stagingName ts seq) cs where
  reading : T.clock ts w.names
  earlier : ∀ n ∈ w.names, Below seq n
  encoder : w.encoding = some (batchName ts seq, given)
  unfinished : Unfinished w (batchName ts seq)
  known : Known T w

/-- What the thread knows when it comes to the operation. -/
def Sound (T : Terms) {β : Type} : SpoolOp β → SpoolState → Prop
  | .writeLine l, w => w.hand = some l ∧ ∃ cs, Filed w activeFileName cs
  | .rename dst, w =>
    ∃ ts seq cs, dst = stagingName ts seq ∧ Stage T w activeFileName cs ts seq
  | .createFile n, w =>
    ∃ ts seq cs, n = batchName ts seq ∧ Stage T w (stagingName ts seq) cs ts seq
  | .copy src dst, w =>
    ∃ ts seq cs, src = stagingName ts seq ∧ dst = batchName ts seq ∧
      Compressing T w cs ts seq []
  | .finishEncoder dst, w =>
    ∃ ts seq cs, dst = batchName ts seq ∧ Compressing T w cs ts seq cs
  | _, _ => True

/-! ### The others -/

/-- What the thread can rely on: the others only take batch files away. -/
structure Beside (w w' : SpoolState) : Prop extends SameFile w w' where
  hand : w'.hand = w.hand
  encoding : w'.encoding = w.encoding
  numbers : w'.stats.batchesSealed = w.stats.batchesSealed
  names : w'.names = w.names
  shipped : ∀ n, w'.dir n = w.dir n ∨ w'.dir n = none

instance : IsPreorder SpoolState Beside where
  refl _ := ⟨refl_of SameFile _, rfl, rfl, rfl, rfl, fun _ => .inl rfl⟩
  trans _ _ _ h₁ h₂ := {
    toSameFile := trans_of SameFile h₁.toSameFile h₂.toSameFile
    hand := h₂.hand.trans h₁.hand
    encoding := h₂.encoding.trans h₁.encoding
    numbers := h₂.numbers.trans h₁.numbers
    names := h₂.names.trans h₁.names
    shipped := fun n => (h₂.shipped n).elim
      (fun h => (h₁.shipped n).imp h.trans h.trans) .inr }

variable {T : Terms} {cfg : SpoolConfig} {w w' : SpoolState} {n : String} {cs given : List Chunk}
  {ts seq k : ℕ}

theorem beside_of_other {l : Other} (h : w.other cfg l = some w') : Beside w w' := by
  have hs := sameFile_of_other h
  rcases SpoolState.other_cases h with ⟨x, rfl, rfl⟩ | ⟨_, _, _, rfl⟩ | ⟨name, rfl, -, rfl⟩
  · rw [SpoolState.trySubmit] at hs ⊢
    split_ifs at hs ⊢ <;> exact ⟨hs, rfl, rfl, rfl, rfl, fun _ => .inl rfl⟩
  · exact ⟨hs, rfl, rfl, rfl, rfl, fun _ => .inl rfl⟩
  · refine ⟨hs, rfl, rfl, rfl, by simp [SpoolState.names, SpoolState.delete], fun n => ?_⟩
    by_cases hn : n = name
    · exact .inr (by rw [hn]; exact Function.update_self _ _ _)
    · exact .inl (Function.update_of_ne hn _ _)

theorem Beside.isSome (h : Beside w w') (hn : (w'.dir n).isSome) : (w.dir n).isSome := by
  rcases h.shipped n with hd | hd
  · rwa [hd] at hn
  · simp [hd] at hn

theorem Numbered.beside (h : Numbered T k w) (hb : Beside w w') : Numbered T k w' where
  batches := hb.names ▸ h.batches
  encoder := hb.encoding ▸ h.encoder
  files := fun hT n hn hd => h.files hT n hn (hb.isSome hd)

theorem Numbered.mono (h : Numbered T k w) {k' : ℕ} (hk : k ≤ k') : Numbered T k' w where
  batches := fun n hn => (h.batches n hn).mono hk
  encoder := fun e he => (h.encoder e he).mono hk
  files := fun hT n hn hd => (h.files hT n hn hd).mono hk

theorem Known.beside (h : Known T w) (hb : Beside w w') : Known T w' := by
  rw [Known, hb.numbers]
  exact Numbered.beside h hb

theorem Unfinished.beside (h : Unfinished w n) (hb : Beside w w') : Unfinished w' n := by
  intro f hf
  rcases hb.shipped n with hd | hd
  · exact h f (hd ▸ hf)
  · simp [hd] at hf

theorem Filed.beside (h : Filed w n cs) (hb : Beside w w') : Filed w' n cs where
  current := hb.current.trans h.current
  file := (hb.files n h.plain).trans h.file
  plain := h.plain

theorem Stage.beside (h : Stage T w n cs ts seq) (hb : Beside w w') :
    Stage T w' n cs ts seq where
  toFiled := h.toFiled.beside hb
  reading := hb.names ▸ h.reading
  numbered := h.numbered.beside hb
  given := hb.numbers ▸ h.given

theorem Compressing.beside (h : Compressing T w cs ts seq given) (hb : Beside w w') :
    Compressing T w' cs ts seq given where
  toFiled := h.toFiled.beside hb
  reading := hb.names ▸ h.reading
  earlier := hb.names ▸ h.earlier
  encoder := hb.encoding.trans h.encoder
  unfinished := h.unfinished.beside hb
  known := h.known.beside hb

theorem Stage.known (h : Stage T w n cs ts seq) : Known T w := h.numbered.mono h.given.le

/-! ### Single operations -/

/-- Names may go out of use. -/
theorem Numbered.of_sub (h : Numbered T k w) (hnames : w'.names = w.names)
    (henc : w'.encoding = w.encoding)
    (hdir : ∀ n, isBatchName n = true → (w'.dir n).isSome → (w.dir n).isSome) :
    Numbered T k w' where
  batches := hnames ▸ h.batches
  encoder := henc ▸ h.encoder
  files := fun hT n hn hd => h.files hT n hn (hdir n hn hd)

theorem isSome_update {d : Dir} {m n : String} {f : Option File} (hm : m ≠ n)
    (h : (Function.update d m f n).isSome) : (d n).isSome := by
  rwa [Function.update_of_ne hm.symm] at h

theorem isSome_of_update_none {d : Dir} {m n : String}
    (h : (Function.update d m none n).isSome) : (d n).isSome := by
  by_cases hm : n = m
  · rw [hm, Function.update_self] at h
    simp at h
  · rwa [Function.update_of_ne hm] at h

theorem Dir.append_of_ne {d : Dir} {m n : String} (hm : n ≠ m) (c : Chunk) :
    d.append m c n = d n := by
  cases hd : d m with
  | none => simp [Dir.append, hd]
  | some f =>
    cases f with
    | ndjson cs => rw [Dir.append_of_some hd, Function.update_of_ne hm]
    | zst _ _ _ => simp [Dir.append, hd]

theorem isSome_of_append {d : Dir} {m n : String} {c : Chunk}
    (h : (d.append m c n).isSome) : (d n).isSome := by
  by_cases hm : n = m
  · cases hd : d m with
    | none => simp [Dir.append, hm, hd] at h
    | some f => rw [hm, hd, Option.isSome_some]
  · rwa [Dir.append_of_ne hm] at h

theorem isSome_of_overwrite {d : Dir} {m n : String} {f : File}
    (h : (d.overwrite m f n).isSome) : (d n).isSome := by
  rw [Dir.overwrite] at h
  split_ifs at h with hd
  · by_cases hm : n = m
    · rwa [hm]
    · rwa [Function.update_of_ne hm] at h
  · exact h

theorem names_delete (name : String) (fate : Fate) : (w.delete name fate).names = w.names := by
  simp [SpoolState.names, SpoolState.delete]

/-- **Every operation keeps the names numbered**, if it comes when the thread knows what it is
doing. -/
theorem Known.perform (h : Known T w) {β : Type} {o : SpoolOp β} (hs : Sound T o w) (c : Choice) :
    Known T (perform o w c).2 := by
  cases o with
  | createActive =>
    rw [Spool.perform]
    split_ifs
    · refine h.of_sub rfl rfl fun n hn hd => ?_
      exact isSome_update (ne_of_isBatchName isBatchName_activeFileName hn).symm hd
    · exact h.of_sub rfl rfl fun _ _ => id
  | remove name =>
    rw [Spool.perform]
    split_ifs
    · exact h.of_sub (names_delete name _) rfl fun n _ hd => isSome_of_update_none hd
    · exact h
  | writeLine l =>
    rw [Spool.perform]
    split_ifs
    · exact h.of_sub rfl rfl fun n _ hd => isSome_of_append hd
    · exact h.of_sub rfl rfl fun n _ hd => isSome_of_append hd
  | nextSeq =>
    have hsub : Numbered T w.stats.batchesSealed { w with
        stats := { w.stats with batchesSealed := w.stats.batchesSealed + 1 } } :=
      h.of_sub rfl rfl fun _ _ => id
    exact hsub.mono (Nat.le_succ _)
  | rename dst =>
    obtain ⟨ts, seq, cs, rfl, hstage⟩ := hs
    simp only [Spool.perform, hstage.file]
    split_ifs
    · refine h.of_sub rfl rfl fun n hn hd => ?_
      have hne : n ≠ stagingName ts seq := ne_of_isBatchName (isBatchName_stagingName ts seq) hn
      exact isSome_of_update_none (isSome_update hne.symm hd)
    · exact h
  | createFile name =>
    obtain ⟨ts, seq, cs, rfl, hstage⟩ := hs
    have hnew : Below w.stats.batchesSealed (batchName ts seq) := ⟨ts, seq, rfl, hstage.given⟩
    rw [Spool.perform]
    split_ifs
    · refine ⟨h.batches, fun e he => ?_, fun hT n hn hd => ?_⟩
      · obtain rfl := Option.mem_some_iff.mp he
        exact hnew
      · by_cases hm : n = batchName ts seq
        · rw [hm]
          exact hnew
        · exact h.files hT n hn (isSome_update (Ne.symm hm) hd)
    · exact h
  | copy src dst =>
    obtain ⟨ts, seq, cs, rfl, rfl, hcomp⟩ := hs
    simp only [Spool.perform, hcomp.file]
    refine ⟨h.batches, fun e he => ?_, fun hT n hn hd => h.files hT n hn (isSome_of_overwrite hd)⟩
    obtain rfl := Option.mem_some_iff.mp he
    exact h.encoder (batchName ts seq, []) hcomp.encoder
  | finishEncoder dst =>
    obtain ⟨ts, seq, cs, rfl, hcomp⟩ := hs
    simp only [Spool.perform, hcomp.encoder]
    split_ifs
    · refine ⟨fun n hn => ?_, by simp, fun hT n hn hd => h.files hT n hn (isSome_of_overwrite hd)⟩
      rw [SpoolState.names, List.map_append, List.mem_append] at hn
      rcases hn with hn | hn
      · exact h.batches n hn
      · obtain rfl := List.mem_singleton.mp hn
        exact h.encoder (batchName ts seq, cs) hcomp.encoder
    · exact h
  | countEvicted =>
    refine h.of_sub ?_ rfl fun _ _ => id
    simp [SpoolState.names, Spool.perform]
  | recv =>
    rw [Spool.perform]
    split <;> exact h.of_sub rfl rfl fun _ _ => id
  | _ => exact h.of_sub rfl rfl fun _ _ => id

/-! ### The thread -/

/-- The precondition of a part of the thread that comes to its operations as `Sound` says. -/
abbrev disciplined (T : Terms) {α : Type} (p : Prog SpoolOp α) (Q : α → SpoolState → Prop)
    (w : SpoolState) : Prop :=
  wpAt perform T.Grants Beside (Sound T) p Q w

theorem known_op {α β : Type} {o : SpoolOp β} {k : β → Prog SpoolOp α}
    {Q : α → SpoolState → Prop} (h : Known T w) (hs : ∀ v, Sound T o v)
    (hk : ∀ v c, Known T (perform o v c).2 →
      disciplined T (k (perform o v c).1) Q (perform o v c).2) :
    disciplined T (.op o k) Q w :=
  wpAt_op_of_stable h (fun _ _ hv hb => hv.beside hb) (fun v _ => hs v)
    fun v c hv _ => hk v c (hv.perform (hs v) c)

theorem stage_op {α β : Type} {o : SpoolOp β} {k : β → Prog SpoolOp α}
    {Q : α → SpoolState → Prop} (h : Stage T w n cs ts seq)
    (hs : ∀ v, Stage T v n cs ts seq → Sound T o v)
    (hk : ∀ v c, Stage T v n cs ts seq → Known T (perform o v c).2 →
      disciplined T (k (perform o v c).1) Q (perform o v c).2) :
    disciplined T (.op o k) Q w :=
  wpAt_op_of_stable h (fun _ _ hv hb => hv.beside hb) hs
    fun v c hv _ => hk v c hv (hv.known.perform (hs v hv) c)

theorem compressing_op {α β : Type} {o : SpoolOp β} {k : β → Prog SpoolOp α}
    {Q : α → SpoolState → Prop} (h : Compressing T w cs ts seq given)
    (hs : ∀ v, Compressing T v cs ts seq given → Sound T o v)
    (hk : ∀ v c, Compressing T v cs ts seq given → Known T (perform o v c).2 →
      disciplined T (k (perform o v c).1) Q (perform o v c).2) :
    disciplined T (.op o k) Q w :=
  wpAt_op_of_stable h (fun _ _ hv hb => hv.beside hb) hs
    fun v c hv _ => hk v c hv (hv.known.perform (hs v hv) c)

/-- A sealing that gives up. -/
theorem disciplined_fail (h : Known T w) :
    disciplined T (.pure false : Prog SpoolOp Bool) (fun _ v => Known T v) w :=
  fun _ hb => h.beside hb

theorem disciplined_enforceTotalSizeCap (h : Known T w) :
    disciplined T (enforceTotalSizeCap cfg) (fun _ v => Known T v) w := by
  have hs {β : Type} (o : SpoolOp β) (v : SpoolState) (ho : o.evicts = true) : Sound T o v := by
    cases o <;> trivial
  exact wpAt_of_all all_enforceTotalSizeCap (fun _ _ hv hb => Known.beside hv hb)
    (fun o v ho _ => hs o v ho) (fun o v c ho _ hv => Known.perform hv (hs o v ho) c) h

/-! #### The steps of a sealing -/

theorem Stage.rename (h : Stage T w activeFileName cs ts seq) :
    Stage T { w with
      dir := Function.update (Function.update w.dir activeFileName none) (stagingName ts seq)
        (some (.ndjson cs))
      current := some (stagingName ts seq) } (stagingName ts seq) cs ts seq where
  current := rfl
  file := Function.update_self _ _ _
  plain := isBatchName_stagingName ts seq
  reading := h.reading
  numbered := h.numbered.of_sub rfl rfl fun n hn hd => by
    have hne : n ≠ stagingName ts seq := ne_of_isBatchName (isBatchName_stagingName ts seq) hn
    exact isSome_of_update_none (isSome_update hne.symm hd)
  given := h.given

theorem Stage.create (h : Stage T w (stagingName ts seq) cs ts seq)
    (hk : Known T { w with
      dir := Function.update w.dir (batchName ts seq) (some (.zst [] .empty 0))
      encoding := some (batchName ts seq, []) }) :
    Compressing T { w with
      dir := Function.update w.dir (batchName ts seq) (some (.zst [] .empty 0))
      encoding := some (batchName ts seq, []) } cs ts seq [] where
  current := h.current
  file := (Function.update_of_ne
    (batchName_ne_of_not_isBatchName h.plain ts seq).symm _ _).trans h.file
  plain := h.plain
  reading := h.reading
  earlier := h.numbered.batches
  encoder := rfl
  unfinished := by
    intro f hf
    obtain rfl : File.zst [] .empty 0 = f := by simpa using hf
    exact ⟨[], .empty, 0, rfl, by decide⟩
  known := hk

theorem Compressing.copy (h : Compressing T w cs ts seq given) {frame : Frame} {size : ℕ}
    (hf : frame ≠ .whole) (hk : Known T { w with
      dir := w.dir.overwrite (batchName ts seq) (.zst cs frame size)
      encoding := some (batchName ts seq, cs) }) :
    Compressing T { w with
      dir := w.dir.overwrite (batchName ts seq) (.zst cs frame size)
      encoding := some (batchName ts seq, cs) } cs ts seq cs where
  current := h.current
  file := by
    show w.dir.overwrite _ _ _ = _
    rw [Dir.overwrite]
    split_ifs
    · rw [Function.update_of_ne (batchName_ne_of_not_isBatchName h.plain ts seq).symm]
      exact h.file
    · exact h.file
  plain := h.plain
  reading := h.reading
  earlier := h.earlier
  encoder := rfl
  unfinished := by
    intro f hd
    change f ∈ w.dir.overwrite _ _ _ at hd
    rw [Dir.overwrite] at hd
    split_ifs at hd
    · obtain rfl : File.zst cs frame size = f := by simpa using hd
      exact ⟨cs, frame, size, rfl, hf⟩
    · exact h.unfinished f hd
  known := hk

/-- Sealing, whatever fails in it. -/
theorem disciplined_sealActiveFile (hf : Filed w activeFileName cs) (hk : Known T w) :
    disciplined T (sealActiveFile cfg) (fun _ v => Known T v) w := by
  have hstable {v v' : SpoolState} (h : Filed v activeFileName cs ∧ Known T v)
      (hb : Beside v v') : Filed v' activeFileName cs ∧ Known T v' :=
    ⟨h.1.beside hb, h.2.beside hb⟩
  rw [sealActiveFile, orFail_call]
  refine wpAt_op_of_stable ⟨hf, hk⟩ (fun _ _ => hstable) (fun _ _ => trivial) fun v c hv _ => ?_
  cases hok : c.ok with
  | false =>
    simp only [perform, hok, Bool.false_eq_true, if_false]
    exact disciplined_fail hv.2
  | true =>
  simp only [perform, hok, if_true, call_bind]
  refine wpAt_op_of_stable hv (fun _ _ => hstable) (fun _ _ => trivial) fun v t hv ht => ?_
  refine wpAt_op_of_stable (P := fun v => (Filed v activeFileName cs ∧ Known T v) ∧
    T.clock t.unix v.names) ⟨hv, ht⟩ (fun _ _ h hb => ⟨hstable h.1 hb, hb.names ▸ h.2⟩)
    (fun _ _ => trivial) fun v c hv _ => ?_
  obtain ⟨⟨hf, hk⟩, hclock⟩ := hv
  have hstage : Stage T (perform .nextSeq v c).2 activeFileName cs t.unix v.stats.batchesSealed :=
    ⟨⟨hf.current, hf.file, hf.plain⟩, hclock, hk.of_sub rfl rfl fun _ _ => id, Nat.lt_succ_self _⟩
  simp only [perform, orFail_call]
  refine stage_op hstage (fun v hv => ⟨_, _, cs, rfl, hv⟩) fun v c hv hkn => ?_
  cases hok : c.ok with
  | false =>
    simp only [perform, hv.file, hok, Bool.false_eq_true, if_false] at hkn ⊢
    exact disciplined_fail hkn
  | true =>
  simp only [perform, hv.file, hok, if_true]
  refine stage_op hv.rename (fun _ _ => trivial) fun v c hv hkn => ?_
  cases hok : c.ok with
  | false =>
    simp only [perform, hok, Bool.false_and, Bool.false_eq_true, if_false]
    exact disciplined_fail hv.known
  | true =>
  simp only [perform, hv.file, hok, Option.isSome_some, Bool.and_self, if_true]
  refine stage_op hv (fun v hv => ⟨_, _, cs, rfl, hv⟩) fun v c hv hkn => ?_
  cases hok : c.ok with
  | false =>
    simp only [perform, hok, Bool.false_eq_true, if_false]
    exact disciplined_fail hv.known
  | true =>
  simp only [perform, hok, if_true] at hkn ⊢
  refine compressing_op (hv.create hkn) (fun _ _ => trivial) fun v c hv hkn => ?_
  cases hok : c.ok with
  | false =>
    simp only [perform, hok, Bool.false_eq_true, if_false]
    exact disciplined_fail hv.known
  | true =>
  simp only [perform, hok, if_true]
  refine compressing_op hv (fun v hv => ⟨_, _, cs, rfl, rfl, hv⟩) fun v c hv hkn => ?_
  have hcut : (if c.size = 0 then Frame.empty else .cut) ≠ .whole := by
    split_ifs <;> decide
  cases hok : c.ok with
  | false =>
    simp only [perform, hv.file, hok, Bool.false_eq_true, if_false] at hkn ⊢
    exact disciplined_fail hkn
  | true =>
  simp only [perform, hv.file, hok, if_true] at hkn ⊢
  refine compressing_op (hv.copy hcut hkn) (fun v hv => ⟨_, _, cs, rfl, hv⟩) fun v c hv hkn => ?_
  cases hok : c.ok with
  | false =>
    simp only [perform, hv.encoder, hok, Bool.false_eq_true, if_false]
    exact disciplined_fail hv.known
  | true =>
  simp only [perform, hv.encoder, hok, if_true] at hkn ⊢
  refine known_op hkn (fun _ => trivial) fun v c hkn => ?_
  refine wpAt_bind.mpr (wpAt_mono ?_ (disciplined_enforceTotalSizeCap hkn))
  exact fun _ v hkn v' hb => hkn.beside hb

/-! #### The loop -/

/-- The thread knows its file and its names. -/
def InOrder (T : Terms) (active : Option ActiveFile) (w : SpoolState) : Prop :=
  Placed active w ∧ Known T w

/-- What the result of an iteration says. -/
def OrderAtEnd (T : Terms) : Option Locals → SpoolState → Prop
  | some loc, w => InOrder T loc.active w
  | none, _ => True

theorem InOrder.beside {active : Option ActiveFile} (h : InOrder T active w) (hb : Beside w w') :
    InOrder T active w' :=
  ⟨h.1.sameFile hb.toSameFile, h.2.beside hb⟩

theorem Placed.filed {f : ActiveFile} (h : Placed (some f) w) :
    ∃ cs, Filed w activeFileName cs := by
  obtain ⟨hc, cs, hd, -⟩ := h
  exact ⟨cs, hc, hd, isBatchName_activeFileName⟩

theorem order_op {α β : Type} {active : Option ActiveFile} {o : SpoolOp β}
    {k : β → Prog SpoolOp α} {Q : α → SpoolState → Prop} (h : InOrder T active w)
    (hs : ∀ v, Sound T o v) (hk : ∀ v c, InOrder T active v → Known T (perform o v c).2 →
      disciplined T (k (perform o v c).1) Q (perform o v c).2) :
    disciplined T (.op o k) Q w :=
  wpAt_op_of_stable h (fun _ _ hv hb => hv.beside hb) (fun v _ => hs v)
    fun v c hv _ => hk v c hv (hv.2.perform (hs v) c)

/-- Reopening the active file. -/
theorem disciplined_createActive (h : Known T w) :
    disciplined T (.op .createActive fun ok =>
      if ok = true then .pure (some (⟨0⟩ : ActiveFile)) else .pure none)
      (fun active v => InOrder T active v) w := by
  refine known_op h (fun _ => trivial) fun v c hk => ?_
  cases hok : c.ok with
  | true =>
    simp only [perform, hok, if_true] at hk ⊢
    have hp : Placed (some ⟨0⟩) { v with
        dir := Function.update v.dir activeFileName (some (.ndjson []))
        current := some activeFileName } := ⟨rfl, [], by simp, rfl⟩
    exact fun v' hb => ⟨hp.sameFile hb.toSameFile, hk.beside hb⟩
  | false =>
    simp only [perform, hok, Bool.false_eq_true, if_false] at hk ⊢
    have hp : Placed none { v with current := none } := rfl
    exact fun v' hb => ⟨hp.sameFile hb.toSameFile, hk.beside hb⟩

theorem disciplined_rotate (hf : Filed w activeFileName cs) (hk : Known T w) :
    disciplined T (rotate cfg) (fun active v => InOrder T active v) w := by
  rw [rotate]
  refine wpAt_bind.mpr (wpAt_mono ?_ (disciplined_sealActiveFile hf hk))
  intro ok v hv
  cases ok with
  | true => exact disciplined_createActive hv
  | false => exact known_op hv (fun _ => trivial) fun v c hv => disciplined_createActive hv

theorem disciplined_now {active : Option ActiveFile} (h : InOrder T active w) :
    disciplined T (.op .now fun now => .pure (some ⟨active, now⟩)) (OrderAtEnd T) w :=
  order_op h (fun _ => trivial) fun _ _ hv _ _ hb => hv.beside hb

theorem disciplined_rotate_now (hf : Filed w activeFileName cs) (hk : Known T w) :
    disciplined T (rotate cfg >>= fun active => .op .now fun now => .pure (some ⟨active, now⟩))
      (OrderAtEnd T) w :=
  wpAt_bind.mpr (wpAt_mono (fun _ _ hv => disciplined_now hv) (disciplined_rotate hf hk))

/-- A line that is counted as dropped. -/
theorem disciplined_countDropped {loc : Locals} (h : InOrder T loc.active w) :
    disciplined T (.op .countDropped fun _ => .pure (some loc)) (OrderAtEnd T) w := by
  refine order_op h (fun _ => trivial) fun v c hv hk v' hb => ?_
  have hp : Placed loc.active (perform .countDropped v c).2 := hv.1
  exact ⟨hp.sameFile hb.toSameFile, hk.beside hb⟩

theorem disciplined_onLine {loc : Locals} {l : NdjsonLine} (h : InOrder T loc.active w)
    (hh : w.hand = some l) : disciplined T (onLine cfg loc l) (OrderAtEnd T) w := by
  rw [onLine]
  cases hf : loc.active with
  | none => exact disciplined_countDropped h
  | some f =>
    rw [hf] at h
    simp only [call_bind, pure_eq]
    have hsound : ∀ v, InOrder T (some f) v ∧ v.hand = some l → Sound T (.writeLine l) v :=
      fun v hv => ⟨hv.2, hv.1.1.filed⟩
    refine wpAt_op_of_stable ⟨h, hh⟩ (fun _ _ hv hb => ⟨hv.1.beside hb, hb.hand.trans hv.2⟩)
      hsound fun v c hv _ => ?_
    have hk := hv.1.2.perform (hsound v hv) c
    cases hok : c.ok with
    | false =>
      simp only [perform, hok, Bool.false_eq_true, if_false] at hk ⊢
      have htorn : Placed (some f) { v with
          dir := v.dir.append activeFileName (.torn (l.bytes.dropLast.take c.size)) } :=
        hv.1.1.append (.torn _) rfl
      exact disciplined_countDropped ⟨hf ▸ htorn, hk⟩
    | true =>
      simp only [perform, hok, if_true] at hk ⊢
      have hwhole : Placed (some ⟨f.bytesWritten + l.bytes.length⟩) { v with
          dir := v.dir.append activeFileName (.whole l), hand := none } :=
        hv.1.1.append (.whole l) (by simp)
      refine order_op ⟨hwhole, hk⟩ (fun _ => trivial) fun v c hv hk => ?_
      have hv' : Placed (some ⟨f.bytesWritten + l.bytes.length⟩)
        (perform .countWritten v c).2 := hv.1
      split_ifs
      · obtain ⟨cs, hfiled⟩ := hv'.filed
        exact disciplined_rotate_now hfiled hk
      · exact fun v' hb => ⟨hv'.sameFile hb.toSameFile, hk.beside hb⟩

theorem disciplined_onTimeout {loc : Locals} (h : InOrder T loc.active w) :
    disciplined T (onTimeout cfg loc) (OrderAtEnd T) w := by
  rw [onTimeout]
  cases hf : loc.active with
  | none => exact disciplined_now (hf ▸ h)
  | some f =>
    rw [hf] at h
    simp only [call_bind, pure_eq]
    split_ifs
    · obtain ⟨cs, hfiled⟩ := h.1.filed
      exact disciplined_rotate_now hfiled h.2
    · exact disciplined_now h

theorem disciplined_onDisconnected {loc : Locals} (h : InOrder T loc.active w) :
    disciplined T (onDisconnected cfg loc) (OrderAtEnd T) w := by
  rw [onDisconnected]
  cases hf : loc.active with
  | none => exact fun _ _ => trivial
  | some f =>
    rw [hf] at h
    simp only [call_bind, pure_eq]
    split_ifs
    · obtain ⟨cs, hfiled⟩ := h.1.filed
      refine wpAt_bind.mpr (wpAt_mono ?_ (disciplined_sealActiveFile hfiled h.2))
      exact fun _ _ _ _ _ => trivial
    · refine known_op h.2 (fun _ => trivial) fun v c hk => ?_
      exact known_op hk (fun _ => trivial) fun v c hk _ _ => trivial

/-- **One iteration** comes to its operations as `Sound` says. -/
theorem disciplined_iteration {loc : Locals} (h : InOrder T loc.active w) :
    disciplined T (iteration cfg loc) (OrderAtEnd T) w := by
  rw [iteration]
  simp only [call_bind]
  refine order_op h (fun _ => trivial) fun v c hv _ => ?_
  refine order_op hv (fun _ => trivial) fun v c hv hk => ?_
  refine wpAt_op_of_stable (P := InOrder T loc.active) ⟨hv.1, hk⟩
    (fun _ _ hv hb => hv.beside hb) (fun _ _ => trivial) fun v c hv _ => ?_
  have hk := hv.2.perform (o := .recv) trivial c
  cases hq : v.queue with
  | nil =>
    simp only [perform, hq] at hk ⊢
    cases v.disconnected with
    | true => exact disciplined_onDisconnected ⟨hv.1, hk⟩
    | false => exact disciplined_onTimeout ⟨hv.1, hk⟩
  | cons l rest =>
    simp only [perform, hq] at hk ⊢
    exact disciplined_onLine ⟨hv.1, hk⟩ rfl

theorem disciplined_setup (h : Known T w) : disciplined T setup (OrderAtEnd T) w := by
  rw [setup]
  simp only [call_bind, pure_eq]
  refine known_op h (fun _ => trivial) fun v c hk => ?_
  cases hdir : c.ok with
  | false =>
    simp only [perform, hdir]
    exact fun _ _ => trivial
  | true =>
    simp only [perform, hdir, if_true] at hk ⊢
    refine known_op hk (fun _ => trivial) fun v c hk => ?_
    refine known_op hk (fun _ => trivial) fun v c hk => ?_
    cases hfile : c.ok with
    | false =>
      simp only [perform, hfile]
      exact fun _ _ => trivial
    | true =>
      simp only [perform, hfile, if_true] at hk ⊢
      exact disciplined_now ⟨⟨rfl, [], by simp, rfl⟩, hk⟩

end Spool

end WazabiAgent
