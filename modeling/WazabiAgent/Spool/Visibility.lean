import WazabiAgent.Spool.Discipline

/-!
# When is a visible batch complete?

Sealing renames the active file first, so that nobody who looks at the spool directory sees a
batch whose content is still being written. But the file that is renamed is the staging file. The
batch file itself is created under its final name, and the frame is written into it there: from
its creation to the end of the encoding it is an incomplete file with a batch name, and a crash or
a failure in between leaves it so.

So the directory is complete at every moment exactly if no batch is ever sealed. What does hold is
less: once an encoding has ended, everything is complete again, provided that none has failed.

## Main results

* `Spool.complete_iff` — both
* `Spool.visible_incomplete` — a batch file without a byte in it
-/

namespace WazabiAgent

namespace Spool

open LabelledStep Prog

/-! ### Complete directories -/

/-- Every file with a batch name is a whole frame. -/
def Complete (dir : Dir) : Prop :=
  ∀ n f, isBatchName n = true → dir n = some f → ∃ cs size, f = .zst cs .whole size

/-- The operation does not create a file. -/
def SpoolOp.createsNone {β : Type} : SpoolOp β → Choice → Prop
  | .createFile _, c => c.ok = false
  | _, _ => True

/-- The step does not create a batch file. -/
def CreatesNone : System → Label → Prop := OnOp fun o _ _ c => o.createsNone c

/-- The operations between the creation of a batch file and the end of the encoding. -/
def SpoolOp.encodes {β : Type} : SpoolOp β → Prop
  | .newEncoder | .copy _ _ | .finishEncoder _ => True
  | _ => False

/-- None of them fails. -/
def Encodes : System → Label → Prop := OnOp fun o _ _ c => o.encodes → c.ok = true

variable {cfg : SpoolConfig} {dir : Dir} {s t : System} {l : Label}

theorem complete_of_files {d d' : Dir} (h : Complete d)
    (hd : ∀ n, isBatchName n = true → d' n = d n ∨ d' n = none) : Complete d' := by
  intro n f hn hf
  rcases hd n hn with hd | hd
  · exact h n f hn (hd ▸ hf)
  · simp [hd] at hf

/-- A complete file is not unfinished. -/
theorem Complete.not_unfinished {w : SpoolState} {n : String} (h : Complete w.dir)
    (hn : isBatchName n = true) (hs : (w.dir n).isSome) : ¬ Unfinished w n := by
  intro hu
  obtain ⟨f, hf⟩ := Option.isSome_iff_exists.mp hs
  obtain ⟨cs, frame, size, rfl, hframe⟩ := hu f hf
  obtain ⟨_, _, heq⟩ := h n _ hn hf
  injection heq with _ heq _
  exact hframe heq

/-! ### Every moment -/

/-- A step that creates no batch file keeps a complete directory complete. -/
theorem complete_of_createsNone (hd : Disciplined .none s) (h : Complete s.spool.dir)
    (hl : CreatesNone s l) (hst : s.step cfg l = some t) : Complete t.spool.dir := by
  rcases System.step_cases hst with ⟨x, rfl, hx, -⟩ | ⟨c, β, o, k, rfl, hw, -, rfl⟩ | ⟨-, -, rfl⟩
  · exact complete_of_files h fun n _ => (beside_of_other hx).shipped n
  · refine complete_of_files h fun n hn => ?_
    rcases (hd.sound_op hw).batchFile hn c with hsame | ⟨hcr, hok, -⟩ | ⟨-, -, hs, hu⟩ |
      ⟨-, -, hnone⟩
    · exact .inl hsame
    · cases o with
      | createFile name =>
        have hfail : c.ok = false := (onOp_op hw).mp hl
        exact absurd (hok.symm.trans hfail) (by decide)
      | _ => exact hcr.elim
    · exact absurd hu (h.not_unfinished hn hs)
    · exact .inr hnone
  · exact h

/-- And one that creates a batch file does not. -/
theorem createsNone_of_complete (hd : Disciplined .none s) (hst : s.step cfg l = some t)
    (h : Complete t.spool.dir) : CreatesNone s l := by
  rcases System.step_cases hst with ⟨x, rfl, -, -⟩ | ⟨c, β, o, k, rfl, hw, -, rfl⟩ | ⟨rfl, -, -⟩
  · trivial
  · refine (onOp_op hw).mpr ?_
    cases o with
    | createFile name =>
      show c.ok = false
      obtain ⟨ts, seq, cs, rfl, -⟩ := hd.sound_op hw
      by_contra hok
      have hok : c.ok = true := by simpa using hok
      obtain ⟨cs, size, heq⟩ := h _ (.zst [] .empty 0) (isBatchName_batchName ts seq) (by
        simp [perform, hok])
      injection heq with _ hframe _
      exact absurd hframe (by decide)
    | _ => trivial
  · trivial

/-! ### After an encoding -/

/-- Every batch file is a whole frame or the one under the encoder, and while there is one the
thread is about to go on with it. -/
structure Pending (s : System) : Prop where
  files : ∀ n f, isBatchName n = true → s.spool.dir n = some f →
    (∃ cs size, f = .zst cs .whole size) ∨ ∃ given, s.spool.encoding = some (n, given)
  busy : s.spool.encoding ≠ none → ∃ p, s.writer = some p ∧ First SpoolOp.encodes p

theorem resume_of_first {φ : {β : Type} → SpoolOp β → Prop}
    {p : Prog SpoolOp (Option Locals)} (h : First φ p) : resume cfg p = p := by
  cases p with
  | pure a => exact h.elim
  | op o k => rfl

/-- The files of a directory in which no encoding is going on. -/
theorem Pending.complete (h : Pending s) (he : s.spool.encoding = none) :
    Complete s.spool.dir := by
  intro n f hn hf
  rcases h.files n f hn hf with hw | ⟨given, hgiven⟩
  · exact hw
  · simp [he] at hgiven

/-- While no operation of an encoding fails, an encoding that has begun goes on. -/
theorem Pending.goes_on (h : Pending s) {β : Type} {o : SpoolOp β}
    {k : β → Prog SpoolOp (Option Locals)} (hw : s.writer = some (.op o k)) (ho : ¬ o.encodes) :
    s.spool.encoding = none := by
  by_contra hne
  obtain ⟨p, hp, hfirst⟩ := h.busy hne
  obtain rfl : Prog.op o k = p := Option.some.inj (hw.symm.trans hp)
  exact ho hfirst

/-- The encoder is the business of the creation of a batch file and of the encoding. -/
theorem encoding_of_not_encodes {w : SpoolState} {β : Type} {o : SpoolOp β} {c : Choice}
    (hcr : ¬ ∃ n, o.creates n ∧ c.ok = true) (ho : ¬ o.encodes) :
    (perform o w c).2.encoding = w.encoding := by
  cases o with
  | copy | finishEncoder => exact absurd trivial ho
  | createFile name =>
    have hok : ¬ c.ok = true := fun hok => hcr ⟨name, rfl, hok⟩
    simp [perform, hok]
  | createActive | remove | writeLine =>
    rw [perform]
    split_ifs <;> rfl
  | rename dst =>
    rw [perform]
    split
    · split_ifs <;> rfl
    · rfl
  | recv =>
    rw [perform]
    split <;> rfl
  | _ => rfl

/-- What an operation answers within an encoding leads to the next operation of it. -/
theorem Disciplined.next_encodes (h : Disciplined .none s) {β : Type} {o : SpoolOp β}
    {k : β → Prog SpoolOp (Option Locals)} (hw : s.writer = some (.op o k)) {b : β}
    (hb : o.asks b) (ho : ∀ {γ : Type} (o' : SpoolOp γ), o.follows o' → o'.encodes) :
    First SpoolOp.encodes (resume cfg (k b)) := by
  have hfirst : First o.follows (k b) := (h.orderly _ hw b).1 hb
  rw [resume_of_first hfirst]
  exact hfirst.mono ho

/-- Beside the file under the encoder all batch files are whole. -/
theorem Pending.whole_elsewhere (h : Pending s) {n m : String} {f : File} {given : List Chunk}
    (he : s.spool.encoding = some (m, given)) (hn : isBatchName n = true) (hne : n ≠ m)
    (hf : s.spool.dir n = some f) : ∃ cs size, f = .zst cs .whole size := by
  refine (h.files n f hn hf).resolve_right ?_
  rintro ⟨given', hgiven⟩
  rw [he] at hgiven
  exact hne (congrArg Prod.fst (Option.some.inj hgiven)).symm

section

variable {β : Type} {o : SpoolOp β} {k : β → Prog SpoolOp (Option Locals)} {c : Choice}

/-- The batch file has been created, and its encoding begins. -/
theorem Pending.createFile {name : String} {k : Bool → Prog SpoolOp (Option Locals)}
    (hd : Disciplined .none s) (h : Complete s.spool.dir)
    (hw : s.writer = some (.op (.createFile name) k)) (hok : c.ok = true) :
    Pending ⟨(perform (.createFile name) s.spool c).2,
      some (resume cfg (k (perform (.createFile name) s.spool c).1))⟩ := by
  have hanswer : (perform (.createFile name) s.spool c).1 = true := by simp [perform, hok]
  refine ⟨fun n f hn hf => ?_, fun _ => ⟨_, rfl, hd.next_encodes hw hanswer
    fun o' ho' => by cases o' <;> trivial⟩⟩
  simp only [perform, hok, if_true] at hf ⊢
  by_cases hname : n = name
  · exact .inr ⟨[], by rw [hname]⟩
  · rw [Function.update_of_ne hname] at hf
    exact .inl (h n f hn hf)

/-- An operation of the encoding succeeds. -/
theorem Pending.encodes (hd : Disciplined .none s) (h : Pending s)
    (hw : s.writer = some (.op o k)) (ho : o.encodes) (hok : c.ok = true) :
    Pending ⟨(perform o s.spool c).2, some (resume cfg (k (perform o s.spool c).1))⟩ := by
  have hs := hd.sound_op hw
  cases o with
  | newEncoder =>
    exact ⟨h.files, fun _ => ⟨_, rfl, hd.next_encodes hw hok fun o' ho' => by
      cases o' <;> trivial⟩⟩
  | copy src dst =>
    obtain ⟨ts, seq, cs, rfl, rfl, hcomp⟩ := hs
    have hanswer : (perform (.copy (stagingName ts seq) (batchName ts seq)) s.spool c).1 =
        true := by simp only [perform, hcomp.file, hok]
    refine ⟨fun n f hn hf => ?_, fun _ => ⟨_, rfl, hd.next_encodes hw hanswer
      fun o' ho' => by cases o' <;> trivial⟩⟩
    simp only [perform, hcomp.file] at hf ⊢
    by_cases hname : n = batchName ts seq
    · exact .inr ⟨cs, by rw [hname]⟩
    · rw [Dir.overwrite_of_ne hname] at hf
      exact .inl (h.whole_elsewhere hcomp.encoder hn hname hf)
  | finishEncoder dst =>
    obtain ⟨ts, seq, cs, rfl, hcomp⟩ := hs
    refine ⟨fun n f hn hf => ?_, fun he => absurd ?_ he⟩
    · simp only [perform, hcomp.encoder, hok, if_true] at hf ⊢
      by_cases hname : n = batchName ts seq
      · rw [hname, Dir.overwrite] at hf
        split_ifs at hf with hsome
        · rw [Function.update_self] at hf
          exact .inl ⟨cs, c.size, (Option.some.inj hf).symm⟩
        · rw [hf] at hsome
          exact absurd rfl hsome
      · rw [Dir.overwrite_of_ne hname] at hf
        exact .inl (h.whole_elsewhere hcomp.encoder hn hname hf)
    · simp only [perform, hcomp.encoder, hok, if_true]
  | _ => exact ho.elim

/-- Any other operation leaves a complete directory complete. -/
theorem Pending.others (hs : Sound .none o s.spool) (hc : Complete s.spool.dir)
    (he : s.spool.encoding = none) (ho : ¬ o.encodes) (hcr : ¬ ∃ n, o.creates n ∧ c.ok = true) :
    Pending ⟨(perform o s.spool c).2, some (resume cfg (k (perform o s.spool c).1))⟩ := by
  refine ⟨fun n f hn hf => ?_, fun he' => absurd ?_ he'⟩
  · refine .inl ((complete_of_files hc fun m hm => ?_) n f hn hf)
    rcases hs.batchFile hm c with hsame | ⟨hcreate, hok, -⟩ | ⟨-, -, hsome, hu⟩ | ⟨-, -, hnone⟩
    · exact .inl hsame
    · exact absurd ⟨m, hcreate, hok⟩ hcr
    · exact absurd hu (hc.not_unfinished hm hsome)
    · exact .inr hnone
  · exact (encoding_of_not_encodes hcr ho).trans he

end

/-- The step lemma: while no operation of an encoding fails, only the file under the encoder is
incomplete. -/
theorem Pending.step (hd : Disciplined .none s) (h : Pending s) (hl : Encodes s l)
    (hst : s.step cfg l = some t) : Pending t := by
  rcases System.step_cases hst with ⟨x, rfl, hx, hwr⟩ | ⟨c, β, o, k, rfl, hw, -, rfl⟩ |
    ⟨-, hw, rfl⟩
  · have hb := beside_of_other hx
    refine ⟨fun n f hn hf => ?_, fun he => ?_⟩
    · rw [hb.encoding]
      rcases hb.shipped n with hsame | hnone
      · exact h.files n f hn (hsame ▸ hf)
      · simp [hnone] at hf
    · rw [hwr]
      exact h.busy (hb.encoding ▸ he)
  · by_cases ho : o.encodes
    · exact h.encodes hd hw ho ((onOp_op hw).mp hl ho)
    · -- no encoding is going on, so everything is complete
      have he := h.goes_on hw ho
      by_cases hcr : ∃ n, o.creates n ∧ c.ok = true
      · obtain ⟨name, hname, hok⟩ := hcr
        cases o with
        | createFile name => exact .createFile hd (h.complete he) hw hok
        | _ => exact hname.elim
      · exact .others (hd.sound_op hw) (h.complete he) he ho hcr
  · refine ⟨h.files, fun he => ?_⟩
    obtain ⟨p, hp, hfirst⟩ := h.busy he
    obtain rfl : Prog.pure none = p := Option.some.inj (hw.symm.trans hp)
    exact hfirst.elim

/-! ### The result -/

/-- The file that the encoder is given is the one that was renamed. -/
def EncodesStaging (s : System) : Prop :=
  ∀ n k, s.writer = some (.op (.finishEncoder n) k) → ∃ ts seq cs, n = batchName ts seq ∧
    s.spool.dir (stagingName ts seq) = some (.ndjson cs) ∧ s.spool.encoding = some (n, cs)

theorem encodesStaging_of_reachable (h : Reachable (System.step cfg) (.start dir) s) :
    EncodesStaging s := by
  intro n k hk
  obtain ⟨ts, seq, cs, hn, hcomp⟩ := (disciplined_of_reachable h).sound_op hk
  exact ⟨ts, seq, cs, hn, hcomp.file, hn ▸ hcomp.encoder⟩

/-- **When a visible batch is complete.** Every batch file is complete at every moment of a run if
and only if this was so at the start and the run creates no batch file. Between two encodings, as
long as none has failed, every batch file is complete, and holds what was renamed. -/
theorem complete_iff (cfg : SpoolConfig) (dir : Dir) (ls : List Label) (s : System)
    (hr : run (System.step cfg) (.start dir) ls = some s) :
    ((∀ ms rest t, ls = ms ++ rest → run (System.step cfg) (.start dir) ms = some t →
        Complete t.spool.dir) ↔
      Complete dir ∧ Along (System.step cfg) CreatesNone (.start dir) ls) ∧
    (Complete dir → Along (System.step cfg) Encodes (.start dir) ls →
      s.spool.encoding = none → Complete s.spool.dir) ∧ EncodesStaging s := by
  have hrule (hs : Complete dir) := forall_split_iff_along (I := fun t => Complete t.spool.dir)
    hs (fun _ _ _ ht h hl hst => complete_of_createsNone (disciplined_of_reachable ht) h hl hst)
    (fun _ _ _ ht _ hst h => createsNone_of_complete (disciplined_of_reachable ht) hst h) hr
  refine ⟨⟨fun h => ?_, fun h => (hrule h.1).mpr h.2⟩, fun hs ha he => ?_,
    encodesStaging_of_reachable ⟨ls, hr⟩⟩
  · have hs : Complete dir := h [] ls _ rfl rfl
    exact ⟨hs, (hrule hs).mp h⟩
  · have hstart : Pending (.start dir) :=
      ⟨fun n f hn hf => .inl (hs n f hn hf), fun h => absurd rfl h⟩
    have hinv : Pending s ∧ Reachable (System.step cfg) (.start dir) s :=
      invariant_of_along (I := fun t => Pending t ∧ Reachable (System.step cfg) (.start dir) t)
        (fun _ _ _ h hl hst =>
          ⟨h.1.step (disciplined_of_reachable h.2) hl hst, h.2.tail hst⟩)
        ⟨hstart, .refl _⟩ ha hr
    exact hinv.1.complete he

instance {β : Type} (o : SpoolOp β) : Decidable o.encodes := by
  induction o using SpoolOp.casesOn <;> unfold SpoolOp.encodes <;> infer_instance

instance (s : System) (l : Label) : Decidable (Encodes s l) :=
  decidableOnOp s l

/-- The thread sets up, and writes one line that fills the file. -/
def fullFile : List Label :=
  settingUp ++ [.other (.submit emptyEvent)] ++ List.replicate 3 (.op {})

/-- The encoding of one batch to its end. -/
def encoded : List Label := fullFile ++ List.replicate 9 (.op {})

theorem encoded_complete : ∃ s,
    run (System.step smallSpool) (.start fun _ => none) encoded = some s ∧
      s.spool.batches.length = 1 ∧ Complete s.spool.dir :=
  ⟨_, rfl, rfl, (complete_iff smallSpool (fun _ => none) encoded _ rfl).2.1
    (fun _ _ _ hf => absurd hf (Option.some_ne_none _).symm) (by decide) rfl⟩

/-- The same run, up to the moment after `File::create`. -/
def batchCreated : List Label := fullFile ++ List.replicate 6 (.op {})

/-- **A batch without a byte in it.** -/
theorem visible_incomplete : ∃ s,
    run (System.step smallSpool) (.start fun _ => none) batchCreated = some s ∧
      s.spool.dir (batchName 0 0) = some (.zst [] .empty 0) ∧ ¬ Complete s.spool.dir := by
  refine ⟨_, rfl, rfl, fun h => ?_⟩
  obtain ⟨cs, size, heq⟩ := h (batchName 0 0) (.zst [] .empty 0) (isBatchName_batchName 0 0) rfl
  injection heq with _ hframe _
  exact absurd hframe (by decide)

end Spool

end WazabiAgent
