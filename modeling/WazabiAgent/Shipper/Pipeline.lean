import WazabiAgent.Shipper.Run
import WazabiAgent.Spool.Visibility

/-!
# Does a batch vanish unacknowledged?

The spools and the shipper share their directories and nothing else: no lock, and no state that
says which file is being sent. The shipper reads a file, sends what it has decoded, and deletes
whatever has the name of the file by then. Meanwhile the writer creates files, compresses into
them and evicts them.

What makes this safe is that a batch name stands for one batch. As long as no batch is created
under a name whose complete batch is in the directory or on its way to the server, a file goes
only after the server has accepted its complete content, or by an eviction that is counted.

## What is assumed of `zstd` and of the server

Reading an incomplete file gives a strict prefix of a frame. `PrefixRefused` says that it does not
decode, or that the server does not accept what it decodes to.

## Main results

* `Pipeline.keepsBatches_of_along` — no batch vanishes while names are not used twice
* `Pipeline.apart_of_clean` — which they are not if the directories have no batches at the start
* `Pipeline.leftover_deletes` — a leftover is accepted, and the new batch of its name is deleted
-/

namespace WazabiAgent

namespace Pipeline

open LabelledStep Prog Spool Shipper

/-! ### The spools and the shipper -/

/-- Where the thread of the shipper is. -/
inductive Phase
  | idle
  | picked (p : Path)
  /-- The file has been read. -/
  | loaded (p : Path) (f : File)
  /-- The server has answered 2xx to a POST with this body. -/
  | accepted (p : Path) (body : List UInt8)
  deriving DecidableEq

/-- The spools, by the position of their directory among those that are watched. -/
structure State where
  spools : ℕ → System
  shipper : Phase

/-- What happens next. -/
inductive Label
  | spool (i : ℕ) (l : Spool.Label)
  | pick (listing : List (Option (List String)))
  | read (ok : Bool)
  /-- `decoded` is what `zstd` makes of the file. -/
  | post (decoded : Option (List UInt8)) (answer : Answer)
  | remove (ok : Bool)

/-- A whole frame decodes to what was compressed. Of the rest nothing is known. -/
def decodesTo : File → Option (List UInt8) → Bool
  | .zst cs .whole _, decoded => decoded == some (contentBytes cs)
  | _, _ => true

/-- The outcome is `Outcome::Ok`. -/
def accepts (decoded : Option (List UInt8)) (answer : Answer) : Bool :=
  match sendOne { decodes := decoded.isSome, answer } with
  | .ok => true
  | _ => false

/-- The label is a deletion by a shipper. -/
def ships : Spool.Label → Bool
  | .other (.ship _) => true
  | _ => false

/-- Puts a spool in place of another. -/
def State.setSpool (s : State) (i : ℕ) (t : System) : State :=
  { s with spools := Function.update s.spools i t }

/-- One iteration of `shipper_main` is `pick`, `read`, `post` and `remove`. -/
def State.step (cfg : ℕ → SpoolConfig) (s : State) : Label → Option State
  | .spool i l => if ships l then none else ((s.spools i).step (cfg i) l).map (s.setSpool i)
  | .pick listing =>
    match s.shipper with
    | .idle => some { s with shipper := (oldestBatch listing).elim .idle .picked }
    | _ => none
  | .read ok =>
    match s.shipper with
    | .picked p =>
      match (s.spools p.dir).spool.dir p.name with
      | some f => some { s with shipper := if ok then .loaded p f else .idle }
      | none => some { s with shipper := .idle }
    | _ => none
  | .post decoded answer =>
    match s.shipper with
    | .loaded p f =>
      if decodesTo f decoded then
        some { s with
          shipper := if accepts decoded answer then .accepted p (decoded.getD []) else .idle }
      else none
    | _ => none
  | .remove ok =>
    match s.shipper with
    | .accepted p _ =>
      if ok then
        match (s.spools p.dir).step (cfg p.dir) (.other (.ship p.name)) with
        | some t => some { s.setSpool p.dir t with shipper := .idle }
        | none => some { s with shipper := .idle }
      else some { s with shipper := .idle }
    | _ => none

/-- The spools are at their start, and nothing is being shipped. -/
def State.start (dirs : ℕ → Dir) : State := ⟨fun i => .start (dirs i), .idle⟩

/-! ### What is to be shown -/

/-- A complete batch file, that decompresses to `body`. -/
def Whole (body : List UInt8) (f : File) : Prop :=
  ∃ cs size, f = .zst cs .whole size ∧ contentBytes cs = body

/-- The file is still there; a complete one has not changed. -/
def Kept (f : File) (g : Option File) : Prop :=
  g = some f ∨ (∀ body, ¬ Whole body f) ∧ g.isSome = true

/-- **No batch vanishes**: a step leaves a batch file where it is, or the server has accepted its
complete content, or it is evicted and counted next. -/
def KeepsBatches (cfg : ℕ → SpoolConfig) (s : State) (l : Label) : Prop :=
  ∀ t, s.step cfg l = some t → ∀ i n f, isBatchName n = true →
    (s.spools i).spool.dir n = some f → Kept f ((t.spools i).spool.dir n) ∨
      (∃ body, s.shipper = .accepted ⟨n, i⟩ body ∧ Whole body f) ∨
      (∃ c, l = .spool i (.op c)) ∧ ∃ k, (t.spools i).writer = some (.op .countEvicted k)

/-- The file is a whole frame. -/
def isWhole : File → Bool
  | .zst _ .whole _ => true
  | _ => false

/-- The complete batch that is on its way to the server. -/
def Phase.carried : Phase → Option Path
  | .loaded p f => if isWhole f then some p else none
  | .accepted p _ => some p
  | _ => none

/-- The assumption on `zstd` and the server. -/
def PrefixRefused (s : State) : Label → Prop
  | .post decoded answer =>
    match s.shipper with
    | .loaded _ f => isWhole f = true ∨ accepts decoded answer = false
    | _ => True
  | _ => True

/-- The operation does not create a batch under the name of one that is there or under way. -/
def createsApart (carried : Option Path) (i : ℕ) {β : Type} :
    SpoolOp β → SpoolState → Choice → Prop
  | .createFile n, w, c =>
    c.ok = true → (∀ f ∈ w.dir n, isWhole f = false) ∧ carried ≠ some ⟨n, i⟩
  | _, _, _ => True

/-- A spool creates no batch under the name of one that is there or under way. -/
def NamesApart (s : State) : Label → Prop
  | .spool i l => OnOp (fun o _ w c => createsApart s.shipper.carried i o w c) (s.spools i) l
  | _ => True

variable {T : Terms} {cfg : SpoolConfig} {cfgs : ℕ → SpoolConfig} {w : SpoolState} {n : String}

theorem isWhole_of_whole {body : List UInt8} {f : File} (h : Whole body f) : isWhole f = true := by
  obtain ⟨cs, size, rfl, -⟩ := h
  rfl

theorem whole_of_isWhole {f : File} (h : isWhole f = true) : ∃ body, Whole body f := by
  cases f with
  | ndjson cs => cases h
  | zst cs frame size =>
    cases frame with
    | whole => exact ⟨_, cs, size, rfl, rfl⟩
    | _ => cases h

theorem isWhole_of_unfinished {f : File} (hu : Unfinished w n) (hf : w.dir n = some f) :
    isWhole f = false := by
  obtain ⟨cs, frame, size, rfl, hframe⟩ := hu f hf
  cases frame with
  | whole => exact absurd rfl hframe
  | _ => rfl

theorem kept_of_not_isWhole {f : File} {g : Option File} (hf : isWhole f = false)
    (hg : g.isSome = true) : Kept f g := by
  refine .inr ⟨fun body h => ?_, hg⟩
  rw [isWhole_of_whole h] at hf
  cases hf

/-! ### The steps of one spool -/

/-- The file of the encoder is a batch file, and unfinished. -/
def EncoderUnfinished (w : SpoolState) : Prop :=
  ∀ e ∈ w.encoding, isBatchName e.1 = true ∧ Unfinished w e.1

theorem unfinished_of_files {w' : SpoolState} (h : Unfinished w n)
    (hd : w'.dir n = w.dir n ∨ w'.dir n = none) : Unfinished w' n := by
  intro f hf
  rcases hd with hsame | hnone
  · exact h f (hsame ▸ hf)
  · simp [hnone] at hf

theorem eq_of_overwrite {d : Dir} {f g : File} (h : d.overwrite n g n = some f) : f = g := by
  rw [Dir.overwrite] at h
  split_ifs at h with hsome
  · rw [Function.update_self] at h
    exact (Option.some.inj h).symm
  · rw [h] at hsome
    exact absurd rfl hsome

/-- What is known of the encoder after an operation. -/
theorem encoder_perform {β : Type} {o : SpoolOp β} (h : Sound T o w) (hu : EncoderUnfinished w)
    (c : Choice) {e : String × List Chunk} (he : e ∈ (perform o w c).2.encoding) :
    isBatchName e.1 = true ∧ Unfinished (perform o w c).2 e.1 ∧
      (o.creates e.1 ∧ c.ok = true ∨ ∃ given, w.encoding = some (e.1, given)) := by
  by_cases hcr : ∃ n, o.creates n ∧ c.ok = true
  · obtain ⟨name, hname, hok⟩ := hcr
    cases o with
    | createFile name =>
      obtain ⟨ts, seq, cs, rfl, -⟩ := h
      simp only [perform, hok, if_true] at he ⊢
      obtain rfl := Option.mem_some_iff.mp he
      refine ⟨isBatchName_batchName ts seq, fun f hf => ?_, .inl ⟨rfl, trivial⟩⟩
      simp only [Function.update_self] at hf
      obtain rfl := Option.mem_some_iff.mp hf
      exact ⟨[], .empty, 0, rfl, by decide⟩
    | _ => exact hname.elim
  · by_cases ho : o.encodes
    · cases o with
      | newEncoder =>
        obtain ⟨hn, hf⟩ := hu e he
        exact ⟨hn, hf, .inr ⟨e.2, he⟩⟩
      | copy src dst =>
        obtain ⟨ts, seq, cs, rfl, rfl, hcomp⟩ := h
        simp only [perform, hcomp.file] at he ⊢
        obtain rfl := Option.mem_some_iff.mp he
        refine ⟨isBatchName_batchName ts seq, fun f hf => ?_, .inr ⟨_, hcomp.encoder⟩⟩
        refine ⟨_, _, _, eq_of_overwrite hf, ?_⟩
        split_ifs <;> decide
      | finishEncoder dst =>
        obtain ⟨ts, seq, cs, rfl, hcomp⟩ := h
        simp only [perform, hcomp.encoder] at he ⊢
        split_ifs at he ⊢
        · exact absurd he (by simp)
        · obtain ⟨hn, hf⟩ := hu e he
          exact ⟨hn, hf, .inr ⟨e.2, hcomp.encoder.symm.trans he⟩⟩
      | _ => exact ho.elim
    · rw [encoding_of_not_encodes hcr ho] at he
      obtain ⟨hn, hf⟩ := hu e he
      refine ⟨hn, unfinished_of_files hf ?_, .inr ⟨e.2, he⟩⟩
      rcases h.batchFile hn c with hsame | ⟨hcreate, hok, -⟩ | ⟨hcomp, -⟩ | ⟨-, -, hnone⟩
      · exact .inl hsame
      · exact absurd ⟨e.1, hcreate, hok⟩ hcr
      · cases o with
        | copy | finishEncoder => exact absurd trivial ho
        | _ => exact hcomp.elim
      · exact .inr hnone

theorem isSome_of_compresses {β : Type} {o : SpoolOp β} {c : Choice} (h : o.compresses n)
    (hn : (w.dir n).isSome = true) : ((perform o w c).2.dir n).isSome = true := by
  have hover (f : File) : (w.dir.overwrite n f n).isSome = true := by
    rw [Dir.overwrite, if_pos hn, Function.update_self]
    rfl
  cases o with
  | copy src dst =>
    obtain rfl : dst = n := h
    rw [perform]
    split
    · exact hover _
    · exact hn
  | finishEncoder dst =>
    obtain rfl : dst = n := h
    rw [perform]
    split
    · split_ifs
      · exact hover _
      · exact hn
    · exact hn
  | _ => exact h.elim

/-- The step creates the batch file `n`. -/
def CreatesBatch (s : System) (l : Spool.Label) (n : String) : Prop :=
  ∃ c, l = .op c ∧ c.ok = true ∧ ∃ k, s.writer = some (.op (.createFile n) k)

/-- **What a step that is no deletion by the shipper does to a batch file**: nothing; or it creates
it; or it compresses into it; or it deletes it, to count it next. -/
theorem batchFile_of_step {s t : System} {l : Spool.Label} (hd : Disciplined T s)
    (hst : s.step cfg l = some t) (hl : ships l = false) (hn : isBatchName n = true) :
    t.spool.dir n = s.spool.dir n ∨
    (CreatesBatch s l n ∧ t.spool.dir n = some (.zst [] .empty 0)) ∨
    ((∃ given, s.spool.encoding = some (n, given)) ∧ Unfinished s.spool n ∧
      (t.spool.dir n).isSome = true) ∨
    ((∃ c, l = .op c) ∧ (∃ k, t.writer = some (.op .countEvicted k)) ∧ t.spool.dir n = none) := by
  rcases System.step_cases hst with ⟨x, rfl, hx, -⟩ | ⟨c, β, o, k, rfl, hw, -, rfl⟩ | ⟨-, -, rfl⟩
  · rcases SpoolState.other_cases hx with ⟨y, rfl, hy⟩ | ⟨_, _, _, hy⟩ | ⟨name, rfl, -, -⟩
    · rw [hy, SpoolState.trySubmit]
      split_ifs <;> exact .inl rfl
    · rw [hy]
      exact .inl rfl
    · cases hl
  · rcases (hd.sound_op hw).batchFile hn c with hsame | ⟨hcr, hok, hnew⟩ |
      ⟨hcomp, hgiven, hsome, hu⟩ | ⟨hrm, hasks, hnone⟩
    · exact .inl hsame
    · cases o with
      | createFile name =>
        obtain rfl : name = n := hcr
        exact .inr (.inl ⟨⟨c, rfl, hok, k, hw⟩, hnew⟩)
      | _ => exact hcr.elim
    · exact .inr (.inr (.inl ⟨hgiven, hu, isSome_of_compresses hcomp hsome⟩))
    · obtain ⟨k', hk'⟩ : ∃ k', resume cfg (k _) = .op .countEvicted k' :=
        hd.counted hw hrm hasks
      exact .inr (.inr (.inr ⟨⟨c, rfl⟩, ⟨k', congrArg some hk'⟩, hnone⟩))
  · exact .inl rfl

/-- Where the encoder comes from: the step before, or the creation of its file. -/
theorem encoder_of_step {s t : System} {l : Spool.Label} (hd : Disciplined T s)
    (hu : EncoderUnfinished s.spool) (hst : s.step cfg l = some t) {e : String × List Chunk}
    (he : e ∈ t.spool.encoding) : isBatchName e.1 = true ∧ Unfinished t.spool e.1 ∧
      (CreatesBatch s l e.1 ∨ ∃ given, s.spool.encoding = some (e.1, given)) := by
  rcases System.step_cases hst with ⟨y, rfl, hy, -⟩ | ⟨c, β, o, k, rfl, hw, -, rfl⟩ | ⟨-, -, rfl⟩
  · have hb := beside_of_other hy
    rw [hb.encoding] at he
    obtain ⟨hn, hf⟩ := hu e he
    exact ⟨hn, hf.beside hb, .inr ⟨e.2, he⟩⟩
  · obtain ⟨hn, hf, hfrom⟩ := encoder_perform (hd.sound_op hw) hu c he
    refine ⟨hn, hf, hfrom.imp_left ?_⟩
    rintro ⟨hcr, hok⟩
    cases o with
    | createFile name =>
      obtain rfl : name = e.1 := hcr
      exact ⟨c, rfl, hok, k, hw⟩
    | _ => exact hcr.elim
  · obtain ⟨hn, hf⟩ := hu e he
    exact ⟨hn, hf, .inr ⟨e.2, he⟩⟩

/-! ### The invariant -/

/-- The path the shipper is busy with. -/
def Phase.path? : Phase → Option Path
  | .idle => none
  | .picked p | .loaded p _ | .accepted p _ => some p

/-- The shipper carries the complete batch `p`, which decompresses to `body`. -/
def Phase.Carries (ph : Phase) (p : Path) (body : List UInt8) : Prop :=
  (∃ f, ph = .loaded p f ∧ Whole body f) ∨ ph = .accepted p body

theorem Phase.Carries.carried {ph : Phase} {p : Path} {body : List UInt8}
    (h : ph.Carries p body) : ph.carried = some p := by
  rcases h with ⟨f, rfl, hf⟩ | rfl
  · exact if_pos (isWhole_of_whole hf)
  · rfl

/-- What the shipper carries is in the directory, if anything of that name is. -/
structure Consistent (s : State) : Prop where
  disciplined : ∀ i, Disciplined .none (s.spools i)
  encoder : ∀ i, EncoderUnfinished (s.spools i).spool
  batch : ∀ p ∈ s.shipper.path?, isBatchName p.name = true
  carried : ∀ p body, s.shipper.Carries p body →
    ∀ f ∈ (s.spools p.dir).spool.dir p.name, Whole body f
  apart : ∀ p body, s.shipper.Carries p body →
    ∀ e ∈ (s.spools p.dir).spool.encoding, e.1 ≠ p.name

theorem consistent_start (dirs : ℕ → Dir) : Consistent (.start dirs) where
  disciplined i := disciplined_start .none False.elim
  encoder i e he := absurd he (by simp [State.start, System.start])
  batch p hp := absurd hp (by simp [State.start, Phase.path?])
  carried p body h := by
    rcases h with ⟨f, hf, -⟩ | hf <;> cases hf
  apart p body h := by
    rcases h with ⟨f, hf, -⟩ | hf <;> cases hf

variable {s t : State} {l : Label} {i : ℕ}

@[simp] theorem setSpool_spools_self (x : System) : (s.setSpool i x).spools i = x :=
  Function.update_self _ _ _

theorem setSpool_spools_of_ne {j : ℕ} (h : j ≠ i) (x : System) :
    (s.setSpool i x).spools j = s.spools j :=
  Function.update_of_ne h _ _

@[simp] theorem setSpool_shipper (x : System) : (s.setSpool i x).shipper = s.shipper := rfl

/-- A shipper that carries nothing new keeps the invariant. -/
theorem Consistent.of_shipper (h : Consistent s) {ph : Phase}
    (hbatch : ∀ p ∈ ph.path?, isBatchName p.name = true)
    (hcarries : ∀ p body, ph.Carries p body → s.shipper.Carries p body) :
    Consistent { s with shipper := ph } where
  disciplined := h.disciplined
  encoder := h.encoder
  batch := hbatch
  carried p body hc := h.carried p body (hcarries p body hc)
  apart p body hc := h.apart p body (hcarries p body hc)

theorem Consistent.idle (h : Consistent s) : Consistent { s with shipper := .idle } := by
  refine h.of_shipper (fun p hp => absurd hp (by simp [Phase.path?])) fun p body hc => ?_
  rcases hc with ⟨f, hf, -⟩ | hf <;> cases hf

/-- One spool moves, and the shipper stays where it is. -/
theorem Consistent.setSpool (h : Consistent s) {x : System} (hd : Disciplined .none x)
    (he : EncoderUnfinished x.spool)
    (hc : ∀ n body, s.shipper.Carries ⟨n, i⟩ body → (∀ f ∈ x.spool.dir n, Whole body f) ∧
      ∀ e ∈ x.spool.encoding, e.1 ≠ n) : Consistent (s.setSpool i x) where
  disciplined j := by
    by_cases hj : j = i
    · rw [hj, setSpool_spools_self]
      exact hd
    · rw [setSpool_spools_of_ne hj]
      exact h.disciplined j
  encoder j := by
    by_cases hj : j = i
    · rw [hj, setSpool_spools_self]
      exact he
    · rw [setSpool_spools_of_ne hj]
      exact h.encoder j
  batch := h.batch
  carried p body hp := by
    obtain ⟨n, j⟩ := p
    by_cases hj : j = i
    · subst hj
      rw [setSpool_spools_self]
      exact (hc n body hp).1
    · rw [setSpool_spools_of_ne hj]
      exact h.carried _ body hp
  apart p body hp := by
    obtain ⟨n, j⟩ := p
    by_cases hj : j = i
    · subst hj
      rw [setSpool_spools_self]
      exact (hc n body hp).2
    · rw [setSpool_spools_of_ne hj]
      exact h.apart _ body hp

/-- The creation of a batch, within the condition. -/
theorem apart_of_create {l : Spool.Label} {n : String} (h : NamesApart s (.spool i l))
    (hcr : CreatesBatch (s.spools i) l n) :
    (∀ f ∈ (s.spools i).spool.dir n, isWhole f = false) ∧
      ∀ body, ¬ s.shipper.Carries ⟨n, i⟩ body := by
  obtain ⟨c, rfl, hok, k, hw⟩ := hcr
  obtain ⟨hdir, hcarried⟩ := (onOp_op hw).mp h hok
  exact ⟨hdir, fun body hc => hcarried hc.carried⟩

theorem Consistent.spool (h : Consistent s) {l : Spool.Label} {x : System}
    (hl : ships l = false) (ha : NamesApart s (.spool i l))
    (hx : (s.spools i).step (cfgs i) l = some x) : Consistent (s.setSpool i x) := by
  have hd := h.disciplined i
  have hdx : Disciplined .none x := hd.step (stepGranted_none _ _) hx
  have hux : EncoderUnfinished x.spool := fun e he =>
    have henc := encoder_of_step hd (h.encoder i) hx he
    ⟨henc.1, henc.2.1⟩
  refine h.setSpool hdx hux fun n body hc => ⟨fun f hf => ?_, ?_⟩
  · have hn : isBatchName n = true := h.batch ⟨n, i⟩ (by
      rcases hc with ⟨g, hg, -⟩ | hg <;> rw [hg] <;> rfl)
    rcases batchFile_of_step hd hx hl hn with hsame | ⟨hcr, -⟩ | ⟨⟨given, hgiven⟩, -⟩ |
      ⟨-, -, hnone⟩
    · exact h.carried _ body hc f (hsame ▸ hf)
    · exact absurd hc ((apart_of_create ha hcr).2 body)
    · exact absurd rfl (h.apart _ body hc _ hgiven)
    · simp [hnone] at hf
  · rintro e he rfl
    obtain ⟨-, -, hcr | ⟨given, hgiven⟩⟩ := encoder_of_step hd (h.encoder i) hx he
    · exact (apart_of_create ha hcr).2 body hc
    · exact h.apart _ body hc _ hgiven rfl

/-- The steps of the shipper that leave the directories alone. -/
inductive Moves (s : State) : Label → Phase → Prop
  | rest {l : Label} : Moves s l .idle
  | pick {listing : List (Option (List String))} {p : Path} (hp : oldestBatch listing = some p) :
      Moves s (.pick listing) (.picked p)
  | read {p : Path} {f : File} (hs : s.shipper = .picked p)
      (hf : (s.spools p.dir).spool.dir p.name = some f) : Moves s (.read true) (.loaded p f)
  | post {p : Path} {f : File} {decoded : Option (List UInt8)} {answer : Answer}
      (hs : s.shipper = .loaded p f) (hd : decodesTo f decoded = true)
      (ha : accepts decoded answer = true) :
      Moves s (.post decoded answer) (.accepted p (decoded.getD []))

/-- All that a step can be. -/
theorem State.step_cases (h : s.step cfgs l = some t) :
    (∃ i l' x, l = .spool i l' ∧ ships l' = false ∧ (s.spools i).step (cfgs i) l' = some x ∧
      t = s.setSpool i x) ∨
    (∃ p body x, s.shipper = .accepted p body ∧
      (s.spools p.dir).step (cfgs p.dir) (.other (.ship p.name)) = some x ∧
      t = { s.setSpool p.dir x with shipper := .idle }) ∨
    ∃ ph, Moves s l ph ∧ t = { s with shipper := ph } := by
  obtain ⟨spools, shipper⟩ := s
  cases l with
  | spool i l' =>
    simp only [State.step] at h
    split_ifs at h with hl
    obtain ⟨x, hx, rfl⟩ := Option.map_eq_some_iff.mp h
    exact .inl ⟨i, l', x, rfl, by simpa using hl, hx, rfl⟩
  | pick listing =>
    cases shipper with
    | idle =>
      obtain rfl := Option.some.inj h
      cases hp : oldestBatch listing with
      | none => exact .inr (.inr ⟨_, .rest, rfl⟩)
      | some p => exact .inr (.inr ⟨_, .pick hp, rfl⟩)
    | _ => cases h
  | read ok =>
    cases shipper with
    | picked p =>
      simp only [State.step] at h
      cases hf : (spools p.dir).spool.dir p.name with
      | none =>
        rw [hf] at h
        obtain rfl := Option.some.inj h
        exact .inr (.inr ⟨_, .rest, rfl⟩)
      | some f =>
        rw [hf] at h
        obtain rfl := Option.some.inj h
        cases ok with
        | false => exact .inr (.inr ⟨_, .rest, rfl⟩)
        | true => exact .inr (.inr ⟨_, .read rfl hf, rfl⟩)
    | _ => cases h
  | post decoded answer =>
    cases shipper with
    | loaded p f =>
      simp only [State.step] at h
      split_ifs at h with hd ha
      · obtain rfl := Option.some.inj h
        exact .inr (.inr ⟨_, .post rfl hd ha, rfl⟩)
      · obtain rfl := Option.some.inj h
        exact .inr (.inr ⟨_, .rest, rfl⟩)
    | _ => cases h
  | remove ok =>
    cases shipper with
    | accepted p body =>
      simp only [State.step] at h
      split_ifs at h
      · cases hx : (spools p.dir).step (cfgs p.dir) (.other (.ship p.name)) with
        | none =>
          rw [hx] at h
          obtain rfl := Option.some.inj h
          exact .inr (.inr ⟨_, .rest, rfl⟩)
        | some x =>
          rw [hx] at h
          obtain rfl := Option.some.inj h
          exact .inr (.inl ⟨p, body, x, rfl, hx, rfl⟩)
      · obtain rfl := Option.some.inj h
        exact .inr (.inr ⟨_, .rest, rfl⟩)
    | _ => cases h

/-- A deletion by the shipper takes away the file of that name and nothing else. -/
theorem dir_of_ship {x y : System} {name : String}
    (h : x.step cfg (.other (.ship name)) = some y) : y.spool.dir = Function.update x.spool.dir
      name none := by
  obtain ⟨w, hw, rfl⟩ := Option.map_eq_some_iff.mp h
  simp only [SpoolState.other] at hw
  split at hw
  · split_ifs at hw
    obtain rfl := Option.some.inj hw
    rfl
  · cases hw

theorem isBatchName_of_oldestBatch {listing : List (Option (List String))} {p : Path}
    (h : oldestBatch listing = some p) : isBatchName p.name = true :=
  (mem_batchesFrom_iff.mp (oldestBatch_eq_some h).1).2.1

/-- The body of a POST that is accepted is the content of the file. -/
theorem whole_of_accepted {p : Path} {f : File} {decoded : Option (List UInt8)} {answer : Answer}
    (hp : PrefixRefused s (.post decoded answer)) (hs : s.shipper = .loaded p f)
    (hd : decodesTo f decoded = true) (ha : accepts decoded answer = true) :
    Whole (decoded.getD []) f := by
  have hwhole : isWhole f = true := by
    simp only [PrefixRefused, hs, ha] at hp
    exact hp.resolve_right (by simp)
  obtain ⟨body, cs, size, rfl, hbody⟩ := whole_of_isWhole hwhole
  obtain rfl : decoded = some (contentBytes cs) := by simpa [decodesTo] using hd
  exact ⟨cs, size, rfl, rfl⟩

theorem Moves.batch {ph : Phase} (hm : Moves s l ph)
    (h : ∀ p ∈ s.shipper.path?, isBatchName p.name = true) :
    ∀ p ∈ ph.path?, isBatchName p.name = true := by
  intro q hq
  cases hm with
  | rest => exact absurd hq (by simp [Phase.path?])
  | pick hp =>
    obtain rfl := Option.mem_some_iff.mp hq
    exact isBatchName_of_oldestBatch hp
  | read hs _ | post hs _ _ =>
    obtain rfl := Option.mem_some_iff.mp hq
    exact h _ (by rw [hs]; rfl)

/-- The shipper moves. -/
theorem Consistent.moves (h : Consistent s) {ph : Phase} (hp : PrefixRefused s l)
    (hm : Moves s l ph) : Consistent { s with shipper := ph } := by
  have hbatch := hm.batch h.batch
  cases hm with
  | rest => exact h.idle
  | pick hpick =>
    refine h.of_shipper hbatch fun q body hc => ?_
    rcases hc with ⟨f, hf, -⟩ | hf <;> cases hf
  | @read p f hs hf =>
    have hcarries : ∀ q body, (Phase.loaded p f).Carries q body → q = p ∧ Whole body f := by
      rintro q body (⟨g, hg, hw⟩ | hg) <;> cases hg
      exact ⟨rfl, hw⟩
    refine ⟨h.disciplined, h.encoder, hbatch, fun q body hc g hg => ?_,
      fun q body hc e he heq => ?_⟩
    · obtain ⟨rfl, hw⟩ := hcarries q body hc
      obtain rfl : f = g := Option.some.inj (hf.symm.trans hg)
      exact hw
    · -- the file of the encoder is unfinished, and this one is not
      obtain ⟨rfl, hw⟩ := hcarries q body hc
      have hu := (h.encoder q.dir e he).2
      rw [heq] at hu
      exact absurd ((isWhole_of_unfinished hu hf).symm.trans (isWhole_of_whole hw)) (by decide)
  | @post p f decoded answer hs hd ha =>
    refine h.of_shipper hbatch fun q body hc => ?_
    rcases hc with ⟨g, hg, -⟩ | hg <;> cases hg
    exact .inl ⟨f, hs, whole_of_accepted hp hs hd ha⟩

/-- **The step lemma.** -/
theorem Consistent.step (h : Consistent s) (hp : PrefixRefused s l) (ha : NamesApart s l)
    (hst : s.step cfgs l = some t) : Consistent t := by
  rcases State.step_cases hst with ⟨i, l', x, rfl, hl, hx, rfl⟩ | ⟨p, body, x, hs, hx, rfl⟩ |
    ⟨ph, hm, rfl⟩
  · exact h.spool hl ha hx
  · have hb : Beside (s.spools p.dir).spool x.spool := by
      obtain ⟨w, hw, rfl⟩ := Option.map_eq_some_iff.mp hx
      exact beside_of_other hw
    refine h.idle.setSpool ((h.disciplined p.dir).step (stepGranted_none _ _) hx) ?_ ?_
    · intro e he
      obtain ⟨hn, hu⟩ := h.encoder p.dir e (hb.encoding ▸ he)
      exact ⟨hn, hu.beside hb⟩
    · rintro n body (⟨f, hf, -⟩ | hf) <;> cases hf
  · exact h.moves hp hm

/-! ### Batches are kept -/

theorem keepsBatches_of_consistent (h : Consistent s) (ha : NamesApart s l) :
    KeepsBatches cfgs s l := by
  intro t hst i n f hn hf
  rcases State.step_cases hst with ⟨j, l', x, rfl, hl, hx, rfl⟩ | ⟨p, body, x, hs, hx, rfl⟩ |
    ⟨ph, -, rfl⟩
  · by_cases hj : i = j
    · subst hj
      rw [setSpool_spools_self]
      rcases batchFile_of_step (h.disciplined i) hx hl hn with hsame | ⟨hcr, hnew⟩ |
        ⟨-, hu, hsome⟩ | ⟨⟨c, rfl⟩, hcount, -⟩
      · exact .inl (.inl (hsame.trans hf))
      · have hpart := (apart_of_create ha hcr).1 f hf
        exact .inl (kept_of_not_isWhole hpart (by rw [hnew]; rfl))
      · exact .inl (kept_of_not_isWhole (isWhole_of_unfinished hu hf) hsome)
      · exact .inr (.inr ⟨⟨c, rfl⟩, hcount⟩)
    · rw [setSpool_spools_of_ne hj]
      exact .inl (.inl hf)
  · by_cases hp : p = ⟨n, i⟩
    · subst hp
      exact .inr (.inl ⟨body, hs, h.carried _ body (.inr hs) f hf⟩)
    · refine .inl (.inl ?_)
      show ((s.setSpool p.dir x).spools i).spool.dir n = some f
      by_cases hj : i = p.dir
      · subst hj
        have hne : n ≠ p.name := by
          rintro rfl
          exact hp rfl
        rw [setSpool_spools_self, dir_of_ship hx, Function.update_of_ne hne]
        exact hf
      · rw [setSpool_spools_of_ne hj]
        exact hf
  · exact .inl (.inl hf)

/-- **No batch vanishes unacknowledged**, in every run that creates no batch under the name of a
complete batch that is in the directory or on its way to the server. -/
theorem keepsBatches_of_along (cfgs : ℕ → SpoolConfig) (dirs : ℕ → Dir) (ls : List Label)
    (hp : Along (State.step cfgs) PrefixRefused (.start dirs) ls)
    (ha : Along (State.step cfgs) NamesApart (.start dirs) ls) :
    Along (State.step cfgs) (KeepsBatches cfgs) (.start dirs) ls :=
  Along.of_invariant (I := Consistent) (fun _ _ _ h hl hst => h.step hl.1 hl.2 hst)
    (fun _ _ h hl => keepsBatches_of_consistent h hl.2) (consistent_start dirs) (hp.and ha)

/-! ### Directories without batches at the start -/

/-- Every complete batch was sealed in this run. -/
structure Recorded (s : State) : Prop where
  disciplined : ∀ i, Disciplined .none (s.spools i)
  files : ∀ i n f, isBatchName n = true → (s.spools i).spool.dir n = some f →
    isWhole f = true → n ∈ (s.spools i).spool.names
  batch : ∀ p ∈ s.shipper.path?, isBatchName p.name = true
  carried : ∀ p ∈ s.shipper.carried, p.name ∈ (s.spools p.dir).spool.names

theorem names_perform {β : Type} (o : SpoolOp β) (c : Choice) (hn : n ∈ w.names) :
    n ∈ (perform o w c).2.names := by
  rcases perform_batches (f := Batch.name) (fun _ _ => rfl) o w c with ⟨-, h⟩ |
    ⟨m, e, -, -, -, h⟩
  · rw [SpoolState.names, h]
    exact hn
  · rw [SpoolState.names, h, List.map_append]
    exact List.mem_append_left _ hn

/-- A batch becomes complete when it is recorded. -/
theorem recorded_perform {β : Type} {o : SpoolOp β} (h : Sound T o w)
    (hn : isBatchName n = true) (c : Choice) {f : File}
    (hf : (perform o w c).2.dir n = some f) (hw : isWhole f = true) :
    w.dir n = some f ∨ n ∈ (perform o w c).2.names := by
  rcases h.batchFile hn c with hsame | ⟨-, -, hnew⟩ | ⟨hcomp, -⟩ | ⟨-, -, hnone⟩
  · exact .inl (hsame.symm.trans hf)
  · obtain rfl := Option.some.inj (hnew.symm.trans hf)
    cases hw
  · cases o with
    | copy src dst =>
      obtain ⟨ts, seq, cs, rfl, rfl, hcompressing⟩ := h
      obtain rfl : batchName ts seq = n := hcomp
      simp only [perform, hcompressing.file] at hf
      rw [eq_of_overwrite hf] at hw
      split_ifs at hw <;> cases hw
    | finishEncoder dst =>
      obtain ⟨ts, seq, cs, rfl, hcompressing⟩ := h
      obtain rfl : batchName ts seq = n := hcomp
      simp only [perform, hcompressing.encoder] at hf ⊢
      split_ifs at hf ⊢
      · exact .inr (by simp [SpoolState.names])
      · exact .inl hf
    | _ => exact hcomp.elim
  · simp [hnone] at hf

theorem recorded_of_step {x y : System} {l : Spool.Label} (hd : Disciplined T x)
    (hst : x.step cfg l = some y) : (∀ n ∈ x.spool.names, n ∈ y.spool.names) ∧
      ∀ n f, isBatchName n = true → y.spool.dir n = some f → isWhole f = true →
        x.spool.dir n = some f ∨ n ∈ y.spool.names := by
  rcases System.step_cases hst with ⟨z, rfl, hz, -⟩ | ⟨c, β, o, k, rfl, hw, -, rfl⟩ | ⟨-, -, rfl⟩
  · have hb := beside_of_other hz
    refine ⟨fun n hn => hb.names ▸ hn, fun n f _ hf _ => .inl ?_⟩
    rcases hb.shipped n with hsame | hnone
    · exact hsame.symm.trans hf
    · simp [hnone] at hf
  · exact ⟨fun n hn => names_perform o c hn, fun n f hn hf hwhole =>
      recorded_perform (hd.sound_op hw) hn c hf hwhole⟩
  · exact ⟨fun _ => id, fun n f _ hf _ => .inl hf⟩

theorem Recorded.setSpool (h : Recorded s) {x : System} {l : Spool.Label}
    (hx : (s.spools i).step cfg l = some x) : Recorded (s.setSpool i x) := by
  obtain ⟨hnames, hfiles⟩ := recorded_of_step (h.disciplined i) hx
  refine ⟨fun j => ?_, fun j n f hn hf hw => ?_, h.batch, fun p hp => ?_⟩
  · by_cases hj : j = i
    · subst hj
      rw [setSpool_spools_self]
      exact (h.disciplined j).step (stepGranted_none _ _) hx
    · rw [setSpool_spools_of_ne hj]
      exact h.disciplined j
  · by_cases hj : j = i
    · subst hj
      rw [setSpool_spools_self] at hf ⊢
      rcases hfiles n f hn hf hw with hold | hnew
      · exact hnames n (h.files j n f hn hold hw)
      · exact hnew
    · rw [setSpool_spools_of_ne hj] at hf ⊢
      exact h.files j n f hn hf hw
  · have hmem := h.carried p hp
    by_cases hj : p.dir = i
    · rw [← hj, setSpool_spools_self]
      exact hnames _ (hj ▸ hmem)
    · rw [setSpool_spools_of_ne hj]
      exact hmem

theorem Recorded.step (h : Recorded s) (hp : PrefixRefused s l) (hst : s.step cfgs l = some t) :
    Recorded t := by
  rcases State.step_cases hst with ⟨i, l', x, rfl, -, hx, rfl⟩ | ⟨p, body, x, -, hx, rfl⟩ |
    ⟨ph, hm, rfl⟩
  · exact h.setSpool hx
  · have hset := h.setSpool hx
    exact ⟨hset.disciplined, hset.files, fun q hq => absurd hq (by simp [Phase.path?]),
      fun q hq => absurd hq (by simp [Phase.carried])⟩
  · refine ⟨h.disciplined, h.files, hm.batch h.batch, fun q hq => ?_⟩
    have hbatch := hm.batch h.batch
    cases hm with
    | rest | pick _ => exact absurd hq (by simp [Phase.carried])
    | @read p f hs hf =>
      simp only [Phase.carried] at hq
      split_ifs at hq with hw
      · obtain rfl := Option.mem_some_iff.mp hq
        exact h.files p.dir p.name f (hbatch p rfl) hf hw
      · exact absurd hq (by simp)
    | @post p f decoded answer hs hd ha =>
      obtain rfl := Option.mem_some_iff.mp hq
      have hw := whole_of_accepted hp hs hd ha
      exact h.carried p (by rw [hs]; exact if_pos (isWhole_of_whole hw))

theorem namesApart_of_recorded (h : Recorded s) : NamesApart s l := by
  cases l with
  | spool i l =>
    refine onOp_intro fun o k c _ hw => ?_
    cases o with
    | createFile name =>
      intro _
      obtain ⟨ts, seq, cs, rfl, hstage⟩ := (h.disciplined i).sound_op hw
      -- the number is not in use
      have hnew : batchName ts seq ∉ (s.spools i).spool.names := fun hmem =>
        (hstage.numbered.batches _ hmem).ne rfl
      refine ⟨fun f hf => Bool.eq_false_iff.mpr fun hwhole => ?_, fun hc => ?_⟩
      · exact hnew (h.files i _ f (isBatchName_batchName ts seq) hf hwhole)
      · exact hnew (h.carried ⟨batchName ts seq, i⟩ hc)
    | _ => trivial
  | _ => trivial

/-- **Within one run names are not used twice**: the condition holds along every run from
directories without complete batches. -/
theorem apart_of_clean {dirs : ℕ → Dir} {ls : List Label}
    (hclean : ∀ i n f, isBatchName n = true → dirs i n = some f → isWhole f = false)
    (hp : Along (State.step cfgs) PrefixRefused (.start dirs) ls) :
    Along (State.step cfgs) NamesApart (.start dirs) ls := by
  refine Along.of_invariant (I := Recorded) (fun _ _ _ h hl hst => h.step hl hst)
    (fun _ _ h _ => namesApart_of_recorded h) ?_ hp
  refine ⟨fun i => disciplined_start .none False.elim, fun i n f hn hf hw => ?_,
    fun p hp => absurd hp (by simp [State.start, Phase.path?]),
    fun p hp => absurd hp (by simp [State.start, Phase.carried])⟩
  exact absurd ((hclean i n f hn hf).symm.trans hw) (by decide)

/-! ### Concrete runs -/

instance (s : State) (l : Label) : Decidable (PrefixRefused s l) := by
  induction l using Label.casesOn with
  | post decoded answer =>
    obtain ⟨spools, shipper⟩ := s
    induction shipper using Phase.casesOn <;> unfold PrefixRefused <;> infer_instance
  | _ => exact isTrue trivial

instance (carried : Option Path) (i : ℕ) {β : Type} (o : SpoolOp β) (w : SpoolState) (c : Choice) :
    Decidable (createsApart carried i o w c) := by
  induction o using SpoolOp.casesOn <;> unfold createsApart <;> infer_instance

instance (s : State) (l : Label) : Decidable (NamesApart s l) := by
  induction l using Label.casesOn with
  | spool i l => exact decidableOnOp (s.spools i) l
  | _ => exact isTrue trivial

/-- One spool, in a directory with these files. -/
def oneSpool (dir : Dir) (i : ℕ) : Dir := if i = 0 then dir else fun _ => none

/-- The shipper sends the batch of this name. -/
def shipping (name : String) (cs : List Chunk) : List Label :=
  [.pick [some [name]], .read true, .post (some (contentBytes cs)) (.response 200), .remove true]

/-- A batch is sealed and sent. -/
def sealedAndSent : List Label :=
  (settingUp ++ sealAt 1700000000).map (.spool 0) ++
    shipping (batchName 1700000000 0) [.whole emptyEvent]

theorem sealedAndSent_keeps :
    (run (State.step fun _ => smallSpool) (.start (oneSpool fun _ => none)) sealedAndSent).map
      (fun s => (s.spools 0).spool.dir (batchName 1700000000 0)) = some none ∧
    Along (State.step fun _ => smallSpool) (KeepsBatches fun _ => smallSpool)
      (.start (oneSpool fun _ => none)) sealedAndSent :=
  ⟨by decide +kernel, keepsBatches_of_along (fun _ => smallSpool) (oneSpool fun _ => none)
    sealedAndSent (by decide +kernel) (by decide +kernel)⟩

/-- The line `[]`. -/
def emptyList : NdjsonLine := ⟨[91, 93, 10], rfl⟩

/-- The directory has a batch with this line, from the second in which the next one is sealed. -/
def leftover : Dir := fun n =>
  if n = batchName 1700000000 0 then some (.zst [.whole emptyList] .whole 20) else none

/-- The leftover is read; a batch is sealed under its name; the server accepts the leftover. -/
def leftoverSent : List Label :=
  settingUp.map (.spool 0) ++ [.pick [some [batchName 1700000000 0]], .read true] ++
    (sealAt 1700000000).map (.spool 0) ++ [.post (some (contentBytes [.whole emptyList]))
      (.response 200)]

/-- **The new batch is deleted**: what the server has accepted is the old one, and nothing was
evicted. -/
theorem leftover_deletes : ∃ s t,
    run (State.step fun _ => smallSpool) (.start (oneSpool leftover)) leftoverSent = some s ∧
      s.step (fun _ => smallSpool) (.remove true) = some t ∧
      s.shipper = .accepted ⟨batchName 1700000000 0, 0⟩ emptyList.bytes ∧
      (s.spools 0).spool.dir (batchName 1700000000 0) =
        some (.zst [.whole emptyEvent] .whole 0) ∧
      (t.spools 0).spool.dir (batchName 1700000000 0) = none ∧
      (t.spools 0).spool.stats.batchesEvicted = 0 ∧
      Along (State.step fun _ => smallSpool) PrefixRefused (.start (oneSpool leftover))
        (leftoverSent ++ [.remove true]) ∧
      ¬ Along (State.step fun _ => smallSpool) (KeepsBatches fun _ => smallSpool)
        (.start (oneSpool leftover)) (leftoverSent ++ [.remove true]) := by
  have hrun : (run (State.step fun _ => smallSpool) (.start (oneSpool leftover))
      leftoverSent).map (fun s => (s.shipper, (s.spools 0).spool.dir (batchName 1700000000 0),
        (s.step (fun _ => smallSpool) (.remove true)).map fun t =>
          ((t.spools 0).spool.dir (batchName 1700000000 0),
            (t.spools 0).spool.stats.batchesEvicted))) =
      some (.accepted ⟨batchName 1700000000 0, 0⟩ emptyList.bytes,
        some (.zst [.whole emptyEvent] .whole 0), some (none, 0)) := by
    decide +kernel
  obtain ⟨s, hs, hstate⟩ := Option.map_eq_some_iff.mp hrun
  simp only [Prod.mk.injEq] at hstate
  obtain ⟨hshipper, hbefore, hafter⟩ := hstate
  obtain ⟨t, ht, hgone⟩ := Option.map_eq_some_iff.mp hafter
  simp only [Prod.mk.injEq] at hgone
  refine ⟨s, t, hs, ht, hshipper, hbefore, hgone.1, hgone.2, by decide +kernel, fun ha => ?_⟩
  have hkeeps := (along_iff_forall_split (run_snoc_iff.mpr ⟨s, hs, ht⟩)).mp ha
    leftoverSent (.remove true) [] s rfl hs
  rcases hkeeps t ht 0 _ _ (isBatchName_batchName _ _) hbefore with
    (hsame | ⟨-, hsome⟩) | ⟨body, hbody, cs, size, hf, hcontent⟩ | ⟨⟨c, hl⟩, -⟩
  · rw [hgone.1] at hsame
    cases hsame
  · rw [hgone.1] at hsome
    cases hsome
  · rw [hshipper] at hbody
    injection hbody with _ hbody
    injection hf with hcs
    rw [← hbody, ← hcs] at hcontent
    exact absurd hcontent (by decide)
  · cases hl

end Pipeline

end WazabiAgent
