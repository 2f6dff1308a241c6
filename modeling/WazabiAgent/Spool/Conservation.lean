import WazabiAgent.Spool.Ledger

/-!
# No line of the spool is lost uncounted, as long as sealing works

The writer counts a line that it cannot write, and a producer counts a line that finds no room.
What is not counted are the lines of a file whose sealing fails half way, after they were counted
as written, and the lines that are in the channel when the thread returns from a failed setup.

This file proves `Accounted` along every run in which neither happens, whatever else fails, and
gives a run with a single failed rename in which the line is gone.

## Main results

* `Spool.wp_iteration`, `wp_setup` — what the thread preserves
* `Spool.accounted_of_along` — the ledger is balanced in every state, and settled at the end
* `Spool.lost_by_failed_rename` — the shortest failing run
-/

namespace WazabiAgent

namespace Spool

open LabelledStep Prog

/-! ### The condition on a step -/

/-- The operations of `seal_active_file` whose failure ends it early. -/
def SpoolOp.seals {β : Type} : SpoolOp β → Bool
  | .flush | .rename _ | .openFile _ | .createFile _ | .newEncoder | .copy _ _
  | .finishEncoder _ => true
  | _ => false

/-- A sealing operation succeeds, unless there is no line to lose. -/
def OpOk {β : Type} (o : SpoolOp β) (w : SpoolState) (c : Choice) : Prop :=
  o.seals = true → c.ok = true ∨ w.unsealed = []

/-- The condition: sealing operations succeed, the channel is empty when the thread returns, and
the shipper does not delete the file that is under the encoder. -/
def StepOk (s : System) : Label → Prop
  | .op c =>
    match s.writer with
    | some (.op o _) => OpOk o s.spool c
    | _ => True
  | .exit => s.spool.queue = []
  | .other l => OtherOk s.spool l

instance {β : Type} (o : SpoolOp β) (w : SpoolState) (c : Choice) : Decidable (OpOk o w c) := by
  unfold OpOk
  infer_instance

instance (w : SpoolState) (l : Other) : Decidable (OtherOk w l) := by
  unfold OtherOk
  split <;> infer_instance

instance (s : System) (l : Label) : Decidable (StepOk s l) := by
  unfold StepOk
  split
  · split <;> infer_instance
  · infer_instance
  · infer_instance

/-! ### What holds between two operations -/

/-- The ledger is in order, the thread holds `hand`, and the file not yet sealed is `file`, or
has no line. -/
structure Stands (w : SpoolState) (hand : Option NdjsonLine) (lag ev : ℕ)
    (file : Option (String × List Chunk)) : Prop where
  ledger : Ledger w lag ev
  hand_eq : w.hand = hand
  filed : ∀ f ∈ file, w.current = some f.1 ∧ w.dir f.1 = some (.ndjson f.2)
  unfiled : file = none → w.unsealed = []

variable {cfg : SpoolConfig} {w w' : SpoolState} {hand : Option NdjsonLine} {lag ev : ℕ}
  {file : Option (String × List Chunk)} {n : String} {cs : List Chunk}

theorem stands_none (hl : Ledger w lag ev) (hh : w.hand = hand) (hun : w.unsealed = []) :
    Stands w hand lag ev none :=
  ⟨hl, hh, by simp, fun _ => hun⟩

theorem stands_some (hl : Ledger w lag ev) (hh : w.hand = hand) (hc : w.current = some n)
    (hd : w.dir n = some (.ndjson cs)) : Stands w hand lag ev (some (n, cs)) := by
  refine ⟨hl, hh, fun f hf => ?_, by simp⟩
  obtain rfl := Option.mem_some_iff.mp hf
  exact ⟨hc, hd⟩

theorem Stands.current_eq (h : Stands w hand lag ev (some (n, cs))) : w.current = some n :=
  (h.filed (n, cs) rfl).1

theorem Stands.dir_eq (h : Stands w hand lag ev (some (n, cs))) :
    w.dir n = some (.ndjson cs) :=
  (h.filed (n, cs) rfl).2

theorem Undisturbed.unsealed (hu : Undisturbed w w') (h : Ledger w lag ev) :
    w'.unsealed = w.unsealed := by
  rw [SpoolState.unsealed, SpoolState.unsealed, hu.current]
  cases hc : w.current with
  | none => rfl
  | some n => simp [hu.files n (h.plain n hc)]

theorem Stands.undisturbed (h : Stands w hand lag ev file) (hu : Undisturbed w w') :
    Stands w' hand lag ev file where
  ledger := hu.ledger lag ev h.ledger
  hand_eq := hu.hand.trans h.hand_eq
  filed := by
    intro f hf
    obtain ⟨hc, hd⟩ := h.filed f hf
    exact ⟨hu.current.trans hc, (hu.files f.1 (h.ledger.plain f.1 hc)).trans hd⟩
  unfiled := fun hf => (hu.unsealed h.ledger).trans (h.unfiled hf)

theorem Stands.unsealed_eq (h : Stands w hand lag ev (some (n, cs))) :
    w.unsealed = wholeLines cs :=
  unsealed_of_current h.current_eq h.dir_eq

/-- While there is a line to lose, an allowed sealing operation succeeds. -/
theorem Stands.ok_of_seals (h : Stands w hand lag ev (some (n, cs))) (hcs : wholeLines cs ≠ [])
    {β : Type} {o : SpoolOp β} {c : Choice} (ho : OpOk o w c) (hs : o.seals = true) :
    c.ok = true := by
  rcases ho hs with hok | hun
  · exact hok
  · exact absurd (h.unsealed_eq.symm.trans hun) hcs

/-- What the environment may choose. -/
def Allowable {β : Type} (o : SpoolOp β) (w : SpoolState) (c : Choice) : Prop :=
  o.enabled w = true ∧ OpOk o w c

/-- The precondition of a part of the thread, beside the others and with the ledger balanced
before every operation. -/
abbrev safe {α : Type} (p : Prog SpoolOp α) (Q : α → SpoolState → Prop) (w : SpoolState) : Prop :=
  wp perform Allowable Undisturbed Accounted p Q w

/-- One operation, from a state that stands. -/
theorem safe_op {α β : Type} {o : SpoolOp β} {k : β → Prog SpoolOp α}
    {Q : α → SpoolState → Prop} (h : Stands w hand lag ev file)
    (hk : ∀ v c, Stands v hand lag ev file → Allowable o v c →
      safe (k (perform o v c).1) Q (perform o v c).2) : safe (.op o k) Q w :=
  wp_op_of_stable h (fun _ _ hv hu => hv.undisturbed hu) (fun _ hv => hv.ledger.toAccounted) hk

/-! ### Sealing -/

/-- The state of a sealing that has taken its number. -/
structure Sealing (w : SpoolState) (n : String) (cs : List Chunk) (ts seq : ℕ) : Prop
    extends Stands w none 0 0 (some (n, cs)) where
  number : seq < w.stats.batchesSealed
  fresh : batchName ts seq ∉ w.batches.map Batch.name

/-- The state of a sealing whose batch file exists, with what the encoder has been given. -/
structure Encoding (w : SpoolState) (n : String) (cs : List Chunk) (ts seq : ℕ)
    (given : List Chunk) : Prop extends Sealing w n cs ts seq where
  encoder : w.encoding = some (batchName ts seq, given)
  created : (w.dir (batchName ts seq)).isSome

variable {ts seq : ℕ} {given : List Chunk}

theorem Sealing.undisturbed (h : Sealing w n cs ts seq) (hu : Undisturbed w w') :
    Sealing w' n cs ts seq where
  toStands := h.toStands.undisturbed hu
  number := hu.numbers ▸ h.number
  fresh := hu.names ▸ h.fresh

theorem Encoding.undisturbed (h : Encoding w n cs ts seq given) (hu : Undisturbed w w') :
    Encoding w' n cs ts seq given where
  toSealing := h.toSealing.undisturbed hu
  encoder := hu.encoding.trans h.encoder
  created := by
    rw [hu.encoder (batchName ts seq, given) h.encoder]
    exact h.created

theorem sealing_op {α β : Type} {o : SpoolOp β} {k : β → Prog SpoolOp α}
    {Q : α → SpoolState → Prop} (h : Sealing w n cs ts seq)
    (hk : ∀ v c, Sealing v n cs ts seq → Allowable o v c →
      safe (k (perform o v c).1) Q (perform o v c).2) : safe (.op o k) Q w :=
  wp_op_of_stable h (fun _ _ hv hu => hv.undisturbed hu) (fun _ hv => hv.ledger.toAccounted) hk

theorem encoding_op {α β : Type} {o : SpoolOp β} {k : β → Prog SpoolOp α}
    {Q : α → SpoolState → Prop} (h : Encoding w n cs ts seq given)
    (hk : ∀ v c, Encoding v n cs ts seq given → Allowable o v c →
      safe (k (perform o v c).1) Q (perform o v c).2) : safe (.op o k) Q w :=
  wp_op_of_stable h (fun _ _ hv hu => hv.undisturbed hu) (fun _ hv => hv.ledger.toAccounted) hk

/-- After a sealing there is no file. -/
structure Bare (w : SpoolState) (ev : ℕ) : Prop extends Stands w none 0 ev none where
  no_file : w.current = none

theorem Bare.undisturbed (h : Bare w ev) (hu : Undisturbed w w') : Bare w' ev where
  toStands := h.toStands.undisturbed hu
  no_file := hu.current.trans h.no_file

theorem bare_op {α β : Type} {o : SpoolOp β} {k : β → Prog SpoolOp α}
    {Q : α → SpoolState → Prop} (h : Bare w ev)
    (hk : ∀ v c, Bare v ev → Allowable o v c →
      safe (k (perform o v c).1) Q (perform o v c).2) : safe (.op o k) Q w :=
  wp_op_of_stable h (fun _ _ hv hu => hv.undisturbed hu) (fun _ hv => hv.ledger.toAccounted) hk

theorem Bare.evict (h : Bare w 0) (name : String) : Bare (w.delete name .evicting) 1 where
  toStands := stands_none (h.ledger.evict (by simp [h.no_file])) h.hand_eq
    (unsealed_of_none h.no_file)
  no_file := h.no_file

theorem Bare.countEvicted (h : Bare w 1) : Bare { w with
      stats := { w.stats with batchesEvicted := w.stats.batchesEvicted + 1 }
      batches := w.batches.map .count } 0 where
  toStands := stands_none h.ledger.countEvicted h.hand_eq (unsealed_of_none h.no_file)
  no_file := h.no_file

/-- Evicting batches keeps the thread without a file. -/
theorem safe_evict (h : Bare w 0) (bs : List (String × ℕ)) (total : ℕ) :
    safe (evict cfg bs total) (fun _ v => Bare v 0) w := by
  induction bs generalizing w total with
  | nil => exact fun v hv => h.undisturbed hv
  | cons b bs ih =>
    obtain ⟨path, size⟩ := b
    rw [evict]
    split_ifs with htotal
    · exact fun v hv => h.undisturbed hv
    · refine bare_op h fun v c hv _ => ?_
      by_cases hok : (c.ok && (v.dir path).isSome) = true
      · simp only [perform, hok, if_true]
        refine bare_op (hv.evict path) fun v c hv _ => ?_
        exact ih hv.countEvicted _
      · simp only [perform, hok]
        exact ih hv _

theorem safe_enforceTotalSizeCap (h : Bare w 0) :
    safe (enforceTotalSizeCap cfg) (fun _ v => Bare v 0) w := by
  rw [enforceTotalSizeCap, call_bind]
  refine bare_op h fun v c hv _ => ?_
  cases (perform .readDir v c).1 with
  | none => exact fun v' hv' => hv.undisturbed hv'
  | some entries =>
    dsimp only
    split_ifs
    · exact fun v' hv' => hv.undisturbed hv'
    · exact safe_evict hv _ _

/-! #### The steps of a sealing -/

theorem Stands.nextSeq (h : Stands w none 0 0 (some (n, cs))) (ts : ℕ) :
    Sealing { w with stats := { w.stats with batchesSealed := w.stats.batchesSealed + 1 } }
      n cs ts w.stats.batchesSealed where
  toStands := stands_some h.ledger.nextSeq h.hand_eq h.current_eq h.dir_eq
  number := Nat.lt_succ_self _
  fresh := by
    intro hmem
    obtain ⟨b, hb, hname⟩ := List.mem_map.mp hmem
    exact h.ledger.fresh hb le_rfl hname

theorem Sealing.rename (h : Sealing w activeFileName cs ts seq) :
    Sealing { w with
      dir := Function.update (Function.update w.dir activeFileName none) (stagingName ts seq)
        (some (.ndjson cs))
      current := some (stagingName ts seq) } (stagingName ts seq) cs ts seq where
  toStands := by
    refine stands_some (h.ledger.of_dir rfl ?_ ?_ ?_) h.hand_eq rfl (Function.update_self _ _ _)
    · rw [h.unsealed_eq]
      simp [SpoolState.unsealed, File.lines]
    · intro b hb
      show Function.update _ _ _ b.name = _
      rw [Function.update_of_ne (h.ledger.ne_name hb (isBatchName_stagingName ts seq)),
        Function.update_of_ne (h.ledger.ne_name hb isBatchName_activeFileName)]
    · intro m hm
      obtain rfl := Option.mem_some_iff.mp hm
      exact isBatchName_stagingName ts seq
  number := h.number
  fresh := h.fresh

/-- The batch file may be written: it is neither the file being sealed nor an older batch. -/
theorem Sealing.writeBatch (h : Sealing w n cs ts seq) (f : File) (given : List Chunk) :
    Encoding { w with
      dir := Function.update w.dir (batchName ts seq) (some f)
      encoding := some (batchName ts seq, given) } n cs ts seq given := by
  have hn : n ≠ batchName ts seq :=
    (batchName_ne_of_not_isBatchName (h.ledger.plain n h.current_eq) ts seq).symm
  have hd : Function.update w.dir (batchName ts seq) (some f) n = some (.ndjson cs) :=
    (Function.update_of_ne hn _ _).trans h.dir_eq
  refine ⟨⟨stands_some (h.ledger.of_dir rfl ?_ ?_ h.ledger.plain) h.hand_eq h.current_eq hd,
    h.number, h.fresh⟩, rfl, by simp⟩
  · rw [h.unsealed_eq]
    simp [SpoolState.unsealed, h.current_eq, hd, File.lines]
  · intro b hb
    refine Function.update_of_ne (fun hname => h.fresh ?_) _ _
    exact hname ▸ List.mem_map_of_mem hb

theorem Encoding.copy (h : Encoding w n cs ts seq given) (frame : Frame) (size : ℕ) :
    Encoding { w with
      dir := w.dir.overwrite (batchName ts seq) (.zst cs frame size)
      encoding := some (batchName ts seq, cs) } n cs ts seq cs := by
  rw [Dir.overwrite, if_pos h.created]
  exact h.toSealing.writeBatch _ _

/-- The encoder has the whole file: its end is a sealed batch. -/
theorem Encoding.finish (h : Encoding w n cs ts seq given) (size : ℕ) : Bare { w with
      dir := w.dir.overwrite (batchName ts seq) (.zst cs .whole size)
      encoding := none
      current := none
      batches := w.batches ++ [⟨batchName ts seq, cs, .present⟩] } 0 where
  toStands := by
    refine stands_none (h.ledger.seal h.unsealed_eq h.created h.number ?_) h.hand_eq rfl
    intro b hb hname
    exact h.fresh (hname ▸ List.mem_map_of_mem hb)
  no_file := rfl

/-- Whether it works or not, deleting a file that is no batch moves nothing. -/
theorem Bare.remove (h : Bare w 0) {name : String} (hn : isBatchName name = false) (c : Choice) :
    Bare (perform (.remove name) w c).2 0 := by
  rw [perform]
  split_ifs
  · have hl := h.ledger.deletePlain hn (unsealed_delete name _ (by simp [h.no_file]))
    exact ⟨stands_none hl h.hand_eq (unsealed_of_none h.no_file), h.no_file⟩
  · exact h

/-- **Sealing succeeds within the condition**, and leaves no line unsealed. -/
theorem safe_sealActiveFile (hcs : wholeLines cs ≠ [])
    (h : Stands w none 0 0 (some (activeFileName, cs))) :
    safe (sealActiveFile cfg) (fun ok v => ok = true ∧ Bare v 0) w := by
  rw [sealActiveFile, orFail_call]
  refine safe_op h fun v c hv hc => ?_
  simp only [perform, hv.ok_of_seals hcs hc.2 rfl, if_true, call_bind]
  refine safe_op hv fun v t hv _ => ?_
  refine safe_op hv fun v c hv _ => ?_
  simp only [perform, orFail_call]
  refine sealing_op (hv.nextSeq t.unix) fun v c hv hc => ?_
  simp only [perform, hv.dir_eq, hv.ok_of_seals hcs hc.2 rfl, if_true]
  refine sealing_op hv.rename fun v c hv hc => ?_
  simp only [perform, hv.dir_eq, hv.ok_of_seals hcs hc.2 rfl, if_true, Option.isSome_some,
    Bool.and_self]
  refine sealing_op hv fun v c hv hc => ?_
  simp only [perform, hv.ok_of_seals hcs hc.2 rfl, if_true]
  refine encoding_op (hv.writeBatch _ _) fun v c hv hc => ?_
  simp only [perform, hv.ok_of_seals hcs hc.2 rfl, if_true]
  refine encoding_op hv fun v c hv hc => ?_
  simp only [perform, hv.dir_eq, hv.ok_of_seals hcs hc.2 rfl, if_true]
  refine encoding_op (hv.copy _ _) fun v c hv hc => ?_
  simp only [perform, hv.encoder, hv.ok_of_seals hcs hc.2 rfl, if_true]
  refine bare_op (hv.finish _) fun v c hv _ => ?_
  refine wp_bind.mpr (wp_mono ?_
    (safe_enforceTotalSizeCap (hv.remove (isBatchName_stagingName _ _) c)))
  exact fun _ v hv v' hu => ⟨rfl, hv.undisturbed hu⟩

/-! ### The thread -/

/-- What the variables of the thread say: the active file is where it should be, and its size is
known. -/
def Tracks (active : Option ActiveFile) (hand : Option NdjsonLine) (w : SpoolState) : Prop :=
  match active with
  | some f => ∃ cs, Stands w hand 0 0 (some (activeFileName, cs)) ∧
      f.bytesWritten = linesSize (wholeLines cs)
  | none => Stands w hand 0 0 none

/-- What the result of an iteration says. -/
def AtEnd : Option Locals → SpoolState → Prop
  | some loc, w => Tracks loc.active none w
  | none, w => Stands w none 0 0 none

theorem Tracks.undisturbed {active : Option ActiveFile} (h : Tracks active hand w)
    (hu : Undisturbed w w') : Tracks active hand w' := by
  cases active with
  | none => exact Stands.undisturbed h hu
  | some f =>
    obtain ⟨cs, hs, hsize⟩ := h
    exact ⟨cs, hs.undisturbed hu, hsize⟩

theorem Tracks.accounted {active : Option ActiveFile} (h : Tracks active hand w) :
    Accounted w := by
  cases active with
  | none => exact h.ledger.toAccounted
  | some f =>
    obtain ⟨cs, hs, -⟩ := h
    exact hs.ledger.toAccounted

theorem tracks_op {α β : Type} {active : Option ActiveFile} {o : SpoolOp β}
    {k : β → Prog SpoolOp α} {Q : α → SpoolState → Prop} (h : Tracks active hand w)
    (hk : ∀ v c, Tracks active hand v → Allowable o v c →
      safe (k (perform o v c).1) Q (perform o v c).2) : safe (.op o k) Q w :=
  wp_op_of_stable h (fun _ _ hv hu => hv.undisturbed hu) (fun _ hv => hv.accounted) hk

/-- Without a file there is none to give up. -/
theorem Bare.giveUp (h : Bare w 0) : Stands { w with current := none } none 0 0 none :=
  stands_none (h.ledger.of_dir rfl ((unsealed_of_none rfl).trans (h.unfiled rfl).symm)
    (fun _ _ => rfl) (by simp)) h.hand_eq rfl

/-- A new active file is empty. -/
theorem tracks_create (h : Stands w none 0 0 none) : Tracks (some ⟨0⟩) none { w with
    dir := Function.update w.dir activeFileName (some (.ndjson []))
    current := some activeFileName } := by
  refine ⟨[], stands_some (h.ledger.of_dir rfl ?_ ?_ ?_) h.hand_eq rfl (by simp), rfl⟩
  · rw [h.unfiled rfl]
    simp [SpoolState.unsealed, File.lines]
  · intro b hb
    exact Function.update_of_ne (h.ledger.ne_name hb isBatchName_activeFileName) _ _
  · intro m hm
    obtain rfl := Option.mem_some_iff.mp hm
    exact isBatchName_activeFileName

theorem safe_rotate (hcs : wholeLines cs ≠ [])
    (h : Stands w none 0 0 (some (activeFileName, cs))) :
    safe (rotate cfg) (fun active v => Tracks active none v) w := by
  rw [rotate]
  refine wp_bind.mpr (wp_mono ?_ (safe_sealActiveFile hcs h))
  rintro ok v ⟨rfl, hv⟩
  simp only [if_true, pure_eq, call_bind]
  refine bare_op hv fun v c hv _ => ?_
  cases hok : c.ok with
  | true =>
    simp only [perform, hok, if_true]
    exact fun v' hu => (tracks_create hv.toStands).undisturbed hu
  | false =>
    simp only [perform, hok, Bool.false_eq_true, if_false]
    exact fun v' hu => hv.giveUp.undisturbed hu

theorem Stands.append (h : Stands w hand lag ev (some (activeFileName, cs))) (bs : List UInt8) :
    Stands { w with dir := w.dir.append activeFileName (.torn bs) } hand lag ev
      (some (activeFileName, cs ++ [.torn bs])) := by
  rw [Dir.append_of_some h.dir_eq]
  refine stands_some (h.ledger.of_dir rfl ?_ ?_ h.ledger.plain) h.hand_eq h.current_eq (by simp)
  · rw [h.unsealed_eq]
    simp [SpoolState.unsealed, h.current_eq, File.lines]
  · intro b hb
    exact Function.update_of_ne (h.ledger.ne_name hb isBatchName_activeFileName) _ _

theorem Stands.write {l : NdjsonLine} (h : Stands w (some l) 0 ev (some (activeFileName, cs))) :
    Stands { w with dir := w.dir.append activeFileName (.whole l), hand := none } none 1 ev
      (some (activeFileName, cs ++ [.whole l])) := by
  rw [Dir.append_of_some h.dir_eq]
  exact stands_some (h.ledger.write h.hand_eq h.current_eq h.dir_eq) rfl h.current_eq (by simp)

theorem Stands.drop {l : NdjsonLine} (h : Stands w (some l) lag ev file) : Stands { w with
      stats := { w.stats with eventsDropped := w.stats.eventsDropped + 1 }
      dropped := w.dropped ++ w.hand.toList
      hand := none } none lag ev file where
  ledger := h.ledger.drop h.hand_eq
  hand_eq := rfl
  filed := h.filed
  unfiled := h.unfiled

theorem Stands.countWritten (h : Stands w hand (lag + 1) ev file) :
    Stands { w with stats := { w.stats with eventsWritten := w.stats.eventsWritten + 1 } }
      hand lag ev file :=
  ⟨h.ledger.countWritten, h.hand_eq, h.filed, h.unfiled⟩

/-- A rotation, and the iteration that ends with it. -/
theorem safe_rotate_now (hcs : wholeLines cs ≠ [])
    (h : Stands w none 0 0 (some (activeFileName, cs))) :
    safe (rotate cfg >>= fun active => .op .now fun now => .pure (some ⟨active, now⟩))
      AtEnd w := by
  refine wp_bind.mpr (wp_mono ?_ (safe_rotate hcs h))
  intro active v hv
  exact tracks_op hv fun v c hv _ v' hu => hv.undisturbed hu

/-- Deleting an active file without a line moves nothing either. -/
theorem Stands.removeActive (h : Stands w none 0 0 (some (activeFileName, cs)))
    (hnil : wholeLines cs = []) (c : Choice) :
    Stands (perform (.remove activeFileName) w c).2 none 0 0 none := by
  have hun : w.unsealed = [] := h.unsealed_eq.trans hnil
  rw [perform]
  split_ifs
  · have hun' : (w.delete activeFileName .evicting).unsealed = [] := by
      simp [SpoolState.unsealed, SpoolState.delete, h.current_eq]
    have hl := h.ledger.deletePlain isBatchName_activeFileName (hun'.trans hun.symm)
    exact stands_none hl h.hand_eq hun'
  · exact stands_none h.ledger h.hand_eq hun

theorem safe_onLine {loc : Locals} {l : NdjsonLine} (h : Tracks loc.active (some l) w) :
    safe (onLine cfg loc l) AtEnd w := by
  rw [onLine]
  cases hf : loc.active with
  | none =>
    rw [hf] at h
    refine safe_op h fun v c hv _ v' hu => ?_
    show Tracks loc.active none v'
    rw [hf]
    exact hv.drop.undisturbed hu
  | some f =>
    rw [hf] at h
    obtain ⟨cs, hs, hsize⟩ := h
    simp only [call_bind, pure_eq]
    refine safe_op hs fun v c hv _ => ?_
    cases hok : c.ok with
    | false =>
      simp only [perform, hok, Bool.false_eq_true, if_false]
      refine safe_op (hv.append _) fun v c hv _ v' hu => ?_
      show Tracks loc.active none v'
      rw [hf]
      exact ⟨_, hv.drop.undisturbed hu, by simpa using hsize⟩
    | true =>
      simp only [perform, hok, if_true]
      have hsize' : f.bytesWritten + l.bytes.length =
          linesSize (wholeLines (cs ++ [.whole l])) := by
        simpa using hsize
      refine safe_op hv.write fun v c hv _ => ?_
      split_ifs with hmax
      · refine safe_rotate_now (wholeLines_ne_nil (f := ⟨_⟩) hsize' ?_) hv.countWritten
        have := l.length_pos
        show 0 < f.bytesWritten + l.bytes.length
        omega
      · exact fun v' hu => ⟨_, hv.countWritten.undisturbed hu, hsize'⟩

theorem safe_onTimeout {loc : Locals} (h : Tracks loc.active none w) :
    safe (onTimeout cfg loc) AtEnd w := by
  rw [onTimeout]
  cases hf : loc.active with
  | none =>
    rw [hf] at h
    exact tracks_op h fun v c hv _ v' hu => hv.undisturbed hu
  | some f =>
    rw [hf] at h
    obtain ⟨cs, hs, hsize⟩ := h
    simp only [call_bind, pure_eq]
    split_ifs with hpos
    · exact safe_rotate_now (wholeLines_ne_nil hsize hpos) hs
    · have ht : Tracks (some f) none w := ⟨cs, hs, hsize⟩
      exact tracks_op ht fun v c hv _ v' hu => hv.undisturbed hu

theorem safe_onDisconnected {loc : Locals} (h : Tracks loc.active none w) :
    safe (onDisconnected cfg loc) AtEnd w := by
  rw [onDisconnected]
  cases hf : loc.active with
  | none =>
    rw [hf] at h
    exact fun v hu => Stands.undisturbed h hu
  | some f =>
    rw [hf] at h
    obtain ⟨cs, hs, hsize⟩ := h
    simp only [call_bind, pure_eq]
    split_ifs with hpos
    · refine wp_bind.mpr (wp_mono ?_ (safe_sealActiveFile (wholeLines_ne_nil hsize hpos) hs))
      rintro ok v ⟨-, hv⟩ v' hu
      exact (hv.undisturbed hu).toStands
    · have hnil := wholeLines_eq_nil hsize hpos
      refine safe_op hs fun v c hv _ => ?_
      refine safe_op hv fun v c hv _ v' hu => ?_
      exact (hv.removeActive hnil c).undisturbed hu

theorem Tracks.deadline {active : Option ActiveFile} (h : Tracks active hand w)
    (d : Option ℕ) : Tracks active hand { w with deadline := d } := by
  have hl : ∀ {file}, Stands w hand 0 0 file → Stands { w with deadline := d } hand 0 0 file :=
    fun hs => ⟨hs.ledger.of_dir rfl rfl (fun _ _ => rfl) hs.ledger.plain, hs.hand_eq, hs.filed,
      hs.unfiled⟩
  cases active with
  | none => exact hl h
  | some f =>
    obtain ⟨cs, hs, hsize⟩ := h
    exact ⟨cs, hl hs, hsize⟩

theorem Tracks.receive {active : Option ActiveFile} (h : Tracks active none w) {l : NdjsonLine}
    {rest : List NdjsonLine} (hq : w.queue = l :: rest) :
    Tracks active (some l) { w with queue := rest, hand := some l, deadline := none } := by
  have hl : ∀ {file}, Stands w none 0 0 file →
      Stands { w with queue := rest, hand := some l, deadline := none } (some l) 0 0 file :=
    fun hs => ⟨hs.ledger.receive hq hs.hand_eq, rfl, hs.filed, hs.unfiled⟩
  cases active with
  | none => exact hl h
  | some f =>
    obtain ⟨cs, hs, hsize⟩ := h
    exact ⟨cs, hl hs, hsize⟩

theorem perform_recv_nil (hq : w.queue = []) (c : Choice) : perform .recv w c =
    (if w.disconnected then .disconnected else .timeout, { w with deadline := none }) := by
  simp only [perform, hq]

theorem perform_recv_cons {l : NdjsonLine} {rest : List NdjsonLine} (hq : w.queue = l :: rest)
    (c : Choice) : perform .recv w c =
    (.line l, { w with queue := rest, hand := some l, deadline := none }) := by
  simp only [perform, hq]

/-- **One iteration keeps the ledger balanced** at every operation, beside whatever the others
do. -/
theorem safe_iteration {loc : Locals} (h : Tracks loc.active none w) :
    safe (iteration cfg loc) AtEnd w := by
  rw [iteration]
  simp only [call_bind]
  refine tracks_op h fun v c hv _ => ?_
  refine tracks_op hv fun v c hv _ => ?_
  refine tracks_op (hv.deadline _) fun v c hv _ => ?_
  cases hq : v.queue with
  | nil =>
    rw [perform_recv_nil hq]
    cases v.disconnected with
    | true => exact safe_onDisconnected (hv.deadline none)
    | false => exact safe_onTimeout (hv.deadline none)
  | cons l rest =>
    rw [perform_recv_cons hq]
    exact safe_onLine (hv.receive hq)

theorem safe_setup (h : Bare w 0) : safe setup AtEnd w := by
  rw [setup]
  simp only [call_bind, pure_eq]
  refine bare_op h fun v c hv _ => ?_
  cases hdir : c.ok with
  | false =>
    simp only [perform, hdir, Bool.false_eq_true, if_false]
    exact fun v' hu => (hv.undisturbed hu).toStands
  | true =>
    simp only [perform, hdir, if_true]
    refine bare_op hv fun v c hv _ => ?_
    refine bare_op (hv.remove isBatchName_activeFileName c) fun v c hv _ => ?_
    cases hfile : c.ok with
    | false =>
      simp only [perform, hfile, Bool.false_eq_true, if_false]
      exact fun v' hu => hv.giveUp.undisturbed hu
    | true =>
      simp only [perform, hfile, if_true]
      exact tracks_op (tracks_create hv.toStands) fun v c hv _ v' hu => hv.undisturbed hu

/-! ### The system -/

/-- After the thread has returned. -/
structure Returned (w : SpoolState) : Prop extends Stands w none 0 0 none where
  empty : w.queue = []
  closed : w.receiver = false

/-- The invariant of the system: what is left of the iteration is safe to run. -/
def SystemInv (s : System) : Prop :=
  match s.writer with
  | some p => safe p AtEnd s.spool
  | none => Returned s.spool

theorem safe_resume {p : Prog SpoolOp (Option Locals)} (h : safe p AtEnd w) :
    safe (resume cfg p) AtEnd w := by
  match p with
  | .pure (some loc) =>
    have ht : Tracks loc.active none w := h w (refl_of Undisturbed w)
    exact safe_iteration ht
  | .pure none => exact h
  | .op o k => exact h

/-- Nothing is accepted once the receiver is gone. -/
theorem other_of_closed {l : Other} (hc : w.receiver = false) (hq : w.queue = [])
    (he : w.other cfg l = some w') : w'.receiver = false ∧ w'.queue = [] := by
  rcases SpoolState.other_cases he with ⟨x, rfl, rfl⟩ | ⟨_, _, _, rfl⟩ | ⟨name, rfl, -, rfl⟩
  · simp [SpoolState.trySubmit, hc, hq]
  · exact ⟨hc, hq⟩
  · exact ⟨hc, hq⟩

theorem SystemInv.other {s t : System} {l : Other} (h : SystemInv s) (hok : OtherOk s.spool l)
    (he : s.spool.other cfg l = some t.spool) (hw : t.writer = s.writer) : SystemInv t := by
  have hu := undisturbed_of_other hok he
  rw [SystemInv] at h ⊢
  rw [hw]
  cases hs : s.writer with
  | some p =>
    rw [hs] at h
    exact wp_rely h hu
  | none =>
    rw [hs] at h
    obtain ⟨hc, hq⟩ := other_of_closed h.closed h.empty he
    exact ⟨h.toStands.undisturbed hu, hq, hc⟩

theorem SystemInv.op {s t : System} {c : Choice} (h : SystemInv s) (hok : StepOk s (.op c))
    (hst : s.step cfg (.op c) = some t) : SystemInv t := by
  obtain ⟨β, o, k, hw, hen, rfl⟩ := System.op_eq_some hst
  rw [SystemInv, hw] at h
  rw [StepOk, hw] at hok
  exact safe_resume (wp_next h ⟨hen, hok⟩)

theorem SystemInv.exit {s t : System} (h : SystemInv s) (hok : StepOk s .exit)
    (hst : s.step cfg .exit = some t) : SystemInv t := by
  obtain ⟨hw, rfl⟩ := System.exit_eq_some hst
  rw [SystemInv, hw] at h
  have hq : s.spool.queue = [] := hok
  have hstands : Stands s.spool none 0 0 none := h s.spool (refl_of Undisturbed s.spool)
  refine ⟨stands_none ?_ hstands.hand_eq (hstands.unfiled rfl), rfl, rfl⟩
  have hl := hstands.ledger
  have hplaces := hl.places
  rw [hq] at hplaces
  exact { hl with places := hplaces }

theorem SystemInv.step {s t : System} {l : Label} (h : SystemInv s) (hok : StepOk s l)
    (hst : s.step cfg l = some t) : SystemInv t := by
  cases l with
  | op c => exact h.op hok hst
  | exit => exact h.exit hok hst
  | other l =>
    obtain ⟨w, hw, rfl⟩ := Option.map_eq_some_iff.mp hst
    exact h.other hok hw rfl

theorem systemInv_start (dir : Dir) : SystemInv (.start dir) := by
  refine safe_setup ⟨stands_none ?_ rfl rfl, rfl⟩
  exact ⟨⟨.refl _, rfl, by simp [System.start], le_rfl⟩, rfl, le_rfl, .nil,
    by simp [System.start], by simp [System.start]⟩

/-- **The books at the end.** Every submit was counted, and every line counted as written is in a
sealed batch. -/
structure Settled (w : SpoolState) : Prop where
  counted : w.accepted.length + w.refused = w.stats.eventsWritten + w.stats.eventsDropped
  batched : w.accepted.Perm (w.sealedLines ++ w.dropped)
  written : w.stats.eventsWritten = w.sealedLines.length

theorem Returned.settled (h : Returned w) : Settled w := by
  have hplaces := h.ledger.places
  rw [h.empty, h.hand_eq, h.unfiled rfl] at hplaces
  have hperm : w.accepted.Perm (w.sealedLines ++ w.dropped) := hplaces
  have hwritten := h.ledger.writeCount
  rw [h.unfiled rfl, List.length_nil] at hwritten
  have hlen := hperm.length_eq
  rw [List.length_append] at hlen
  have hdrop := h.ledger.dropCount
  exact ⟨by omega, hperm, by omega⟩

theorem SystemInv.accounted {s : System} (h : SystemInv s) : Accounted s.spool := by
  obtain ⟨w, writer⟩ := s
  match writer with
  | none => exact Returned.toStands h |>.ledger.toAccounted
  | some (.op o k) => exact wp_cut h
  | some (.pure none) =>
    have hs : Stands w none 0 0 none := h w (refl_of Undisturbed w)
    exact hs.ledger.toAccounted
  | some (.pure (some loc)) =>
    have ht : Tracks loc.active none w := h w (refl_of Undisturbed w)
    exact ht.accounted

/-- **Conservation.** In every run whose steps meet the condition the ledger is balanced at every
moment, and settled once the thread has returned. -/
theorem accounted_of_along (cfg : SpoolConfig) (dir : Dir) (ls : List Label) (t : System)
    (hok : Along (System.step cfg) StepOk (.start dir) ls)
    (hr : run (System.step cfg) (.start dir) ls = some t) :
    Accounted t.spool ∧ (t.writer = none → Settled t.spool) := by
  have hinv : SystemInv t := invariant_of_along (fun _ _ _ h hok hst => SystemInv.step h hok hst)
    (systemInv_start dir) hok hr
  refine ⟨hinv.accounted, fun hw => ?_⟩
  rw [SystemInv, hw] at hinv
  exact hinv.settled

/-- The thread sets up, and writes one line that fills the file. -/
def oneLine : List Label :=
  List.replicate 6 (.op {}) ++ [.other (.submit emptyEvent)] ++ List.replicate 3 (.op {})

/-- The sealing fails at the rename; the file is removed and created anew. -/
def renameFails : List Label :=
  oneLine ++ List.replicate 3 (.op {}) ++ [.op { ok := false }] ++ List.replicate 3 (.op {})

/-- The sealing works, and the thread is shut down. -/
def oneBatch : List Label :=
  oneLine ++ List.replicate 15 (.op {}) ++ [.other .shutdown] ++ List.replicate 3 (.op {}) ++
    [.exit]

theorem oneBatch_settled : ∃ t, run (System.step smallSpool) (.start fun _ => none) oneBatch =
    some t ∧ t.writer = none ∧ t.spool.batches.length = 1 ∧ Settled t.spool :=
  ⟨_, rfl, rfl, rfl, (accounted_of_along smallSpool (fun _ => none) oneBatch _ (by decide) rfl).2
    rfl⟩

/-- **A line that is nowhere.** One failed rename, and the only line of the run, counted as
written, is neither in a file nor counted as dropped. -/
theorem lost_by_failed_rename : ∃ t, run (System.step smallSpool) (.start fun _ => none)
    renameFails = some t ∧ ¬ Accounted t.spool := by
  refine ⟨_, rfl, fun h => ?_⟩
  exact absurd h.places (by decide)

end Spool

end WazabiAgent
