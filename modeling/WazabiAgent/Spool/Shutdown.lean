import WazabiAgent.Spool.Ledger

/-!
# When does the spool writer end?

`SpoolHandle::shutdown` drops the sender of the handle and joins the thread. The thread leaves
its loop when its receive reports that nobody can send any more, so what matters is whether a
`SpoolSubmitter` is still alive somewhere: it holds a clone of the sender.

`endsBySealing_iff` says so for every reachable state in which the handle's sender is gone, the
queue is drained and the thread is at its receive. Without a submitter the thread seals and
returns; with one the receive can only time out, and the thread goes round its loop for as long
as the submitter lives.

## Main definitions

* `Spool.System.AtReceive` — the thread waits in `recv_timeout`
* `Spool.EndsBySealing` — its receive ends the loop, and the rest of the thread seals what is
  there

## Main results

* `Spool.placed_of_run` — at its receive the thread knows its active file, whatever has failed
* `Spool.endsBySealing_iff` — the thread ends exactly when no submitter is alive
-/

namespace WazabiAgent

namespace Spool

open LabelledStep Prog

variable {cfg : SpoolConfig} {w w' : SpoolState}

/-- The thread is in `recv_timeout`. -/
def System.AtReceive (s : System) : Prop := ∃ k, s.writer = some (.op .recv k)

/-- The receive the thread is in reports that nobody can send any more, and with file operations
that succeed the thread then returns, with every line of the active file in a sealed batch. -/
structure EndsBySealing (cfg : SpoolConfig) (s : System) : Prop where
  disconnects : (perform .recv s.spool {}).1 = .disconnected
  returns : ∀ cs : ℕ → Choice, (∀ i, (cs i).ok = true) → ∃ n t,
    run (System.step cfg) s ((List.range n).map (fun i => .op (cs i)) ++ [.exit]) = some t ∧
      t.spool.unsealed = [] ∧ t.spool.sealedLines = s.spool.sealedLines ++ s.spool.unsealed

/-! ### What the thread knows at its receive -/

/-- The variable `active` says where the file is and how large. -/
def Placed (active : Option ActiveFile) (w : SpoolState) : Prop :=
  match active with
  | some f => w.current = some activeFileName ∧ ∃ cs, w.dir activeFileName = some (.ndjson cs) ∧
      f.bytesWritten = linesSize (wholeLines cs)
  | none => w.current = none

/-- The others leave the thread its file. -/
structure SameFile (w w' : SpoolState) : Prop where
  current : w'.current = w.current
  files : ∀ n, isBatchName n = false → w'.dir n = w.dir n

instance : IsPreorder SpoolState SameFile where
  refl _ := ⟨rfl, fun _ _ => rfl⟩
  trans _ _ _ h₁ h₂ :=
    ⟨h₂.current.trans h₁.current, fun n hn => (h₂.files n hn).trans (h₁.files n hn)⟩

theorem sameFile_of_other {l : Other} (h : w.other cfg l = some w') : SameFile w w' := by
  rcases SpoolState.other_cases h with ⟨x, rfl, rfl⟩ | ⟨_, _, _, rfl⟩ | ⟨name, rfl, hname, rfl⟩
  · rw [SpoolState.trySubmit]
    split_ifs <;> exact ⟨rfl, fun _ _ => rfl⟩
  · exact ⟨rfl, fun _ _ => rfl⟩
  · exact ⟨rfl, fun n hn => Function.update_of_ne (ne_of_isBatchName hn hname).symm _ _⟩

theorem Placed.sameFile {active : Option ActiveFile} (h : Placed active w)
    (hs : SameFile w w') : Placed active w' := by
  cases active with
  | none => exact hs.current.trans h
  | some f =>
    obtain ⟨hc, cs, hd, hsize⟩ := h
    exact ⟨hs.current.trans hc, cs, (hs.files _ isBatchName_activeFileName).trans hd, hsize⟩

/-- What the result of an iteration says. -/
def PlacedAtEnd : Option Locals → SpoolState → Prop
  | some loc, w => Placed loc.active w
  | none, _ => True

/-- The precondition of a part of the thread when anything may fail. -/
abbrev placing {α : Type} (p : Prog SpoolOp α) (Q : α → SpoolState → Prop)
    (w : SpoolState) : Prop :=
  wp perform (fun _ _ _ => True) SameFile (fun _ => True) p Q w

theorem placing_op {α β : Type} {active : Option ActiveFile} {o : SpoolOp β}
    {k : β → Prog SpoolOp α} {Q : α → SpoolState → Prop} (h : Placed active w)
    (hk : ∀ v c, Placed active v → placing (k (perform o v c).1) Q (perform o v c).2) :
    placing (.op o k) Q w :=
  wp_op_of_stable h (fun _ _ hv hs => hv.sameFile hs) (fun _ _ => trivial)
    fun v c hv _ => hk v c hv

/-- After a rotation the variable is right again, whatever went wrong in it. -/
theorem placing_rotate (w : SpoolState) :
    placing (rotate cfg) (fun active v => Placed active v) w := by
  have hcreate : ∀ v, placing (.op .createActive fun ok =>
      if ok = true then .pure (some ⟨0⟩) else .pure none)
      (fun active v => Placed active v) v := by
    intro v v' _
    refine ⟨trivial, fun c _ => ?_⟩
    cases hok : c.ok with
    | true =>
      simp only [perform, hok, if_true]
      intro u hu
      have hp : Placed (some ⟨0⟩) { v' with
          dir := Function.update v'.dir activeFileName (some (.ndjson []))
          current := some activeFileName } := ⟨rfl, [], by simp, rfl⟩
      exact hp.sameFile hu
    | false =>
      simp only [perform, hok, Bool.false_eq_true, if_false]
      exact fun u hu => hu.current
  rw [rotate]
  refine wp_bind.mpr (wp_mono ?_ (wp_trivial _ _))
  intro ok v _
  cases ok with
  | true => exact hcreate v
  | false => exact fun v' _ => ⟨trivial, fun c _ => hcreate _⟩

theorem placing_rotate_now (w : SpoolState) :
    placing (rotate cfg >>= fun active => .op .now fun now => .pure (some ⟨active, now⟩))
      PlacedAtEnd w := by
  refine wp_bind.mpr (wp_mono ?_ (placing_rotate w))
  intro active v hv
  exact placing_op hv fun v c hv v' hs => hv.sameFile hs

theorem Placed.append {f : ActiveFile} (h : Placed (some f) w) (c : Chunk) {n : ℕ}
    (hn : n = f.bytesWritten + linesSize (wholeLines [c]))
    {hand : Option NdjsonLine} :
    Placed (some ⟨n⟩) { w with dir := w.dir.append activeFileName c, hand := hand } := by
  obtain ⟨hc, cs, hd, hsize⟩ := h
  refine ⟨hc, cs ++ [c], ?_, ?_⟩
  · show w.dir.append _ _ _ = _
    rw [Dir.append_of_some hd, Function.update_self]
  · rw [hn, hsize]
    simp

theorem placing_onLine {loc : Locals} (h : Placed loc.active w) (l : NdjsonLine) :
    placing (onLine cfg loc l) PlacedAtEnd w := by
  rw [onLine]
  cases hf : loc.active with
  | none =>
    rw [hf] at h
    refine placing_op h fun v c hv v' hs => ?_
    have hv' : Placed none (perform .countDropped v c).2 := hv
    show Placed loc.active v'
    rw [hf]
    exact hv'.sameFile hs
  | some f =>
    rw [hf] at h
    simp only [call_bind, pure_eq]
    refine placing_op h fun v c hv => ?_
    cases hok : c.ok with
    | false =>
      simp only [perform, hok, Bool.false_eq_true, if_false]
      have htorn : Placed (some f) { v with
          dir := v.dir.append activeFileName (.torn (l.bytes.dropLast.take c.size)) } :=
        hv.append (.torn _) rfl
      refine placing_op htorn fun v c hv v' hs => ?_
      have hv' : Placed (some f) (perform .countDropped v c).2 := hv
      show Placed loc.active v'
      rw [hf]
      exact hv'.sameFile hs
    | true =>
      simp only [perform, hok, if_true]
      have hwhole : Placed (some ⟨f.bytesWritten + l.bytes.length⟩) { v with
          dir := v.dir.append activeFileName (.whole l), hand := none } :=
        hv.append (.whole l) (by simp)
      refine placing_op hwhole fun v c hv => ?_
      have hv' : Placed (some ⟨f.bytesWritten + l.bytes.length⟩)
        (perform .countWritten v c).2 := hv
      split_ifs with hmax
      · exact placing_rotate_now _
      · exact fun v' hs => hv'.sameFile hs

theorem placing_onTimeout {loc : Locals} (h : Placed loc.active w) :
    placing (onTimeout cfg loc) PlacedAtEnd w := by
  rw [onTimeout]
  cases hf : loc.active with
  | none =>
    rw [hf] at h
    exact placing_op h fun v c hv v' hs => hv.sameFile hs
  | some f =>
    rw [hf] at h
    simp only [call_bind, pure_eq]
    split_ifs with hpos
    · exact placing_rotate_now w
    · exact placing_op h fun v c hv v' hs => hv.sameFile hs

/-- The thread returns from here, so nothing is left to know. -/
theorem placing_onDisconnected (loc : Locals) (w : SpoolState) :
    placing (onDisconnected cfg loc) PlacedAtEnd w := by
  rw [onDisconnected]
  cases loc.active with
  | none => exact fun _ _ => trivial
  | some f =>
    simp only [call_bind, pure_eq]
    split_ifs with hpos
    · exact wp_bind.mpr (wp_mono (fun _ _ _ _ _ => trivial) (wp_trivial _ _))
    · exact fun _ _ => ⟨trivial, fun _ _ _ _ => ⟨trivial, fun _ _ _ _ => trivial⟩⟩

theorem placing_onReceived {loc : Locals} (h : Placed loc.active w) (r : Received) :
    placing (onReceived cfg loc r) PlacedAtEnd w := by
  cases r with
  | line l => exact placing_onLine h l
  | timeout => exact placing_onTimeout h
  | disconnected => exact placing_onDisconnected loc w

theorem placing_setup (w : SpoolState) : placing setup PlacedAtEnd w := by
  refine fun v _ => ⟨trivial, fun c _ => ?_⟩
  cases hdir : c.ok with
  | false =>
    simp only [perform, hdir]
    exact fun _ _ => trivial
  | true =>
    simp only [perform, hdir]
    refine fun v _ => ⟨trivial, fun c _ => fun v _ => ⟨trivial, fun c _ => ?_⟩⟩
    cases hfile : c.ok with
    | false =>
      simp only [perform, hfile]
      exact fun _ _ => trivial
    | true =>
      have hp : Placed (some ⟨0⟩) { v with
          dir := Function.update v.dir activeFileName (some (.ndjson []))
          current := some activeFileName } := ⟨rfl, [], by simp, rfl⟩
      simp only [perform, hfile, if_true]
      exact placing_op hp fun v c hv v' hs => hv.sameFile hs

/-! ### Only the receive can wait -/

/-- No operation of the program waits for anybody. -/
abbrev NonBlocking {α : Type} (p : Prog SpoolOp α) : Prop :=
  All (fun o => ∀ w, o.enabled w = true) p

/-- The receive does, for instance when somebody can still send and its time is not over. -/
theorem recv_waits (w : SpoolState) : ¬ ∀ w, SpoolOp.recv.enabled w = true := by
  intro h
  have henabled := h { w with queue := [], handle := true, deadline := some (w.clock + 1) }
  have hlt : w.clock + 1 ≤ w.clock := of_decide_eq_true henabled
  omega

theorem nonBlocking_orFail {p q : Prog SpoolOp Bool} (hp : NonBlocking p) (hq : NonBlocking q) :
    NonBlocking (orFail p q) := by
  refine hp.bind fun ok => ?_
  cases ok with
  | true => exact hq
  | false => exact trivial

theorem nonBlocking_call {β : Type} {o : SpoolOp β} (h : ∀ w, o.enabled w = true) :
    NonBlocking (call o) := ⟨h, fun _ => trivial⟩

/-- The operations of `enforce_total_size_cap`. -/
def SpoolOp.evicts {β : Type} : SpoolOp β → Bool
  | .readDir | .remove _ | .countEvicted => true
  | _ => false

theorem all_evict (bs : List (String × ℕ)) (total : ℕ) :
    All (fun o => o.evicts = true) (evict cfg bs total) := by
  induction bs generalizing total with
  | nil => exact trivial
  | cons b bs ih =>
    obtain ⟨path, size⟩ := b
    rw [evict]
    split_ifs with htotal
    · exact trivial
    · refine ⟨rfl, fun ok => ?_⟩
      cases ok with
      | true => exact ⟨rfl, fun _ => ih _⟩
      | false => exact ih _

theorem all_enforceTotalSizeCap :
    All (fun o => o.evicts = true) (enforceTotalSizeCap cfg) := by
  refine ⟨rfl, fun entries => ?_⟩
  cases entries with
  | none => exact trivial
  | some entries =>
    show All _ (if _ then _ else _)
    split_ifs
    · exact trivial
    · exact all_evict _ _

theorem nonBlocking_enforceTotalSizeCap : NonBlocking (enforceTotalSizeCap cfg) := by
  refine all_enforceTotalSizeCap.mono fun o ho w => ?_
  cases o <;> first | rfl | simp [SpoolOp.evicts] at ho

theorem nonBlocking_sealActiveFile : NonBlocking (sealActiveFile cfg) := by
  refine nonBlocking_orFail (nonBlocking_call fun _ => rfl)
    ⟨fun _ => rfl, fun ts => ⟨fun _ => rfl, fun seq => ?_⟩⟩
  refine nonBlocking_orFail (nonBlocking_call fun _ => rfl) ?_
  refine nonBlocking_orFail (nonBlocking_call fun _ => rfl) ?_
  refine nonBlocking_orFail (nonBlocking_call fun _ => rfl) ?_
  refine nonBlocking_orFail (nonBlocking_call fun _ => rfl) ?_
  refine nonBlocking_orFail (nonBlocking_call fun _ => rfl) ?_
  refine nonBlocking_orFail (nonBlocking_call fun _ => rfl) ?_
  exact ⟨fun _ => rfl, fun _ => nonBlocking_enforceTotalSizeCap.bind fun _ => trivial⟩

theorem nonBlocking_rotate : NonBlocking (rotate cfg) := by
  have hcreate : NonBlocking (.op .createActive fun ok =>
      if ok = true then .pure (some (⟨0⟩ : ActiveFile)) else .pure none) := by
    refine ⟨fun _ => rfl, fun ok => ?_⟩
    cases ok <;> exact trivial
  refine nonBlocking_sealActiveFile.bind fun ok => ?_
  cases ok with
  | true => exact hcreate
  | false => exact ⟨fun _ => rfl, fun _ => hcreate⟩

theorem nonBlocking_onReceived (loc : Locals) (r : Received) :
    NonBlocking (onReceived cfg loc r) := by
  have hrotate : NonBlocking (rotate cfg >>= fun active =>
      .op .now fun now => .pure (some (⟨active, now⟩ : Locals))) :=
    nonBlocking_rotate.bind fun _ => ⟨fun _ => rfl, fun _ => trivial⟩
  cases r with
  | line l =>
    rw [onReceived, onLine]
    cases loc.active with
    | none => exact ⟨fun _ => rfl, fun _ => trivial⟩
    | some f =>
      refine ⟨fun _ => rfl, fun ok => ?_⟩
      cases ok with
      | true =>
        refine ⟨fun _ => rfl, fun _ => ?_⟩
        show NonBlocking (if _ then _ else _)
        split_ifs
        · exact hrotate
        · exact trivial
      | false => exact ⟨fun _ => rfl, fun _ => trivial⟩
  | timeout =>
    rw [onReceived, onTimeout]
    cases loc.active with
    | none => exact ⟨fun _ => rfl, fun _ => trivial⟩
    | some f =>
      simp only
      split_ifs
      · exact hrotate
      · exact ⟨fun _ => rfl, fun _ => trivial⟩
  | disconnected =>
    rw [onReceived, onDisconnected]
    cases loc.active with
    | none => exact trivial
    | some f =>
      simp only
      split_ifs
      · exact nonBlocking_sealActiveFile.bind fun _ => trivial
      · exact ⟨fun _ => rfl, fun _ => ⟨fun _ => rfl, fun _ => trivial⟩⟩

theorem nonBlocking_setup : NonBlocking setup := by
  refine ⟨fun _ => rfl, fun ok => ?_⟩
  cases ok with
  | false => exact trivial
  | true =>
    refine ⟨fun _ => rfl, fun _ => ⟨fun _ => rfl, fun ok => ?_⟩⟩
    cases ok with
    | false => exact trivial
    | true => exact ⟨fun _ => rfl, fun _ => trivial⟩

/-! ### Where the thread is -/

/-- The three places of an iteration before its receive has returned. -/
inductive BeforeReceive (cfg : SpoolConfig) (loc : Locals) :
    Prog SpoolOp (Option Locals) → Prop
  | head : BeforeReceive cfg loc (iteration cfg loc)
  | timed (timeout : ℕ) : BeforeReceive cfg loc
      (.op (.beginRecv timeout) fun _ => .op .recv (onReceived cfg loc))
  | receiving : BeforeReceive cfg loc (.op .recv (onReceived cfg loc))

/-- The thread is on its way to the next receive, or busy with something that does not wait. -/
def ThreadAt (cfg : SpoolConfig) (w : SpoolState) (p : Prog SpoolOp (Option Locals)) : Prop :=
  (NonBlocking p ∧ placing p PlacedAtEnd w) ∨
    ∃ loc, Placed loc.active w ∧ BeforeReceive cfg loc p

theorem ThreadAt.sameFile {p : Prog SpoolOp (Option Locals)} (h : ThreadAt cfg w p)
    (hs : SameFile w w') : ThreadAt cfg w' p := by
  rcases h with ⟨hp, hw⟩ | ⟨loc, hloc, hp⟩
  · exact Or.inl ⟨hp, wp_rely hw hs⟩
  · exact Or.inr ⟨loc, hloc.sameFile hs, hp⟩

theorem threadAt_resume {p : Prog SpoolOp (Option Locals)} (hp : NonBlocking p)
    (hw : placing p PlacedAtEnd w) : ThreadAt cfg w (resume cfg p) := by
  match p with
  | .pure (some loc) =>
    have hloc : Placed loc.active w := hw w (refl_of SameFile w)
    exact Or.inr ⟨loc, hloc, .head⟩
  | .pure none => exact Or.inl ⟨hp, hw⟩
  | .op o k => exact Or.inl ⟨hp, hw⟩

theorem BeforeReceive.next {loc : Locals} (hloc : Placed loc.active w) {β : Type}
    {o : SpoolOp β} {k : β → Prog SpoolOp (Option Locals)} (h : BeforeReceive cfg loc (.op o k))
    (c : Choice) : ThreadAt cfg (perform o w c).2 (resume cfg (k (perform o w c).1)) := by
  generalize hp : Prog.op o k = p at h
  cases h with
  | head =>
    cases hp
    exact Or.inr ⟨loc, hloc, .timed _⟩
  | timed timeout =>
    cases hp
    exact Or.inr ⟨loc, hloc, .receiving⟩
  | receiving =>
    cases hp
    refine threadAt_resume (nonBlocking_onReceived loc _) (placing_onReceived ?_ _)
    refine hloc.sameFile ?_
    cases hq : w.queue with
    | nil =>
      simp only [perform, hq]
      exact ⟨rfl, fun _ _ => rfl⟩
    | cons l rest =>
      simp only [perform, hq]
      exact ⟨rfl, fun _ _ => rfl⟩

/-- The invariant of the system. -/
def SystemPlaced (cfg : SpoolConfig) (s : System) : Prop :=
  ∀ p ∈ s.writer, ThreadAt cfg s.spool p

theorem SystemPlaced.step {s t : System} {l : Label} (h : SystemPlaced cfg s)
    (hst : s.step cfg l = some t) : SystemPlaced cfg t := by
  rcases System.step_cases hst with ⟨x, rfl, hx, hw⟩ | ⟨c, β, o, k, rfl, hw, -, rfl⟩ | ⟨-, -, rfl⟩
  · intro p hp
    rw [hw] at hp
    exact (h p hp).sameFile (sameFile_of_other hx)
  · intro p hp
    obtain rfl := Option.mem_some_iff.mp hp
    rcases h _ hw with ⟨hp, hplaced⟩ | ⟨loc, hloc, hp⟩
    · exact threadAt_resume (hp.2 _) (wp_next hplaced trivial)
    · exact hp.next hloc c
  · exact fun p hp => absurd hp (Option.not_mem_none p)

/-- The program is at a receive. -/
def isReceive {α : Type} : Prog SpoolOp α → Bool
  | .op .recv _ => true
  | _ => false

/-- **At its receive the thread knows its active file**, in every reachable state and whatever
has failed on the way. -/
theorem placed_of_run {dir : Dir} {ls : List Label} {s : System}
    {k : Received → Prog SpoolOp (Option Locals)}
    (hr : run (System.step cfg) (.start dir) ls = some s) (hk : s.writer = some (.op .recv k)) :
    ∃ loc, k = onReceived cfg loc ∧ Placed loc.active s.spool := by
  have hstart : SystemPlaced cfg (.start dir) := by
    intro p hp
    obtain rfl := Option.mem_some_iff.mp hp
    exact Or.inl ⟨nonBlocking_setup, placing_setup _⟩
  have hinv : SystemPlaced cfg s :=
    invariant_of_run (fun _ _ _ h hst => SystemPlaced.step h hst) hstart hr
  rcases hinv _ hk with ⟨hp, -⟩ | ⟨loc, hloc, hp⟩
  · exact absurd hp.1 (recv_waits s.spool)
  · refine ⟨loc, ?_, hloc⟩
    generalize hq : Prog.op SpoolOp.recv k = p at hp
    cases hp with
    | head => exact absurd (congrArg isReceive hq) (by simp [isReceive, iteration])
    | timed timeout => exact absurd (congrArg isReceive hq) (by simp [isReceive])
    | receiving =>
      injection hq

/-! ### The end of the thread -/

/-- The precondition of a part of the thread that is alone and whose file operations succeed. -/
abbrev alone {α : Type} (p : Prog SpoolOp α) (Q : α → SpoolState → Prop) (w : SpoolState) : Prop :=
  wp perform (fun _ _ c => c.ok = true) Eq (fun _ => True) p Q w

theorem alone_op {α β : Type} {o : SpoolOp β} {k : β → Prog SpoolOp α}
    {Q : α → SpoolState → Prop}
    (h : ∀ c, c.ok = true → alone (k (perform o w c).1) Q (perform o w c).2) :
    alone (.op o k) Q w :=
  (wp_alone_op o k Q w).mpr ⟨trivial, h⟩

/-- Everything is sealed: no file is open, and the sealed lines are `ls`. -/
def AllSealed (ls : List NdjsonLine) (w : SpoolState) : Prop :=
  w.unsealed = [] ∧ w.sealedLines = ls

theorem AllSealed.delete {ls : List NdjsonLine} (h : AllSealed ls w) (name : String) :
    AllSealed ls (w.delete name .evicting) := by
  refine ⟨?_, (sealedLines_delete name _).trans h.2⟩
  have hun := h.1
  cases hc : w.current with
  | none => simp [SpoolState.unsealed, SpoolState.delete, hc]
  | some n =>
    by_cases hn : n = name
    · simp [SpoolState.unsealed, SpoolState.delete, hc, hn]
    · rw [unsealed_delete name _ (by simpa [hc] using hn)]
      exact hun

/-- Evicting batches leaves the record of what was sealed. -/
theorem AllSealed.evicts {ls : List NdjsonLine} (h : AllSealed ls w) {β : Type} (o : SpoolOp β)
    (c : Choice) (ho : o.evicts = true) : AllSealed ls (perform o w c).2 := by
  cases o with
  | readDir => exact h
  | remove name =>
    rw [perform]
    split_ifs
    · exact h.delete name
    · exact h
  | countEvicted => simpa [AllSealed, perform, SpoolState.unsealed, SpoolState.sealedLines,
      List.flatMap_map] using h
  | _ => simp [SpoolOp.evicts] at ho

theorem alone_enforceTotalSizeCap {ls : List NdjsonLine} (h : AllSealed ls w) :
    alone (enforceTotalSizeCap cfg) (fun _ => AllSealed ls) w :=
  wp_of_all all_enforceTotalSizeCap (fun _ _ hw he => he ▸ hw) (fun _ _ => trivial)
    (fun o _ c ho _ hw => hw.evicts o c ho) h

/-- Sealing alone: the lines of the active file become those of the last batch. -/
theorem alone_sealActiveFile {cs : List Chunk}
    (hd : w.dir activeFileName = some (.ndjson cs)) :
    alone (sealActiveFile cfg) (fun _ => AllSealed (w.sealedLines ++ wholeLines cs)) w := by
  rw [sealActiveFile, orFail_call]
  refine alone_op fun c hok => ?_
  simp only [perform, hok, if_true, call_bind]
  refine alone_op fun t _ => alone_op fun c _ => ?_
  simp only [perform, orFail_call]
  refine alone_op fun c hok => ?_
  simp only [perform, hd, hok, if_true]
  refine alone_op fun c hok => ?_
  simp only [perform, hok, Function.update_self, Option.isSome_some, Bool.and_self, if_true]
  refine alone_op fun c hok => ?_
  simp only [perform, hok, if_true]
  refine alone_op fun c hok => ?_
  simp only [perform, hok, if_true]
  refine alone_op fun c hok => ?_
  have hne : stagingName t.unix w.stats.batchesSealed ≠ batchName t.unix w.stats.batchesSealed :=
    (batchName_ne_of_not_isBatchName (isBatchName_stagingName _ _) _ _).symm
  simp only [perform, Function.update_of_ne hne, Function.update_self, hok, if_true]
  refine alone_op fun c hok => ?_
  simp only [perform, hok, if_true]
  refine alone_op fun c _ => ?_
  refine wp_bind.mpr (wp_mono (fun _ _ h => by simpa using h)
    (alone_enforceTotalSizeCap (AllSealed.evicts ?_ _ c rfl)))
  simp [AllSealed, SpoolState.unsealed, SpoolState.sealedLines]

/-- The disconnect branch alone: the thread ends, and what was in the active file is sealed. -/
theorem alone_onDisconnected {loc : Locals} (h : Placed loc.active w) :
    alone (onDisconnected cfg loc)
      (fun r v => r = none ∧ AllSealed (w.sealedLines ++ w.unsealed) v) w := by
  rw [onDisconnected]
  cases hf : loc.active with
  | none =>
    rw [hf] at h
    have hun : w.unsealed = [] := unsealed_of_none h
    simp [AllSealed, hun]
  | some f =>
    rw [hf] at h
    obtain ⟨hc, cs, hd, hsize⟩ := h
    have hun : w.unsealed = wholeLines cs := unsealed_of_current hc hd
    simp only [call_bind, pure_eq]
    split_ifs with hpos
    · refine wp_bind.mpr (wp_mono (fun ok v hv => ?_) (alone_sealActiveFile hd))
      rw [hun]
      exact (wp_alone_pure _ _ _).mpr ⟨rfl, hv⟩
    · have hun' : w.unsealed = [] := hun.trans (wholeLines_eq_nil hsize hpos)
      have hall : AllSealed (w.sealedLines ++ w.unsealed) w := ⟨hun', by rw [hun', List.append_nil]⟩
      refine alone_op fun c _ => alone_op fun c' _ => ?_
      exact (wp_alone_pure _ _ _).mpr ⟨rfl, AllSealed.evicts hall (.remove activeFileName) c' rfl⟩

/-- A part of the thread that ends in a return is not followed by another iteration. -/
theorem resume_of_alone {p : Prog SpoolOp (Option Locals)} {Q : SpoolState → Prop}
    (h : alone p (fun r v => r = none ∧ Q v) w) : resume cfg p = p := by
  cases p with
  | op o k => rfl
  | pure r =>
    obtain ⟨rfl, -⟩ := (wp_alone_pure _ _ _).mp h
    rfl

/-- A part of the thread that does not wait and ends in a return gets there, one operation after
the other. -/
theorem run_to_return {p : Prog SpoolOp (Option Locals)} {Q : SpoolState → Prop}
    (hp : NonBlocking p) (h : alone p (fun r v => r = none ∧ Q v) w) (cs : ℕ → Choice)
    (hcs : ∀ i, (cs i).ok = true) :
    ∃ n v, Q v ∧ run (System.step cfg) ⟨w, some p⟩ ((List.range n).map fun i => .op (cs i)) =
      some ⟨v, some (.pure none)⟩ := by
  induction p generalizing w cs with
  | pure r =>
    obtain ⟨rfl, hQ⟩ := (wp_alone_pure _ _ _).mp h
    exact ⟨0, w, hQ, rfl⟩
  | op o k ih =>
    have hk := wp_next h (hcs 0)
    obtain ⟨n, v, hQ, hrun⟩ := ih _ (hp.2 _) hk (fun i => cs (i + 1)) fun i => hcs (i + 1)
    refine ⟨n + 1, v, hQ, ?_⟩
    rw [List.range_succ_eq_map, List.map_cons, List.map_map, run_cons]
    simp only [System.step, hp.1 w, if_true, resume_of_alone hk, Option.bind_some]
    exact hrun

/-! ### A submitter keeps the thread -/

/-- Nothing is queued, and somebody may still send. -/
def Held (w : SpoolState) : Prop := w.submitters ≠ 0 ∧ w.queue = []

/-- Only the receive takes a line from the queue, and no operation creates or drops a sender. -/
theorem perform_channel {β : Type} {o : SpoolOp β} (ho : ∀ w, o.enabled w = true) (w : SpoolState)
    (c : Choice) : (perform o w c).2.queue = w.queue ∧
      (perform o w c).2.submitters = w.submitters := by
  cases o with
  | recv => exact absurd ho (recv_waits w)
  | rename dst | copy src dst | finishEncoder dst =>
    simp only [perform]
    split
    · first | exact ⟨rfl, rfl⟩ | (split_ifs <;> exact ⟨rfl, rfl⟩)
    · exact ⟨rfl, rfl⟩
  | createActive | remove | writeLine | createFile =>
    simp only [perform]
    split_ifs <;> exact ⟨rfl, rfl⟩
  | _ => exact ⟨rfl, rfl⟩

/-- What the clock does while nobody else acts. -/
def KeepsHeld (w w' : SpoolState) : Prop := Held w → Held w'

instance : IsPreorder SpoolState KeepsHeld where
  refl _ := id
  trans _ _ _ h₁ h₂ := h₂ ∘ h₁

/-- The precondition of a part of the thread that does not lead to its return. -/
abbrev staying (p : Prog SpoolOp (Option Locals)) (w : SpoolState) : Prop :=
  wp perform (fun _ _ _ => True) KeepsHeld Held p (fun r v => r ≠ none ∧ Held v) w

theorem staying_now (active : Option ActiveFile) (h : Held w) :
    staying (.op .now fun now => .pure (some ⟨active, now⟩)) w := by
  intro v hv
  exact ⟨hv h, fun c _ v' hv' => ⟨Option.some_ne_none _, hv' (hv h)⟩⟩

theorem staying_onTimeout (loc : Locals) (h : Held w) : staying (onTimeout cfg loc) w := by
  rw [onTimeout]
  cases loc.active with
  | none => exact staying_now none h
  | some f =>
    simp only [call_bind, pure_eq]
    split_ifs with hpos
    · refine wp_bind.mpr (wp_mono (fun active v hv => staying_now active hv) ?_)
      refine wp_of_all nonBlocking_rotate (fun _ _ hw hk => hk hw) (fun _ hw => hw) ?_ h
      intro β o v c ho _ hv
      obtain ⟨hq, hsub⟩ := perform_channel ho v c
      exact ⟨hsub ▸ hv.1, hq.trans hv.2⟩
    · exact staying_now (some f) h

/-- A receive that finds an empty queue and a live sender times out. -/
theorem staying_receive (loc : Locals) (h : Held w) :
    staying (.op .recv (onReceived cfg loc)) w := by
  intro v hv
  have hheld : Held v := hv h
  refine ⟨hheld, fun c _ => ?_⟩
  have hd : v.disconnected = false := by simp [SpoolState.disconnected, hheld.1]
  simp only [perform, hheld.2, hd]
  exact staying_onTimeout loc ⟨hheld.1, rfl⟩

theorem staying_iteration (loc : Locals) (h : Held w) : staying (iteration cfg loc) w := by
  intro v hv
  refine ⟨hv h, fun c _ => ?_⟩
  intro v' hv'
  exact ⟨hv' (hv h), fun c _ => staying_receive loc (hv' (hv h))⟩

/-- The steps of the thread and of the clock. -/
def Label.IsOwn : Label → Prop
  | .other (.tick _) | .op _ | .exit => True
  | _ => False

/-- The thread is in its loop, and will stay there. -/
def Staying (s : System) : Prop := ∃ p, s.writer = some p ∧ staying p s.spool

theorem Staying.step {s t : System} {l : Label} (h : Staying s) (hl : l.IsOwn)
    (hst : s.step cfg l = some t) : Staying t := by
  obtain ⟨p, hs, hp⟩ := h
  rcases System.step_cases hst with ⟨x, rfl, hx, hw⟩ | ⟨c, β, o, k, rfl, hw, -, rfl⟩ |
    ⟨rfl, hw, -⟩
  · refine ⟨p, hw.trans hs, ?_⟩
    cases x with
    | tick d =>
      rw [← Option.some.inj hx]
      exact wp_rely hp id
    | _ => exact hl.elim
  · obtain rfl := Option.some.inj (hs.symm.trans hw)
    have hk := wp_next hp (c := c) trivial
    refine ⟨_, rfl, ?_⟩
    show staying (resume cfg (k (perform o s.spool c).1)) (perform o s.spool c).2
    cases hkr : k (perform o s.spool c).1 with
    | op o' k' =>
      rw [hkr] at hk
      exact hk
    | pure r =>
      rw [hkr] at hk
      obtain ⟨hr, hheld⟩ := wp_result hk
      obtain ⟨loc, rfl⟩ := Option.ne_none_iff_exists'.mp hr
      exact staying_iteration loc hheld
  · -- a thread that stays has not returned
    obtain rfl := Option.some.inj (hs.symm.trans hw)
    have hr : (none : Option Locals) ≠ none ∧ Held s.spool := hp s.spool (refl_of KeepsHeld s.spool)
    exact absurd rfl hr.1

/-- **A submitter keeps the thread.** From a receive with an empty queue, and as long as only the
thread and the clock move, the thread does not return while a submitter is alive. -/
theorem writer_stays_of_submitter {s t : System} {loc : Locals} {ls : List Label}
    (hk : s.writer = some (.op .recv (onReceived cfg loc))) (hq : s.spool.queue = [])
    (hsub : s.spool.submitters ≠ 0) (hls : ∀ l ∈ ls, l.IsOwn)
    (hr : run (System.step cfg) s ls = some t) : t.writer ≠ none := by
  have hs : Staying s := ⟨_, hk, staying_receive loc ⟨hsub, hq⟩⟩
  have hown : Along (System.step cfg) (fun _ l => l.IsOwn) s ls := by
    refine (along_iff_forall_split hr).mpr fun ms l rest _ hsplit _ => hls l ?_
    rw [hsplit]
    simp
  obtain ⟨p, hp, -⟩ :=
    invariant_of_along (fun _ _ _ h hl hst => Staying.step h hl hst) hs hown hr
  rw [hp]
  exact Option.some_ne_none p

theorem perform_recv_of_disconnected (hq : w.queue = []) (hd : w.disconnected = true)
    (c : Choice) : perform .recv w c = (.disconnected, { w with deadline := none }) := by
  simp only [perform, hq, hd, if_true]

/-- Without a submitter the receive ends the loop. -/
theorem endsBySealing_of_disconnected {s : System} {loc : Locals}
    (hk : s.writer = some (.op .recv (onReceived cfg loc))) (hloc : Placed loc.active s.spool)
    (hq : s.spool.queue = []) (hd : s.spool.disconnected = true) : EndsBySealing cfg s := by
  obtain ⟨w, writer⟩ := s
  obtain rfl : writer = some (.op .recv (onReceived cfg loc)) := hk
  refine ⟨by rw [perform_recv_of_disconnected hq hd], fun cs hcs => ?_⟩
  have hend : alone (onDisconnected cfg loc)
      (fun r v => r = none ∧ AllSealed (w.sealedLines ++ w.unsealed) v)
      { w with deadline := none } :=
    alone_onDisconnected (w := { w with deadline := none }) hloc
  obtain ⟨n, v, hv, hrun⟩ := run_to_return (nonBlocking_onReceived loc .disconnected)
    hend (fun i => cs (i + 1)) fun i => hcs (i + 1)
  refine ⟨n + 1, ⟨{ v with receiver := false, queue := [] }, none⟩, ?_, hv.1, hv.2⟩
  have hen : SpoolOp.recv.enabled w = true := by simp [SpoolOp.enabled, hd]
  have hfirst : System.step cfg ⟨w, some (.op .recv (onReceived cfg loc))⟩ (.op (cs 0)) =
      some ⟨{ w with deadline := none }, some (onDisconnected cfg loc)⟩ := by
    simp only [System.step, hen, if_true, perform_recv_of_disconnected hq hd]
    rw [onReceived, resume_of_alone hend]
  rw [List.range_succ_eq_map, List.map_cons, List.map_map, List.cons_append]
  refine run_cons_iff.mpr ⟨_, hfirst, run_snoc_iff.mpr ⟨_, hrun, rfl⟩⟩

/-- **The thread ends exactly when no submitter is alive.** The handle's sender is gone, the
queue is drained, and the thread is at its receive. -/
theorem endsBySealing_iff (cfg : SpoolConfig) (dir : Dir) (ls : List Label) (s : System)
    (hr : run (System.step cfg) (.start dir) ls = some s) (hhandle : s.spool.handle = false)
    (hq : s.spool.queue = []) (hat : s.AtReceive) :
    EndsBySealing cfg s ↔ s.spool.submitters = 0 := by
  obtain ⟨k, hk⟩ := hat
  obtain ⟨loc, rfl, hloc⟩ := placed_of_run hr hk
  constructor
  · intro hends
    by_contra hsub
    obtain ⟨n, t, hrun, -, -⟩ := hends.returns (fun _ => {}) fun _ => rfl
    refine writer_stays_of_submitter hk hq hsub ?_ hrun ?_
    · intro l hl
      simp only [List.mem_append, List.mem_map, List.mem_singleton] at hl
      rcases hl with ⟨i, -, rfl⟩ | rfl <;> trivial
    · obtain ⟨u, -, hu⟩ := run_snoc_iff.mp hrun
      rw [(System.exit_eq_some hu).2]
  · intro hsub
    have hd : s.spool.disconnected = true := by simp [SpoolState.disconnected, hhandle, hsub]
    exact endsBySealing_of_disconnected hk hloc hq hd

/-- A spool whose submitter is dropped before the shutdown. -/
def submitterDropped : List Label :=
  List.replicate 6 (.op {}) ++ [.other .cloneSender, .other .dropSubmitter, .other .shutdown]

/-- A spool whose submitter outlives the shutdown. -/
def submitterKept : List Label :=
  List.replicate 6 (.op {}) ++ [.other .cloneSender, .other .shutdown]

theorem submitterDropped_ends : ∃ s,
    run (System.step smallSpool) (.start fun _ => none) submitterDropped = some s ∧
      s.spool.submitters = 0 ∧ EndsBySealing smallSpool s :=
  ⟨_, rfl, rfl, (endsBySealing_iff smallSpool (fun _ => none) submitterDropped _ rfl rfl rfl
    ⟨_, rfl⟩).mpr rfl⟩

/-- **A live submitter, and the thread does not end.** -/
theorem submitterKept_stays : ∃ s,
    run (System.step smallSpool) (.start fun _ => none) submitterKept = some s ∧
      s.spool.handle = false ∧ s.spool.queue = [] ∧ s.AtReceive ∧
      ¬ EndsBySealing smallSpool s :=
  ⟨_, rfl, rfl, rfl, ⟨_, rfl⟩, fun h => absurd h.disconnects (by decide)⟩

end Spool

end WazabiAgent
