import WazabiAgent.Lib.Transition

/-!
# The pump and the ways to stop it

`run_pump_loop` reads `SHUTDOWN` at the head of each turn and then blocks in `DeviceIoControl`
until the driver has an event. Two things raise `SHUTDOWN` while the agent runs:

* `shutdown::request`, called by the Ctrl+C handler and by the service control handler, stores the
  flag and then cancels the I/O of the registered handle with `CancelIoEx`. These are two steps,
  and the pump can move between them;
* `sync::pull`, when the profile brought other configuration overrides, stores the flag and
  nothing else.

From the moment the flag is set two other threads may end the process, the watchdog of `main` and
the restart thread of `pull`, whether or not the spools have been sealed by then.

Memory is sequentially consistent here. What `main` does between the return of the pump and the
sealing of the kernel spool is the single label `teardown`.

## Main definitions

* `Pump`, `Pump.step` — the main thread, the threads that stop it, and the spool it feeds
* `Pump.StopReachesSealing` — a stop that was asked for gets through, without any further event
* `StepOk` — the stores and cancellations that the pump notices, and an end of the process that
  waits for the teardown

## Main results

* `shutdown_of_returned` — only an error of the driver ends the loop without `SHUTDOWN`
* `stopReachesSealing_iff_attentive` — what the property means for a single state
* `stopReachesSealing_iff` — it holds throughout a run exactly when every step of it is `StepOk`
-/

namespace WazabiAgent

namespace Agent

open LabelledStep

/-! ### The main thread -/

/-- Where the main thread is. `blocked` carries whether its I/O has been cancelled. -/
inductive PumpPc
  | starting
  | loopHead
  | calling
  | blocked (cancelled : Bool)
  | handling (line : Option String)
  | returned
  | tornDown
  deriving DecidableEq

/-- What `DeviceIoControl` comes back with. An event is given as the line it encodes to, if it
decodes and the filter lets it pass. -/
inductive IoResult
  | event (line : Option String)
  | insufficientBuffer (returned : ℕ)
  | operationAborted
  | error
  deriving DecidableEq

/-- The state of the agent, as far as it concerns the pump. -/
structure Pump where
  pc : PumpPc := .starting
  /-- Size of the event buffer. -/
  buf : ℕ := 4096
  shutdown : Bool := false
  /-- Calls of `request` that have stored the flag and not yet cancelled the I/O. -/
  cancelling : ℕ := 0
  /-- Lines in the active file of the kernel spool. -/
  active : List String := []
  /-- Lines in its sealed batches. -/
  batches : List String := []
  exited : Bool := false
  deriving DecidableEq

/-- The agent before `register_pump_handle`. -/
def Pump.start : Pump := {}

/-- `CancelIoEx` on the handle of the device: it reaches the call in flight, if there is one. -/
def PumpPc.cancelIo : PumpPc → PumpPc
  | .blocked _ => .blocked true
  | pc => pc

/-- What happens next. -/
inductive Label
  /-- `register_pump_handle`; `main` goes on to `run_pump_loop`. -/
  | register
  /-- The load of `SHUTDOWN` at the head of the loop. -/
  | check
  /-- The main thread enters `DeviceIoControl`. -/
  | issue
  | complete (r : IoResult)
  /-- The event goes to the spool, whose channel takes it or not. -/
  | process (accepted : Bool)
  /-- `main` joins what it started, and the spool seals its active file. -/
  | teardown
  /-- `request`: the store. -/
  | requestStore
  /-- `request`: `CancelIoEx`. -/
  | requestCancel
  /-- `pull`: the store when the overrides changed. -/
  | pullStore
  /-- The writer thread seals the active file because of its size or age. -/
  | rotate
  /-- The watchdog or the restart thread ends the process. -/
  | exitProcess
  deriving DecidableEq

/-- Moves the pump from one place to the next. -/
def Pump.goto (s : Pump) (src dst : PumpPc) : Option Pump :=
  if s.pc = src then some { s with pc := dst } else none

/-- The branches of `run_pump_loop` after `DeviceIoControl`. -/
def Pump.completed (s : Pump) : IoResult → Pump
  | .event line => { s with pc := .handling line }
  | .insufficientBuffer returned =>
    { s with pc := .loopHead, buf := max returned (s.buf * 2 % UInt32.size) }
  -- both leave the loop; only the second one is reported
  | .operationAborted => { s with pc := .returned }
  | .error => { s with pc := .returned }

/-- The lines of the active file become a batch. -/
def Pump.seal (s : Pump) : Pump := { s with active := [], batches := s.batches ++ s.active }

/-- What a thread does while the process lives. -/
def Pump.act (s : Pump) : Label → Option Pump
  | .register => s.goto .starting .loopHead
  | .check => s.goto .loopHead (if s.shutdown then .returned else .calling)
  | .issue => s.goto .calling (.blocked false)
  | .complete r =>
    match s.pc with
    | .blocked cancelled =>
      if r = .operationAborted ∧ cancelled = false then none else some (s.completed r)
    | _ => none
  | .process accepted =>
    match s.pc with
    | .handling line =>
      some { s with pc := .loopHead, active := s.active ++ if accepted then line.toList else [] }
    | _ => none
  | .teardown => s.seal.goto .returned .tornDown
  | .requestStore => some { s with shutdown := true, cancelling := s.cancelling + 1 }
  | .requestCancel =>
    if s.cancelling = 0 then none
    else some { s with cancelling := s.cancelling - 1, pc := s.pc.cancelIo }
  | .pullStore => some { s with shutdown := true }
  | .rotate => some s.seal
  | .exitProcess => if s.shutdown then some { s with exited := true } else none

/-- One step of the process; a process that has exited takes none. -/
def Pump.step (s : Pump) (l : Label) : Option Pump :=
  if s.exited then none else s.act l

/-! ### What a stop has to reach -/

/-- The steps the main thread takes by itself: no event, no error of the driver, no other
thread. -/
def Label.IsOwn : Label → Prop
  | .register | .check | .issue | .process _ | .teardown => True
  | .complete r => r = .operationAborted
  | _ => False

/-- A stop that was asked for reaches the sealing. -/
structure Pump.StopReachesSealing (s : Pump) : Prop where
  /-- While the process lives: once `SHUTDOWN` is set and every `request` is through, the main
  thread gets by itself to the end of the teardown, with all that was accepted sealed. -/
  gets_there : s.shutdown = true → s.cancelling = 0 → s.exited = false →
    ∃ ls t, (∀ l ∈ ls, l.IsOwn) ∧ run Pump.step s ls = some t ∧ t.pc = .tornDown ∧
      t.active = [] ∧ s.batches ++ s.active <+: t.batches
  /-- When the process has been ended: the teardown was through, and nothing that was accepted is
  left in the active file. -/
  was_there : s.exited = true → s.pc = .tornDown ∧ s.active = []

/-- In `DeviceIoControl` with nothing that would end it but an event, or about to be. -/
def PumpPc.waits : PumpPc → Bool
  | .calling | .blocked false => true
  | _ => false

/-- What the pump does not notice: a bare store of the flag while it waits, and a cancellation
between its load of the flag and its call, when no other cancellation follows. And what does not
wait for it: the end of the process before `main` has been through the teardown. -/
def StepOk (s : Pump) : Label → Prop
  | .pullStore => s.shutdown = true ∨ s.pc.waits = false
  | .requestCancel => s.cancelling = 1 → s.pc ≠ .calling
  | .exitProcess => s.pc = .tornDown
  | _ => True

instance (s : Pump) (l : Label) : Decidable (StepOk s l) := by
  cases l <;> unfold StepOk <;> infer_instance

variable {s t : Pump} {l : Label}

theorem goto_eq_some {src dst : PumpPc} :
    s.goto src dst = some t ↔ s.pc = src ∧ { s with pc := dst } = t := by
  simp [Pump.goto]

theorem step_eq_act (h : s.step l = some t) : s.exited = false ∧ s.act l = some t := by
  rw [Pump.step] at h
  split_ifs at h with hex
  exact ⟨by simpa using hex, h⟩

/-- All that a step of the pump can be. -/
inductive Pump.Acts (s : Pump) : Label → Pump → Prop
  | register (hpc : s.pc = .starting) : s.Acts .register { s with pc := .loopHead }
  | check (hpc : s.pc = .loopHead) :
    s.Acts .check { s with pc := if s.shutdown then .returned else .calling }
  | issue (hpc : s.pc = .calling) : s.Acts .issue { s with pc := .blocked false }
  | complete {r : IoResult} {cancelled : Bool} (hpc : s.pc = .blocked cancelled)
    (hr : r = .operationAborted → cancelled = true) : s.Acts (.complete r) (s.completed r)
  | process {accepted : Bool} {line : Option String} (hpc : s.pc = .handling line) :
    s.Acts (.process accepted)
      { s with pc := .loopHead, active := s.active ++ if accepted then line.toList else [] }
  | teardown (hpc : s.pc = .returned) : s.Acts .teardown { s.seal with pc := .tornDown }
  | requestStore :
    s.Acts .requestStore { s with shutdown := true, cancelling := s.cancelling + 1 }
  | requestCancel (hc : 0 < s.cancelling) :
    s.Acts .requestCancel { s with cancelling := s.cancelling - 1, pc := s.pc.cancelIo }
  | pullStore : s.Acts .pullStore { s with shutdown := true }
  | rotate : s.Acts .rotate s.seal
  | exitProcess (hsh : s.shutdown = true) : s.Acts .exitProcess { s with exited := true }

theorem acts_of_step (h : s.step l = some t) : s.exited = false ∧ s.Acts l t := by
  obtain ⟨hex, hact⟩ := step_eq_act h
  refine ⟨hex, ?_⟩
  cases l with
  | register =>
    obtain ⟨hpc, rfl⟩ := goto_eq_some.mp hact
    exact .register hpc
  | check =>
    obtain ⟨hpc, rfl⟩ := goto_eq_some.mp hact
    exact .check hpc
  | issue =>
    obtain ⟨hpc, rfl⟩ := goto_eq_some.mp hact
    exact .issue hpc
  | complete r =>
    simp only [Pump.act] at hact
    split at hact
    · next cancelled hpc =>
      split_ifs at hact with hr
      obtain rfl := Option.some.inj hact
      exact .complete hpc fun hab => by simpa [hab] using hr
    · cases hact
  | process accepted =>
    simp only [Pump.act] at hact
    split at hact
    · next line hpc =>
      obtain rfl := Option.some.inj hact
      exact .process hpc
    · cases hact
  | teardown =>
    obtain ⟨hpc, rfl⟩ := goto_eq_some.mp hact
    exact .teardown hpc
  | requestStore =>
    obtain rfl := Option.some.inj hact
    exact .requestStore
  | requestCancel =>
    simp only [Pump.act] at hact
    split_ifs at hact with hc
    obtain rfl := Option.some.inj hact
    exact .requestCancel (Nat.pos_of_ne_zero hc)
  | pullStore =>
    obtain rfl := Option.some.inj hact
    exact .pullStore
  | rotate =>
    obtain rfl := Option.some.inj hact
    exact .rotate
  | exitProcess =>
    simp only [Pump.act] at hact
    split_ifs at hact with hsh
    obtain rfl := Option.some.inj hact
    exact .exitProcess hsh

/-! ### Reachable states -/

/-- A cancellation is pending only after the flag, and the teardown leaves nothing unsealed. -/
structure Pump.Inv (s : Pump) : Prop where
  shutdown : 0 < s.cancelling → s.shutdown = true
  sealed' : s.pc = .tornDown → s.active = []

theorem Pump.Inv.step (h : s.Inv) (hst : s.step l = some t) : t.Inv := by
  obtain ⟨-, hacts⟩ := acts_of_step hst
  cases hacts with
  | register | issue | process => exact ⟨h.shutdown, by simp⟩
  | check =>
    refine ⟨h.shutdown, fun hpc => ?_⟩
    dsimp only at hpc
    split_ifs at hpc
  | @complete r =>
    cases r <;> exact ⟨h.shutdown, by simp [Pump.completed]⟩
  | teardown | rotate => exact ⟨h.shutdown, fun _ => rfl⟩
  | requestStore | pullStore => exact ⟨fun _ => rfl, h.sealed'⟩
  | requestCancel hc =>
    refine ⟨fun _ => h.shutdown hc, fun hpc => h.sealed' ?_⟩
    revert hpc
    cases s.pc <;> simp [PumpPc.cancelIo]
  | exitProcess => exact ⟨h.shutdown, h.sealed'⟩

theorem inv_start : Pump.start.Inv :=
  ⟨fun h => absurd h (by decide), fun h => absurd h (by decide)⟩

theorem inv_of_run {ls : List Label} (hr : run Pump.step .start ls = some s) : s.Inv :=
  invariant_of_run (fun _ _ _ h hst => h.step hst) inv_start hr

/-- Cancelled, or out of the loop. -/
def PumpPc.stopped : PumpPc → Bool
  | .blocked true | .returned | .tornDown => true
  | _ => false

/-- Apart from an error of the driver, it is `SHUTDOWN` that ends the loop. -/
theorem stopped_of_step (h : s.Inv) (hs : s.pc.stopped = true → s.shutdown = true)
    (hl : l ≠ .complete .error) (hst : s.step l = some t) :
    t.pc.stopped = true → t.shutdown = true := by
  obtain ⟨-, hacts⟩ := acts_of_step hst
  cases hacts with
  | register | issue | process => simp [PumpPc.stopped]
  | check => by_cases hsh : s.shutdown = true <;> simp [PumpPc.stopped, hsh]
  | @complete r cancelled hpc hr =>
    cases r with
    | operationAborted =>
      obtain rfl : cancelled = true := hr rfl
      exact fun _ => hs (by rw [hpc]; rfl)
    | error => exact absurd rfl hl
    | _ => simp [Pump.completed, PumpPc.stopped]
  | teardown hpc => exact fun _ => hs (by rw [hpc]; rfl)
  | requestStore | pullStore => exact fun _ => rfl
  | requestCancel hc => exact fun _ => h.shutdown hc
  | rotate | exitProcess => exact hs

/-- **Why the pump returned.** Without an error of the driver, `SHUTDOWN` is set when it does. -/
theorem shutdown_of_returned {ls : List Label} (hr : run Pump.step .start ls = some s)
    (hls : ∀ l ∈ ls, l ≠ .complete .error) (hpc : s.pc = .returned) : s.shutdown = true := by
  have hok : Along Pump.step (fun _ l => l ≠ .complete .error) .start ls :=
    (along_iff_forall_split hr).mpr fun ms l rest _ hsplit _ => hls l (by simp [hsplit])
  have hstart : Pump.start.pc.stopped = true → Pump.start.shutdown = true :=
    fun h => absurd h (by decide)
  have hstop : s.Inv ∧ (s.pc.stopped = true → s.shutdown = true) :=
    invariant_of_along (I := fun s => s.Inv ∧ (s.pc.stopped = true → s.shutdown = true))
      (fun _ _ _ h hl hst => ⟨h.1.step hst, stopped_of_step h.1 h.2 hl hst⟩)
      ⟨inv_start, hstart⟩ hok hr
  exact hstop.2 (by rw [hpc]; rfl)

/-! ### One state -/

/-- A stop that is through finds the main thread somewhere it will notice it, and the process is
not ended before the teardown is. -/
structure Pump.Attentive (s : Pump) : Prop where
  notices : s.shutdown = true → s.cancelling = 0 → s.exited = false → s.pc.waits = false
  outlived : s.exited = true → s.pc = .tornDown

/-- Where the main thread is not waiting, it gets through the teardown by itself. -/
theorem reaches_sealing (h : s.Inv) (hw : s.pc.waits = false) (hsh : s.shutdown = true)
    (hex : s.exited = false) : ∃ ls t, (∀ l ∈ ls, l.IsOwn) ∧ run Pump.step s ls = some t ∧
      t.pc = .tornDown ∧ t.active = [] ∧ s.batches ++ s.active <+: t.batches := by
  obtain ⟨pc, buf, shutdown, cancelling, active, batches, exited⟩ := s
  obtain rfl : shutdown = true := hsh
  obtain rfl : exited = false := hex
  cases pc with
  | starting =>
    exact ⟨[.register, .check, .teardown], _, by simp [Label.IsOwn], rfl, rfl, rfl,
      List.prefix_rfl⟩
  | loopHead => exact ⟨[.check, .teardown], _, by simp [Label.IsOwn], rfl, rfl, rfl,
      List.prefix_rfl⟩
  | calling => simp [PumpPc.waits] at hw
  | blocked cancelled =>
    cases cancelled with
    | false => simp [PumpPc.waits] at hw
    | true =>
      exact ⟨[.complete .operationAborted, .teardown], _, by simp [Label.IsOwn], rfl, rfl, rfl,
        List.prefix_rfl⟩
  | handling line =>
    refine ⟨[.process true, .check, .teardown], _, by simp [Label.IsOwn], rfl, rfl, rfl, ?_⟩
    exact ⟨line.toList, by simp [Pump.seal]⟩
  | returned => exact ⟨[.teardown], _, by simp [Label.IsOwn], rfl, rfl, rfl, List.prefix_rfl⟩
  | tornDown =>
    obtain rfl : active = [] := h.sealed' rfl
    exact ⟨[], _, by simp, rfl, rfl, rfl, by simp⟩

/-- A waiting pump stays there, whatever it does by itself. -/
theorem waits_of_own (hw : s.pc.waits = true) (hl : l.IsOwn) (hst : s.step l = some t) :
    t.pc.waits = true := by
  obtain ⟨-, hacts⟩ := acts_of_step hst
  cases hacts with
  | register hpc | check hpc | process hpc | teardown hpc =>
    rw [hpc] at hw
    cases hw
  | issue => rfl
  | @complete r cancelled hpc hr =>
    obtain rfl : cancelled = true := hr hl
    rw [hpc] at hw
    cases hw
  | _ => exact hl.elim

theorem stopReachesSealing_iff_attentive (h : s.Inv) : s.StopReachesSealing ↔ s.Attentive := by
  constructor
  · refine fun hs => ⟨fun hsh hc hex => ?_, fun hex => (hs.was_there hex).1⟩
    by_contra hw
    obtain ⟨ls, t, hls, hr, hpc, -⟩ := hs.gets_there hsh hc hex
    have hown : Along Pump.step (fun _ l => l.IsOwn) s ls :=
      (along_iff_forall_split hr).mpr fun ms l rest _ hsplit _ => hls l (by simp [hsplit])
    have hwt : t.pc.waits = true :=
      invariant_of_along (fun _ _ _ hw hl hst => waits_of_own hw hl hst) (by simpa using hw) hown hr
    rw [hpc] at hwt
    cases hwt
  · intro ha
    refine ⟨fun hsh hc hex => reaches_sealing h (ha.notices hsh hc hex) hsh hex, fun hex => ?_⟩
    exact ⟨ha.outlived hex, h.sealed' (ha.outlived hex)⟩

/-! ### Runs -/

/-- The step lemma: the pump is inattentive only after a step that it does not notice. -/
theorem Pump.Attentive.step (ha : s.Attentive) (hok : StepOk s l) (hst : s.step l = some t) :
    t.Attentive := by
  obtain ⟨hex, hacts⟩ := acts_of_step hst
  -- only the end of the process ends it
  have hlives : ∀ {t : Pump}, t.exited = s.exited → t.exited = true → t.pc = .tornDown :=
    fun hsame hex' => absurd (hex.symm.trans (hsame.symm.trans hex')) (by decide)
  cases hacts with
  | register | process | teardown => exact ⟨fun _ _ _ => rfl, hlives rfl⟩
  | check =>
    refine ⟨fun hsh _ _ => ?_, hlives rfl⟩
    have hsh' : s.shutdown = true := hsh
    simp [hsh', PumpPc.waits]
  | issue hpc =>
    -- the flag was set while the pump was already on its way into the call
    refine ⟨fun hsh hc _ => ?_, hlives rfl⟩
    have hw : s.pc.waits = false := ha.notices hsh hc hex
    rw [hpc] at hw
    cases hw
  | @complete r => cases r <;> exact ⟨fun _ _ _ => rfl, hlives rfl⟩
  | requestStore => exact ⟨fun _ hc _ => absurd hc (Nat.succ_ne_zero _), hlives rfl⟩
  | requestCancel hc =>
    refine ⟨fun _ hc' _ => ?_, hlives rfl⟩
    have hone : s.cancelling = 1 := by
      have hzero : s.cancelling - 1 = 0 := hc'
      omega
    have hpc : s.pc ≠ .calling := hok hone
    show s.pc.cancelIo.waits = false
    revert hpc
    cases s.pc <;> simp [PumpPc.cancelIo, PumpPc.waits]
  | pullStore =>
    refine ⟨fun _ hc _ => ?_, hlives rfl⟩
    exact hok.elim (fun hsh => ha.notices hsh hc hex) id
  | rotate => exact ⟨ha.notices, hlives rfl⟩
  | exitProcess => exact ⟨fun _ _ hex' => absurd hex' (by simp), fun _ => hok⟩

/-- And after each such step it is. -/
theorem stepOk_of_attentive (h : s.Inv) (hst : s.step l = some t) (ha : t.Attentive) :
    StepOk s l := by
  obtain ⟨hex, hacts⟩ := acts_of_step hst
  cases hacts with
  | pullStore =>
    by_cases hsh : s.shutdown = true
    · exact .inl hsh
    · have hc : s.cancelling = 0 := by
        by_contra hne
        exact hsh (h.shutdown (Nat.pos_of_ne_zero hne))
      exact .inr (ha.notices rfl hc hex)
  | requestCancel hc =>
    intro hone hpc
    have hnone : s.cancelling - 1 = 0 := by rw [hone]
    have hw : s.pc.cancelIo.waits = false := ha.notices (h.shutdown hc) hnone hex
    rw [hpc] at hw
    cases hw
  | exitProcess => exact ha.outlived rfl
  | _ => trivial

/-- A stop by Ctrl+C while the pump waits for an event. The watchdog comes last. -/
def requestWhileBlocked : List Label :=
  [.register, .check, .issue, .complete (.event (some "e")), .process true, .check, .issue,
    .requestStore, .requestCancel, .complete .operationAborted, .teardown, .exitProcess]

/-- A profile pull that asks for a restart while the pump waits for an event. -/
def pullWhileBlocked : List Label :=
  [.register, .check, .issue, .complete (.event (some "e")), .process true, .check, .issue,
    .pullStore]

end Agent

end WazabiAgent
