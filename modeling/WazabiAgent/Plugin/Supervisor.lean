import WazabiAgent.Lib.Transition
import WazabiAgent.Lib.Utf8
import WazabiAgent.Plugin.Manifest

/-!
# One supervised plugin

`supervise_one` (`plugin/supervisor.rs`) as a state machine: the thread that spawns a plugin,
waits for it while polling its manifest, and spawns it again.

## Time and interleaving

Durations are milliseconds. The clock, the manifest file, the child and `SHUTDOWN` are moved by
labels of their own, which may come between any two actions of the thread, so a sleep may last
longer than asked for and a child may live for any time, also none.

The five second poll of the manifest is inside the wait for a running child and nowhere else.
Both back-off branches, a spawn that fails and a child that exits, go back to the spawn without
it.

## Main definitions

* `Plugin.readManifest`, `nextBackoff` — the pure parts
* `Plugin.waitTurn`, `onOutcome` — one turn of `wait_for_exit_or_change`, and the match on its
  outcome
* `Plugin.Supervisor`, `Supervisor.step` — the thread with its surroundings
-/

namespace WazabiAgent

namespace Plugin

/-! ### Constants and pure parts -/

/-- `MAX_BACKOFF`. -/
def maxBackoff : ℕ := 60000

/-- `INITIAL_BACKOFF`. -/
def initialBackoff : ℕ := 1000

/-- `STABLE_THRESHOLD`. -/
def stableThreshold : ℕ := 300000

/-- `MANIFEST_POLL`. -/
def manifestPoll : ℕ := 5000

/-- The slice in which the wait for a child polls. -/
def waitPoll : ℕ := 250

/-- `next_backoff`: doubled, and capped. -/
def nextBackoff (prev : ℕ) : ℕ :=
  let next := prev * 2
  if next > maxBackoff then maxBackoff else next

/-- `short_id`, for log lines and thread names. The cut is made at a byte, so there is a text for
which it panics. -/
def shortId (id : String) : Option String :=
  if 8 < id.utf8ByteSize then Utf8.sliceTo 8 id else some id

/-- `ManifestState`. -/
inductive ManifestState
  | unchanged
  | changed (m : PluginManifest)
  | revoked
  | missing
  | readError
  deriving DecidableEq, Repr

/-- The state that makes the supervisor respawn with another manifest. -/
def ManifestState.IsChanged : ManifestState → Prop
  | .changed _ => True
  | _ => False

instance : DecidablePred ManifestState.IsChanged := fun st =>
  match st with
  | .changed _ => isTrue trivial
  | .unchanged | .revoked | .missing | .readError => isFalse id

/-- `read_manifest`: compare the file with what the supervisor holds. Only the path and the hash
count as a change. -/
def readManifest (r : ManifestRead) (current : PluginManifest) : ManifestState :=
  match r with
  | .notFound => .missing
  | .ioError => .readError
  | .bytes none => .readError
  | .bytes (some m) =>
    if m.revoked then .revoked
    else if m.expectedSha256 ≠ current.expectedSha256 ∨ m.expectedPath ≠ current.expectedPath then
      .changed m
    else .unchanged

theorem readManifest_eq_changed {f : ManifestFile} {io : Bool} {current m : PluginManifest}
    (h : readManifest (f.read io) current = .changed m) : f = .manifest m := by
  cases io with
  | true => simp [ManifestFile.read, readManifest] at h
  | false =>
    cases f with
    | absent => simp [ManifestFile.read, readManifest] at h
    | corrupt => simp [ManifestFile.read, readManifest] at h
    | manifest n =>
      simp only [ManifestFile.read, readManifest] at h
      split_ifs at h with hrev hchg
      exact congrArg _ (ManifestState.changed.inj h)

/-- `WaitOutcome`. The exit status is only printed. -/
inductive WaitOutcome
  | childExited
  | revoked
  | updated (m : PluginManifest)
  | shutdown
  deriving DecidableEq, Repr

/-! ### The thread and its surroundings -/

/-- Where the thread is. -/
inductive Pc
  /-- At the head of `while !SHUTDOWN`. -/
  | loopHead
  /-- In `sleep_with_shutdown(backoff)`. -/
  | backingOff (wakeAt : ℕ)
  /-- In `wait_for_exit_or_change`; the next turn starts at `wakeAt` at the earliest. -/
  | waiting (started lastManifestCheck wakeAt : ℕ)
  /-- `supervise_one` has returned. -/
  | returned
  deriving DecidableEq, Repr

/-- A spawn attempt, as the run remembers it. -/
structure Attempt where
  /-- The manifest the attempt was made with. -/
  used : PluginManifest
  /-- The manifest file at that moment. -/
  disk : ManifestFile
  /-- What the file has held from then on. -/
  versions : List ManifestFile
  deriving DecidableEq, Repr

/-- A `supervise_one` thread with the manifest file, the child and `SHUTDOWN`. -/
structure Supervisor where
  pc : Pc
  current : PluginManifest
  backoff : ℕ
  clock : ℕ
  shutdown : Bool
  disk : ManifestFile
  childAlive : Bool
  /-- The attempts made so far, the newest first. -/
  attempts : List Attempt
  deriving DecidableEq, Repr

/-- What can happen next. -/
inductive Label
  /-- Time passes. -/
  | tick (d : ℕ)
  /-- Somebody writes or removes the manifest file. -/
  | edit (f : ManifestFile)
  /-- The child ends by itself. -/
  | childExits
  /-- `SHUTDOWN` is raised. -/
  | raiseShutdown
  /-- The thread tests `SHUTDOWN` and, if it is not set, spawns, with the given success. -/
  | spawn (ok : Bool)
  /-- The thread comes back from `sleep_with_shutdown`. -/
  | wake
  /-- One turn of the wait: does `try_wait` fail, does reading the manifest fail. -/
  | poll (tryWaitFails ioError : Bool)
  deriving DecidableEq, Repr

/-- The state `supervise_one` starts in, with the manifest the scan found. -/
def Supervisor.start (initial : PluginManifest) (disk : ManifestFile) : Supervisor where
  pc := .loopHead
  current := initial
  backoff := initialBackoff
  clock := 0
  shutdown := false
  disk := disk
  childAlive := false
  attempts := []

/-- The attempt that a spawn would be now. -/
def Supervisor.attempt (s : Supervisor) : Attempt := ⟨s.current, s.disk, [s.disk]⟩

/-- One turn of `wait_for_exit_or_change`: an outcome, or the time of the last manifest check with
which to go on. -/
def waitTurn (s : Supervisor) (last : ℕ) (tryWaitFails ioError : Bool) : WaitOutcome ⊕ ℕ :=
  if tryWaitFails ∨ s.childAlive = false then .inl .childExited
  else if s.shutdown then .inl .shutdown
  else if manifestPoll ≤ s.clock - last then
    match readManifest (s.disk.read ioError) s.current with
    | .missing => .inl .revoked
    | .revoked => .inl .revoked
    | .changed m => .inl (.updated m)
    | .unchanged => .inr s.clock
    | .readError => .inr s.clock
  else .inr last

/-- The match on the outcome in `supervise_one`. In the last three cases the child has been
killed, or has ended within the grace period. -/
def onOutcome (s : Supervisor) (started : ℕ) : WaitOutcome → Supervisor
  | .childExited =>
    if s.shutdown then { s with pc := .returned }
    else
      let backoff := if stableThreshold ≤ s.clock - started then initialBackoff else s.backoff
      { s with pc := .backingOff (s.clock + backoff), backoff := backoff }
  | .updated m =>
    { s with pc := .loopHead, current := m, backoff := initialBackoff, childAlive := false }
  | .revoked => { s with pc := .returned, childAlive := false }
  | .shutdown => { s with pc := .returned, childAlive := false }

/-- The transition function. -/
def Supervisor.step (s : Supervisor) : Label → Option Supervisor
  | .tick d => some { s with clock := s.clock + d }
  | .edit f => some { s with
      disk := f
      attempts := s.attempts.modifyHead fun a => { a with versions := f :: a.versions } }
  | .childExits => if s.childAlive then some { s with childAlive := false } else none
  | .raiseShutdown => some { s with shutdown := true }
  | .spawn ok =>
    match s.pc with
    | .loopHead =>
      if s.shutdown then some { s with pc := .returned }
      else if ok then some { s with
        pc := .waiting s.clock s.clock s.clock
        childAlive := true
        attempts := s.attempt :: s.attempts }
      else some { s with
        pc := .backingOff (s.clock + s.backoff)
        attempts := s.attempt :: s.attempts }
    | _ => none
  | .wake =>
    match s.pc with
    | .backingOff wakeAt =>
      if s.shutdown then some { s with pc := .returned }
      else if wakeAt ≤ s.clock then
        some { s with pc := .loopHead, backoff := nextBackoff s.backoff }
      else none
    | _ => none
  | .poll tryWaitFails ioError =>
    match s.pc with
    | .waiting started last wakeAt =>
      if wakeAt ≤ s.clock then
        match waitTurn s last tryWaitFails ioError with
        | .inl outcome => some (onOutcome s started outcome)
        | .inr last => some { s with pc := .waiting started last (s.clock + waitPoll) }
      else none
    | _ => none

end Plugin

end WazabiAgent
