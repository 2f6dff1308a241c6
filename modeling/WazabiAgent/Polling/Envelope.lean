import WazabiAgent.Lib.JsonText
import WazabiAgent.Lib.KeyedMap

/-!
# What the polling threads share

Two threads look at Windows every `interval` (`polling/`), one at the services and one at the
scheduled tasks. Each compares what it finds with its previous snapshot and submits the differences
to the kernel spool, in the envelope of `polling/envelope.rs`.

The two loops are the same but for the scan and the comparison: a scan without a result leaves
everything as it is, and the first snapshot can be taken in silence. `SHUTDOWN` ends a loop before
any turn, so a run may end anywhere.

## Ghost state

`Emission.emitted` has every event that was made into a line, whether or not the spool took it.

## Main definitions

* `PersistenceEvent` — an event and its line
* `Poller`, `Poller.take` — a turn of the loop
-/

namespace WazabiAgent

namespace Polling

/-! ### Events -/

/-- A service is there that was not. -/
def etServiceCreate : String := "service_create"

/-- The configuration of a service changed. -/
def etServiceModify : String := "service_modify"

/-- A service is gone. -/
def etServiceDelete : String := "service_delete"

/-- A service began to run. -/
def etServiceStart : String := "service_start"

/-- A service stopped. -/
def etServiceStop : String := "service_stop"

/-- A task is there that was not. -/
def etTaskCreate : String := "scheduled_task_create"

/-- The file of a task changed. -/
def etTaskModify : String := "scheduled_task_modify"

/-- A task is gone. -/
def etTaskDelete : String := "scheduled_task_delete"

/-- An event of a poller. -/
structure PersistenceEvent where
  eventType : String
  kind : String
  eventVersion : ℕ
  payload : Json
  deriving DecidableEq

namespace PersistenceEvent

/-- `Envelope`, at the time `ts`. -/
def envelope (e : PersistenceEvent) (ts : String) : Json :=
  .object [
    ("ts", .string ts),
    ("module", .string "persistence"),
    ("event_type", .string e.eventType),
    ("raw", e.payload),
    ("source", .string "polling"),
    ("kind", .string e.kind),
    ("event_version", .number (toString e.eventVersion))]

/-- `into_ndjson_line`. -/
def intoNdjsonLine (e : PersistenceEvent) (ts : String) : String := (e.envelope ts).compact ++ "\n"

end PersistenceEvent

/-! ### Emission -/

/-- The clock and the spool, at the n-th event of the thread. -/
structure EmitEnv where
  nowIso8601 : ℕ → String
  trySubmit : ℕ → Bool

/-- What has been emitted, and the statistics. -/
structure Emission where
  emitted : List PersistenceEvent := []
  submitted : List String := []
  counter : ℕ := 0
  dropped : ℕ := 0

namespace Emission

variable {env : EmitEnv} {o : Emission}

/-- Hands an event to the spool; the spool may refuse it. -/
def emit (env : EmitEnv) (o : Emission) (evt : PersistenceEvent) : Emission where
  emitted := o.emitted ++ [evt]
  submitted :=
    if env.trySubmit o.counter then o.submitted ++ [evt.intoNdjsonLine (env.nowIso8601 o.counter)]
    else o.submitted
  counter := o.counter + 1
  dropped := if env.trySubmit o.counter then o.dropped else o.dropped + 1

/-- Hands the events over one after the other. -/
def emitAll (env : EmitEnv) (o : Emission) (evts : List PersistenceEvent) : Emission :=
  evts.foldl (emit env) o

/-- Each event is counted, and submitted or dropped. -/
def Balanced (o : Emission) : Prop :=
  o.counter = o.emitted.length ∧ o.submitted.length + o.dropped = o.counter

theorem Balanced.emit (h : o.Balanced) (evt : PersistenceEvent) : (o.emit env evt).Balanced := by
  obtain ⟨hcounter, hsum⟩ := h
  refine ⟨by simp [Emission.emit, hcounter], ?_⟩
  unfold Emission.emit
  dsimp only
  split_ifs
  · rw [List.length_append, List.length_singleton]
    omega
  · omega

theorem Balanced.emitAll (h : o.Balanced) (evts : List PersistenceEvent) :
    (o.emitAll env evts).Balanced := by
  induction evts generalizing o with
  | nil => exact h
  | cons evt evts ih => exact ih (h.emit evt)

theorem emitted_emitAll (evts : List PersistenceEvent) :
    (o.emitAll env evts).emitted = o.emitted ++ evts := by
  induction evts generalizing o with
  | nil => exact (List.append_nil _).symm
  | cons evt evts ih =>
    have hstep : (o.emitAll env (evt :: evts)).emitted = (o.emit env evt).emitted ++ evts := ih
    rw [hstep, emit, List.append_assoc, List.singleton_append]

end Emission

/-! ### The loop -/

/-- The variables of `run`, for snapshots with values in `β`. -/
structure Poller (β : Type) where
  prev : KeyedMap String β := ∅
  first : Bool := true
  out : Emission := {}

namespace Poller

variable {β : Type} {env : EmitEnv} {silentFirst : Bool} {p : Poller β}
  {diff : KeyedMap String β → KeyedMap String β → List PersistenceEvent}

/-- The events that a new snapshot gives rise to. -/
def events (silentFirst : Bool)
    (diff : KeyedMap String β → KeyedMap String β → List PersistenceEvent) (p : Poller β)
    (snapshot : Option (KeyedMap String β)) : List PersistenceEvent :=
  match snapshot with
  | none => []
  | some next => if p.first && silentFirst then [] else diff p.prev next

/-- The rest of a turn, after the scan. -/
def take (silentFirst : Bool)
    (diff : KeyedMap String β → KeyedMap String β → List PersistenceEvent) (env : EmitEnv)
    (p : Poller β) (snapshot : Option (KeyedMap String β)) : Poller β :=
  match snapshot with
  -- the previous snapshot is kept
  | none => p
  | some next =>
    { prev := next
      first := false
      out := p.out.emitAll env (p.events silentFirst diff (some next)) }

theorem emitted_take (snapshot : Option (KeyedMap String β)) :
    (p.take silentFirst diff env snapshot).out.emitted
      = p.out.emitted ++ p.events silentFirst diff snapshot := by
  cases snapshot with
  | none => exact (List.append_nil _).symm
  | some next => exact Emission.emitted_emitAll _

theorem balanced_take (h : p.out.Balanced) (snapshot : Option (KeyedMap String β)) :
    (p.take silentFirst diff env snapshot).out.Balanced := by
  cases snapshot with
  | none => exact h
  | some next => exact h.emitAll _

end Poller

end Polling

end WazabiAgent
