import WazabiAgent.Lib.Binary
import WazabiAgent.Lib.Transition
import WazabiAgent.Polling.Envelope

/-!
# Polling the services

`polling/services.rs` lists the Win32 services with the calls of the Service Control Manager, asks
for the configuration of those that may have changed, and compares the result with the previous
snapshot.

A call goes through or fails. What goes through answers with what the SCM has, and what fails leaves
its mark in the snapshot: a size probe that fails leaves no size behind, which is taken for an empty
list, and a service whose configuration cannot be read gets an empty one.

## Ghost state

`seen` is what the SCM had of each service at the previous snapshot. A configuration that was
carried over, and not asked for, is the one that the SCM had when it was last asked for.

## Main definitions

* `Cycle`, `enumerateServices` — a snapshot, by the answers of the SCM
* `computeDiff`, `diffAndEmit` — the comparison
* `Services`, `Services.cycle` — the loop
-/

namespace WazabiAgent

namespace Polling

open Binary (utf16Lossy)

open LabelledStep

/-! ### The SCM -/

/-- What a pointer to a wide string leads to; the null pointer leads nowhere. -/
abbrev WideStr := Option (List ℕ)

/-- `MAX_WIDE_CHARS`. -/
def maxWideChars : ℕ := 4096

/-- `wide_to_string`. -/
def wideToString : WideStr → String
  | none => ""
  | some units => String.ofList (utf16Lossy ((units.take maxWideChars).takeWhile (· ≠ 0)))

/-- `ENUM_SERVICE_STATUS_PROCESSW`. -/
structure EnumServiceStatus where
  serviceName : WideStr
  displayName : WideStr
  currentState : ℕ

namespace EnumServiceStatus

/-- The name of the service as text. -/
def name (e : EnumServiceStatus) : String := wideToString e.serviceName

/-- `SERVICE_RUNNING` is the only state that counts as running. -/
def running (e : EnumServiceStatus) : Bool := e.currentState = 4

end EnumServiceStatus

/-- `QUERY_SERVICE_CONFIGW`. -/
structure RawConfig where
  binaryPathName : WideStr
  startType : UInt32
  serviceType : UInt32
  serviceStartName : WideStr

/-- The result of `query_service_config`. -/
structure ServiceConfig where
  binaryPath : String := ""
  startType : UInt32 := 0
  serviceType : UInt32 := 0
  account : String := ""
  deriving DecidableEq

/-- The default of each component. -/
def ServiceConfig.blank : ServiceConfig := {}

/-- The configuration as text and numbers. -/
def RawConfig.read (q : RawConfig) : ServiceConfig where
  binaryPath := wideToString q.binaryPathName
  startType := q.startType
  serviceType := q.serviceType
  account := wideToString q.serviceStartName

/-- What a cycle keeps of a service. -/
structure ServiceSnapshot extends ServiceConfig where
  displayName : String
  running : Bool
  deriving DecidableEq

/-- What the SCM has while a snapshot is taken. -/
structure Scm where
  services : List EnumServiceStatus
  config : String → RawConfig

/-- What a call that fills a buffer answers. -/
inductive FillReply
  | filled
  | failed (lastError bytesNeeded : ℕ)

/-- How the calls of one turn end. -/
structure ScmCalls where
  openScManager : Bool
  /-- What the size probe leaves behind. -/
  bytesNeeded : ℕ
  /-- The n-th call with a buffer, by its length. -/
  fill : ℕ → ℕ → FillReply
  openService : String → Bool
  /-- What the first `QueryServiceConfigW` leaves behind, and how the second ends. -/
  configBytes : String → ℕ
  queryServiceConfig : String → Bool

/-- What a cycle meets: the services, the outcomes of the calls and the clock. -/
structure Cycle where
  scm : Scm
  calls : ScmCalls
  env : EmitEnv

namespace Cycle

/-- `MAX_RETRIES`. -/
def maxRetries : ℕ := 3

/-- `ERROR_MORE_DATA`. -/
def errorMoreData : ℕ := 234

/-- The calls with a growing buffer, of which `n` are left. -/
def fillServices (fill : ℕ → ℕ → FillReply) : ℕ → ℕ → ℕ → Bool
  | 0, _, _ => false
  | n + 1, i, bufSize =>
    match fill i bufSize with
    | .filled => true
    | .failed lastError bytesNeeded =>
      if lastError ≠ errorMoreData then false
      else fillServices fill n (i + 1) (max bytesNeeded (bufSize + bufSize / 4))

/-- What the enumeration lists. -/
def listing (c : Cycle) : Option (List EnumServiceStatus) :=
  if !c.calls.openScManager then none
  else if c.calls.bytesNeeded = 0 then some []
  else if fillServices c.calls.fill maxRetries 0 c.calls.bytesNeeded then some c.scm.services
  else none

/-- `query_service_config`. -/
def queryServiceConfig (c : Cycle) (name : String) : Option ServiceConfig :=
  if !c.calls.openService name then none
  else if c.calls.configBytes name = 0 then none
  else if !c.calls.queryServiceConfig name then none
  else some (c.scm.config name).read

end Cycle

/-! ### Snapshots -/

/-- The services by name. -/
abbrev Snapshots := KeyedMap String ServiceSnapshot

/-- The configuration that is not asked for again. -/
def carriedOver (prev : Snapshots) (fullRescan : Bool) (e : EnumServiceStatus) :
    Option ServiceConfig :=
  match prev.lookup e.name with
  | none => none
  | some p =>
    if !fullRescan && p.running = e.running && p.binaryPath ≠ "" then some p.toServiceConfig
    else none

theorem config_of_carriedOver {prev : Snapshots} {fullRescan : Bool} {e : EnumServiceStatus}
    {p : ServiceSnapshot} {config : ServiceConfig} (hp : prev.lookup e.name = some p)
    (h : carriedOver prev fullRescan e = some config) : p.toServiceConfig = config := by
  rw [carriedOver, hp] at h
  dsimp only at h
  split_ifs at h
  exact Option.some.inj h

/-- The snapshot of one service. -/
def snapshotOf (c : Cycle) (prev : Snapshots) (fullRescan : Bool) (e : EnumServiceStatus) :
    ServiceSnapshot where
  toServiceConfig :=
    match carriedOver prev fullRescan e with
    | some config => config
    | none => (c.queryServiceConfig e.name).getD .blank
  displayName := wideToString e.displayName
  running := e.running

/-- The services that have a name. -/
def named (es : List EnumServiceStatus) : List EnumServiceStatus := es.filter fun e => e.name ≠ ""

/-- `enumerate_services`. -/
def enumerateServices (c : Cycle) (prev : Snapshots) (fullRescan : Bool) : Option Snapshots :=
  c.listing.map fun es =>
    KeyedMap.collect EnumServiceStatus.name (snapshotOf c prev fullRescan) (named es)

/-- The entry of a name in a listing. -/
def entryOf (es : List EnumServiceStatus) (name : String) : Option EnumServiceStatus :=
  KeyedMap.lastOf EnumServiceStatus.name (named es) name

theorem name_of_entryOf {es : List EnumServiceStatus} {name : String} {e : EnumServiceStatus}
    (h : entryOf es name = some e) : e.name = name := KeyedMap.key_of_lastOf h

theorem lookup_enumerateServices {c : Cycle} {prev next : Snapshots} {fullRescan : Bool}
    {es : List EnumServiceStatus} (hes : c.listing = some es)
    (h : enumerateServices c prev fullRescan = some next) (name : String) :
    next.lookup name = (entryOf es name).map (snapshotOf c prev fullRescan) := by
  rw [enumerateServices, hes, Option.map_some, Option.some.injEq] at h
  rw [← h, KeyedMap.lookup_collect, entryOf]

/-! ### Comparison -/

/-- A change of a service. -/
structure DiffEntry where
  eventType : String
  kind : String
  name : String
  deriving DecidableEq

/-- What `compute_diff` makes of a service in the new snapshot. -/
def entriesOf (name : String) (old : Option ServiceSnapshot) (snap : ServiceSnapshot) :
    List DiffEntry :=
  match old with
  | none => [⟨etServiceCreate, "ServiceCreate", name⟩]
  | some old =>
    if old = snap then []
    else
      (if old.running ≠ snap.running then
          [⟨if snap.running then etServiceStart else etServiceStop,
            if snap.running then "ServiceStart" else "ServiceStop", name⟩]
        else []) ++
      (if old.binaryPath ≠ snap.binaryPath ∨ old.startType ≠ snap.startType ∨
            old.serviceType ≠ snap.serviceType ∨ old.account ≠ snap.account ∨
            old.displayName ≠ snap.displayName then
          [⟨etServiceModify, "ServiceModify", name⟩]
        else [])

/-- The changes between two snapshots, in the order of the code's loops. -/
def computeDiff (prev next : Snapshots) : List DiffEntry :=
  KeyedMap.diffWith entriesOf (fun name _ => [⟨etServiceDelete, "ServiceDelete", name⟩]) prev next

/-- The name of a start type. -/
def startTypeLabel (t : UInt32) : String :=
  if t = 0 then "boot"
  else if t = 1 then "system"
  else if t = 2 then "auto"
  else if t = 3 then "manual"
  else if t = 4 then "disabled"
  else "unknown"

/-- What the event says of the service before the change. -/
def previousMembers (p : ServiceSnapshot) : List (String × Json) :=
  [("binary_path", .string p.binaryPath),
    ("start_type", .number (toString p.startType.toNat)),
    ("service_type", .number (toString p.serviceType.toNat)),
    ("account", .string p.account),
    ("running", .bool p.running)]

/-- The payload of an event about a service. -/
def buildPayload (name : String) (snap : ServiceSnapshot) (prev : Option ServiceSnapshot) : Json :=
  let v := Json.ofMembers [
    ("name", .string name),
    ("display_name", .string snap.displayName),
    ("binary_path", .string snap.binaryPath),
    ("start_type", .number (toString snap.startType.toNat)),
    ("start_type_label", .string (startTypeLabel snap.startType)),
    ("service_type", .number (toString snap.serviceType.toNat)),
    ("account", .string snap.account),
    ("running", .bool snap.running)]
  match prev with
  | none => .object v
  | some p => .object (Json.insert "previous" (.object (Json.ofMembers (previousMembers p))) v)

/-- The event that `diff_and_emit` makes of an entry. -/
def DiffEntry.event (prev next : Snapshots) (entry : DiffEntry) : Option PersistenceEvent :=
  let snapForPayload := (next.lookup entry.name).or (prev.lookup entry.name)
  let prevSnap := if entry.eventType = etServiceDelete then none else prev.lookup entry.name
  snapForPayload.map fun snap => {
    eventType := entry.eventType
    kind := entry.kind
    eventVersion := 1
    payload := buildPayload entry.name snap prevSnap }

/-- The events of `diff_and_emit`. -/
def diffAndEmit (prev next : Snapshots) : List PersistenceEvent :=
  (computeDiff prev next).filterMap (DiffEntry.event prev next)

theorem get_name_buildPayload (name : String) (snap : ServiceSnapshot)
    (prev : Option ServiceSnapshot) :
    (buildPayload name snap prev).get "name" = some (.string name) := by
  cases prev <;> simp [buildPayload, Json.ofMembers, Json.get_insert]

/-! ### The loop -/

/-- `FULL_RESCAN_EVERY`. -/
def fullRescanEvery : ℕ := 10

/-- The variables of `run`. -/
structure Services extends Poller ServiceSnapshot where
  cyclesSinceFull : ℕ := 0
  seen : String → Option ServiceSnapshot := fun _ => none

namespace Services

/-- The cycle reads every configuration again. -/
def fullRescan (s : Services) : Bool := fullRescanEvery ≤ s.cyclesSinceFull

/-- The snapshot that a cycle takes. -/
def snapshot (s : Services) (c : Cycle) : Option Snapshots :=
  enumerateServices c s.prev s.fullRescan

/-- What the SCM has of a service, with a configuration that is carried over as it was seen. -/
def seenOf (s : Services) (c : Cycle) (e : EnumServiceStatus) : ServiceSnapshot where
  toServiceConfig :=
    match carriedOver s.prev s.fullRescan e, s.seen e.name with
    | some _, some r => r.toServiceConfig
    | _, _ => (c.scm.config e.name).read
  displayName := wideToString e.displayName
  running := e.running

/-- What a cycle sees of a service. -/
def seenAt (s : Services) (c : Cycle) (name : String) : Option ServiceSnapshot :=
  (entryOf c.scm.services name).map (s.seenOf c)

/-- One turn of `run`. -/
def cycle (silentFirst : Bool) (s : Services) (c : Cycle) : Services :=
  match s.snapshot c with
  -- "skipping cycle"
  | none => s
  | some next =>
    { toPoller := s.toPoller.take silentFirst diffAndEmit c.env (some next)
      cyclesSinceFull := if s.fullRescan then 0 else s.cyclesSinceFull + 1
      seen := s.seenAt c }

/-- The events of a turn. -/
def events (silentFirst : Bool) (s : Services) (c : Cycle) : List PersistenceEvent :=
  s.toPoller.events silentFirst diffAndEmit (s.snapshot c)

theorem toPoller_cycle (silentFirst : Bool) (s : Services) (c : Cycle) :
    (s.cycle silentFirst c).toPoller
      = s.toPoller.take silentFirst diffAndEmit c.env (s.snapshot c) := by
  rw [cycle]
  cases s.snapshot c with
  | none => rfl
  | some next => rfl

theorem emitted_cycle (silentFirst : Bool) (s : Services) (c : Cycle) :
    (s.cycle silentFirst c).out.emitted = s.out.emitted ++ s.events silentFirst c := by
  rw [toPoller_cycle, Poller.emitted_take, events]

/-- A turn is always possible. -/
def step (silentFirst : Bool) (s : Services) (c : Cycle) : Option Services :=
  some (s.cycle silentFirst c)

/-- All that was emitted is counted, and submitted or dropped. -/
theorem balanced_of_run {silentFirst : Bool} {cycles : List Cycle} {s : Services}
    (h : run (step silentFirst) {} cycles = some s) : s.out.Balanced := by
  refine invariant_of_run (I := fun s => s.out.Balanced) (fun s c t hs hst => ?_) ⟨rfl, rfl⟩ h
  rw [← Option.some.inj hst]
  rw [toPoller_cycle]
  exact Poller.balanced_take hs _

end Services

end Polling

end WazabiAgent
