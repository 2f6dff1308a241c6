import WazabiAgent.Etw.ScriptContent
import WazabiAgent.Lib.JsonRead
import WazabiAgent.Lib.JsonValue
import WazabiAgent.Lib.Transition
import WazabiAgent.Plugin.Handshake

/-!
# The session with the providers of Windows

`etw::spawn` subscribes to up to six providers. A callback turns a record of its provider into an
event, if the record is of interest, and hands the line of the event to the spool of the kernel
events (`etw/mod.rs`).

Windows delivers a record under the GUID of its provider. Whether there is a schema for it, whether
the spool has room, and the clock are up to each delivery. A handler that panics ends the agent.

## Main definitions

* `Provider.handle` — the handlers of the six modules
* `EtwEvent.envelope`, `intoNdjsonLine` — the line of an event
* `Session.step` — a delivery

## Main results

* `session_of_run` — what the spool and the counters have after any deliveries
-/

namespace WazabiAgent

namespace Etw

open LabelledStep
open Utf8 (Fits)

/-! ### Handlers -/

/-- A record with what only the network provider has. -/
structure Record extends EventRecord where
  /-- The properties that `try_parse` reads as an address, as text. -/
  address : String → Option String
  /-- Those that it reads as `u16`. -/
  port : String → Option ℕ

/-- The type of a DNS event. -/
def etDnsQuery : String := "dns_query"

/-- The type of a TCP event. -/
def etNetworkConnect : String := "network_connect"

/-- The type of a PowerShell event. -/
def etPowershellScript : String := "powershell_script"

/-- The type of a WMI event. -/
def etWmiActivity : String := "wmi_activity"

/-- The type of an Schannel event. -/
def etTlsHandshake : String := "tls_handshake"

/-- The type of an AMSI event. -/
def etAmsiScan : String := "amsi_scan"

namespace Dns

/-- A DNS query that was answered. -/
def evtCompleted : ℕ := 3008

/-- A DNS query that timed out. -/
def evtTimeout : ℕ := 3009

/-- The parts of a `;`-joined list that are not empty. -/
def answers (queryResults : String) : List String :=
  ((queryResults.toList.splitOn ';').filter (· ≠ [])).map String.ofList

example : answers "1:192.0.2.7;;28:2001:db8::7;" = ["1:192.0.2.7", "28:2001:db8::7"] := by decide

/-- `dns::handle`. -/
def handle (record : EventRecord) : Option EtwEvent :=
  let queryName := (record.text "QueryName").getD ""
  if record.eventId ≠ evtCompleted ∧ record.eventId ≠ evtTimeout ∨ queryName = "" then none
  else some {
    eventType := etDnsQuery
    kind := "DnsQuery"
    eventVersion := 1
    pid := some record.processId
    processName := none
    payload := .object (Json.ofMembers [("pid", numeral record.processId),
      ("query_name", .string queryName),
      ("query_type", numeral ((record.number "QueryType").getD 0)),
      ("query_status", numeral ((record.number "QueryStatus").getD 0)),
      ("answers", .array ((answers ((record.text "QueryResults").getD "")).map .string)),
      ("timed_out", .bool (record.eventId = evtTimeout))]) }

end Dns

namespace Tcp

/-- The protocol and whether the event is about IPv6. -/
def protocol (id : ℕ) : Option (String × Bool) :=
  if id = 12 then some ("tcp", false)
  else if id = 28 then some ("tcp", true)
  else if id = 42 then some ("udp", false)
  else if id = 58 then some ("udp", true)
  else none

/-- `tcp::handle`. -/
def handle (record : Record) : Option EtwEvent := do
  let (proto, isV6) ← protocol record.eventId
  let daddr := (record.address "daddr").getD ""
  let saddr := (record.address "saddr").getD ""
  let pid := ((record.number "ProcessId").or (record.number "PID")).getD record.processId
  if daddr = "" ∧ saddr = "" then none
  else some {
    eventType := etNetworkConnect
    kind := if proto = "tcp" then "TcpConnect" else "UdpSend"
    eventVersion := 1
    pid := some pid
    processName := none
    payload := .object (Json.ofMembers [("pid", numeral pid), ("protocol", .string proto),
      ("ip_version", numeral (if isV6 then 6 else 4)), ("dst_ip", .string daddr),
      ("dst_port", numeral ((record.port "dport").getD 0)), ("src_ip", .string saddr),
      ("src_port", numeral ((record.port "sport").getD 0)),
      ("direction", .string "outbound")]) }

end Tcp

namespace Wmi

/-- A WMI operation that starts. -/
def evtOpStarted : ℕ := 5857

/-- A permanent WMI consumer that is bound. -/
def evtPermanentConsumer : ℕ := 5861

/-- The kind of a WMI event; the others are left out. -/
def kindLabel (id : ℕ) : Option String :=
  if id = evtOpStarted then some "WmiOperation"
  else if id = evtPermanentConsumer then some "WmiPermanentConsumer"
  else none

/-- `wmi::handle`. -/
def handle (record : EventRecord) : Option EtwEvent := do
  let kind ← kindLabel record.eventId
  let operation := (record.text "Operation").getD ""
  let namespaceName := (record.text "NamespaceName").getD ""
  let pid := (record.number "ProcessID").getD record.processId
  if record.eventId = evtOpStarted ∧
      (operation = "" ∨ Plugin.eqIgnoreAsciiCase namespaceName "root\\cimv2") then none
  else some {
    eventType := etWmiActivity
    kind := kind
    eventVersion := 1
    pid := some pid
    processName := none
    payload := .object (Json.ofMembers [("pid", numeral pid), ("operation", .string operation),
      ("namespace", .string namespaceName),
      ("provider", .string ((record.text "ProviderName").getD "")),
      ("user", .string ((record.text "User").getD "")),
      ("is_persistence_register", .bool (record.eventId = evtPermanentConsumer))]) }

end Wmi

namespace Schannel

/-- The end of a TLS handshake. -/
def evtHandshakeEnd : ℕ := 36880

/-- `tls_label`. -/
def tlsLabel (v : ℕ) : String :=
  if v = 0x0301 then "TLS1.0"
  else if v = 0x0302 then "TLS1.1"
  else if v = 0x0303 then "TLS1.2"
  else if v = 0x0304 then "TLS1.3"
  else if v = 0x0002 then "SSL2.0"
  else if v = 0x0300 then "SSL3.0"
  else "unknown"

/-- `schannel::handle`. -/
def handle (record : EventRecord) : Option EtwEvent :=
  let targetName := (record.text "TargetName").getD ""
  let protocolVersion := (record.number "ProtocolVersion").getD 0
  if record.eventId ≠ evtHandshakeEnd ∨ targetName = "" ∧ protocolVersion = 0 then none
  else some {
    eventType := etTlsHandshake
    kind := "TlsHandshake"
    eventVersion := 1
    pid := some record.processId
    processName := none
    payload := .object (Json.ofMembers [("pid", numeral record.processId),
      ("sni", .string targetName), ("protocol_version", numeral protocolVersion),
      ("protocol_label", .string (tlsLabel protocolVersion)),
      ("cipher_suite", numeral ((record.number "CipherSuite").getD 0))]) }

end Schannel

/-! ### Providers -/

/-- The ETW providers that the agent can enable. -/
inductive Provider
  | dns
  | tcp
  | powershell
  | wmi
  | schannel
  | amsi
  deriving DecidableEq, Repr

namespace Provider

/-- In the order in which `spawn` enables them. -/
def all : List Provider := [.dns, .tcp, .powershell, .wmi, .schannel, .amsi]

/-- The GUID that a provider is enabled by. -/
def guid : Provider → String
  | .dns => "1c95126e-7eea-49a9-a3fe-a378b03ddb4d"
  | .tcp => "7dd42a49-5329-4832-8dfd-43d979153a88"
  | .powershell => "a0c1853b-5c40-4b15-8766-3cf1c58f985a"
  | .wmi => "1418ef04-b0b4-4623-bf7e-d74ab47bbdaa"
  | .schannel => "91cc1150-71aa-47e2-a679-fbedaccda1a3"
  | .amsi => "2a576b87-09a7-520e-c21a-4942f0271d67"

/-- The handler of the provider's module. The outer `none` is a panic. -/
def handle (record : Record) : Provider → Option (Option EtwEvent)
  | .dns => some (Dns.handle record.toEventRecord)
  | .tcp => some (Tcp.handle record)
  | .powershell => Powershell.handle record.toEventRecord
  | .wmi => some (Wmi.handle record.toEventRecord)
  | .schannel => some (Schannel.handle record.toEventRecord)
  | .amsi => Amsi.handle record.toEventRecord

/-- The label that a provider gives its events. -/
def eventType : Provider → String
  | .dns => etDnsQuery
  | .tcp => etNetworkConnect
  | .powershell => etPowershellScript
  | .wmi => etWmiActivity
  | .schannel => etTlsHandshake
  | .amsi => etAmsiScan

theorem guid_injective : Function.Injective guid := by
  intro p q h
  revert h
  cases p <;> cases q <;> decide

theorem eventType_injective : Function.Injective eventType := by
  intro p q h
  revert h
  cases p <;> cases q <;> decide

end Provider

/-- Which providers the operator has not switched off. -/
structure EtwConfig where
  dns : Bool := true
  tcp : Bool := true
  powershell : Bool := true
  wmi : Bool := true
  schannel : Bool := true
  amsi : Bool := true

/-- The switch of a provider. -/
def EtwConfig.flag (cfg : EtwConfig) : Provider → Bool
  | .dns => cfg.dns
  | .tcp => cfg.tcp
  | .powershell => cfg.powershell
  | .wmi => cfg.wmi
  | .schannel => cfg.schannel
  | .amsi => cfg.amsi

/-- The providers of `spawn`. Without one there is no session. -/
def EtwConfig.providers (cfg : EtwConfig) : List Provider := Provider.all.filter cfg.flag

/-! ### Lines -/

namespace EtwEvent

/-- `Envelope`, at the time `ts`. -/
def envelope (e : EtwEvent) (ts : String) : Json :=
  .object (List.reduceOption [
    some ("ts", .string ts),
    some ("module", .string "etw"),
    some ("event_type", .string e.eventType),
    e.pid.map fun pid => ("process", .object (List.reduceOption [
      some ("pid", numeral pid), e.processName.map fun name => ("name", .string name)])),
    -- a `Value`, so that its keys are in order
    some ("raw", e.payload.toValue id),
    some ("source", .string "etw"),
    some ("kind", .string e.kind),
    some ("event_version", numeral e.eventVersion)])

/-- `into_ndjson_line`. A `Value` can always be written. -/
def intoNdjsonLine (e : EtwEvent) (ts : String) : String := (e.envelope ts).compact ++ "\n"

end EtwEvent

/-! ### Deliveries -/

/-- A record under the GUID of its provider, and what the callback meets. -/
structure Delivery where
  guid : String
  record : Record
  /-- `event_schema` finds a schema. -/
  schema : Bool := true
  nowIso8601 : String
  trySubmit : Bool := true

/-- `EtwStats`, with the six counters by their providers. -/
structure EtwStats where
  made : Provider → ℕ := fun _ => 0
  dropped : ℕ := 0

/-- What the callbacks share. -/
structure Session where
  stats : EtwStats := {}
  submitted : List String := []

namespace Session

/-- Count the line of a provider, and hand it to the spool. -/
def ship (s : Session) (p : Provider) (line : String) (accepted : Bool) : Session where
  stats := {
    made := Function.update s.stats.made p (s.stats.made p + 1)
    dropped := if accepted then s.stats.dropped else s.stats.dropped + 1 }
  submitted := if accepted then s.submitted ++ [line] else s.submitted

/-- The callback that `build_provider` registers. No value if the handler panics. -/
def callback (s : Session) (d : Delivery) (p : Provider) : Option Session :=
  if !d.schema then some s
  else (p.handle d.record).map fun
    | none => s
    | some evt => s.ship p (evt.intoNdjsonLine d.nowIso8601) d.trySubmit

/-- A delivery, to the callbacks that are registered under its GUID. -/
def step (cfg : EtwConfig) (s : Session) (d : Delivery) : Option Session :=
  (cfg.providers.filter fun p => p.guid = d.guid).foldlM (fun s p => s.callback d p) s

end Session

/-! ### One delivery -/

/-- The provider that a delivery is for, if it is subscribed to. -/
def Delivery.provider (cfg : EtwConfig) (d : Delivery) : Option Provider :=
  cfg.providers.find? fun p => p.guid = d.guid

/-- What a callback makes of a delivery. -/
def Delivery.event (cfg : EtwConfig) (d : Delivery) : Option (Provider × EtwEvent) :=
  (d.provider cfg).bind fun p =>
    if d.schema then (p.handle d.record).join.map fun evt => (p, evt) else none

/-- A callback that is called returns. -/
def Delivery.Returns (cfg : EtwConfig) (d : Delivery) : Prop :=
  ∀ p ∈ d.provider cfg, d.schema = true → (p.handle d.record).isSome = true

theorem Provider.mem_all (p : Provider) : p ∈ Provider.all := by cases p <;> decide

theorem EtwConfig.nodup_providers (cfg : EtwConfig) : cfg.providers.Nodup :=
  List.Nodup.filter _ (by decide)

/-- At most one provider of a list has a GUID. -/
theorem filter_guid {ps : List Provider} (h : ps.Nodup) (guid : String) :
    (ps.filter fun p => p.guid = guid) = (ps.find? fun p => p.guid = guid).toList := by
  induction ps with
  | nil => rfl
  | cons p ps ih =>
    obtain ⟨hp, hps⟩ := List.nodup_cons.mp h
    by_cases hguid : p.guid = guid
    · have hnone : (ps.filter fun q => q.guid = guid) = [] := by
        refine List.filter_eq_nil_iff.mpr fun q hq hqguid => hp ?_
        have heq : q.guid = p.guid := (of_decide_eq_true hqguid).trans hguid.symm
        exact Provider.guid_injective heq ▸ hq
      rw [List.filter_cons_of_pos (by simpa using hguid), hnone,
        List.find?_cons_of_pos (by simpa using hguid)]
      rfl
    · rw [List.filter_cons_of_neg (by simpa using hguid),
        List.find?_cons_of_neg (by simpa using hguid), ih hps]

theorem mem_provider_iff {cfg : EtwConfig} {d : Delivery} {p : Provider} :
    p ∈ d.provider cfg ↔ cfg.flag p = true ∧ p.guid = d.guid := by
  have hmem : p ∈ cfg.providers ↔ cfg.flag p = true := by
    rw [EtwConfig.providers, List.mem_filter, and_iff_right p.mem_all]
  rw [← hmem]
  constructor
  · intro h
    exact ⟨List.mem_of_find?_eq_some h, by simpa using List.find?_some h⟩
  · rintro ⟨hp, hguid⟩
    cases hfind : d.provider cfg with
    | none => exact absurd hguid (by simpa using List.find?_eq_none.mp hfind p hp)
    | some q =>
      have hq : q.guid = d.guid := by simpa using List.find?_some hfind
      exact congrArg some (Provider.guid_injective (hq.trans hguid.symm))

theorem step_eq (cfg : EtwConfig) (s : Session) (d : Delivery) :
    s.step cfg d = match d.provider cfg with
      | none => some s
      | some p => s.callback d p := by
  rw [Session.step, filter_guid cfg.nodup_providers, Delivery.provider]
  cases cfg.providers.find? fun p => p.guid = d.guid with
  | none => rfl
  | some p => exact bind_pure _

/-- A delivery is passed over, or its line is shipped. -/
theorem step_eq_some_iff {cfg : EtwConfig} {s t : Session} {d : Delivery} :
    s.step cfg d = some t ↔ d.Returns cfg ∧ t = match d.event cfg with
      | none => s
      | some (p, evt) => s.ship p (evt.intoNdjsonLine d.nowIso8601) d.trySubmit := by
  have hpass {r : Session} {P : Prop} (hP : P) : some r = some t ↔ P ∧ t = r :=
    ⟨fun h => ⟨hP, (Option.some.inj h).symm⟩, fun h => congrArg some h.2.symm⟩
  rw [step_eq, Delivery.event, Delivery.Returns]
  cases d.provider cfg with
  | none => exact hpass (by simp)
  | some p =>
    rw [Option.bind_some]
    change s.callback d p = some t ↔ _
    unfold Session.callback
    cases d.schema with
    | false => exact hpass (by simp)
    | true =>
      cases hp : p.handle d.record with
      | none => exact iff_of_false (by simp) fun h => absurd (h.1 p rfl rfl) (by simp [hp])
      | some r =>
        have hreturns : ∀ q ∈ some p, true = true → (q.handle d.record).isSome = true := by
          intro q hq _
          obtain rfl := Option.some.inj hq
          rw [hp]
          rfl
        cases r with
        | none => exact hpass hreturns
        | some evt => exact hpass hreturns

/-! ### Events of a provider -/

@[simp] theorem readable_numeral (n : ℕ) : (numeral n).readable = true := Json.readable_nat n

/-- The event of a provider names it, and the process in both places. -/
structure Provider.Describes (p : Provider) (e : EtwEvent) : Prop where
  eventType : e.eventType = p.eventType
  process : ∃ pid, e.pid = some pid ∧ (e.payload.toValue id).get "pid" = some (numeral pid)
  readable : e.payload.readable = true

theorem get_toValue_numeral {fields : List (String × Json)} {key : String} {n : ℕ}
    (hnodup : (fields.map Prod.fst).Nodup) (h : (Json.object fields).get key = some (numeral n)) :
    ((Json.object fields).toValue id).get key = some (numeral n) := by
  rw [Json.get_toValue_of_nodup hnodup, h]
  exact congrArg some (Json.isValue_number _)

theorem get_toValue_ofMembers {members : List (String × Json)} {key : String} {n : ℕ}
    (h : (Json.object (Json.ofMembers members)).get key = some (numeral n)) :
    ((Json.object (Json.ofMembers members)).toValue id).get key = some (numeral n) :=
  get_toValue_numeral (Json.ordered_ofMembers members).nodup h

theorem Dns.describes {record : EventRecord} {e : EtwEvent} (h : handle record = some e) :
    Provider.dns.Describes e := by
  rw [handle] at h
  split_ifs at h
  obtain rfl := Option.some.inj h
  refine ⟨rfl, ⟨_, rfl, get_toValue_ofMembers (by simp [Json.ofMembers, Json.get_insert])⟩,
    Json.readable_ofMembers ?_⟩
  have hanswers (answers : List String) :
      (Json.array (answers.map Json.string)).readable = true := by
    refine Json.readable_array.mpr fun x hx => ?_
    obtain ⟨s, -, rfl⟩ := List.mem_map.mp hx
    rfl
  simp [hanswers]

theorem Tcp.describes {record : Record} {e : EtwEvent} (h : handle record = some e) :
    Provider.tcp.Describes e := by
  rw [handle] at h
  obtain ⟨⟨proto, isV6⟩, -, h⟩ := Option.bind_eq_some_iff.mp h
  dsimp only at h
  split_ifs at h <;> obtain rfl := Option.some.inj h
  all_goals
    refine ⟨rfl, ⟨_, rfl, get_toValue_ofMembers (by simp [Json.ofMembers, Json.get_insert])⟩,
      Json.readable_ofMembers ?_⟩
    simp

theorem Wmi.describes {record : EventRecord} {e : EtwEvent} (h : handle record = some e) :
    Provider.wmi.Describes e := by
  rw [handle] at h
  obtain ⟨kind, -, h⟩ := Option.bind_eq_some_iff.mp h
  dsimp only at h
  split_ifs at h
  obtain rfl := Option.some.inj h
  refine ⟨rfl, ⟨_, rfl, get_toValue_ofMembers (by simp [Json.ofMembers, Json.get_insert])⟩,
    Json.readable_ofMembers ?_⟩
  simp

theorem Schannel.describes {record : EventRecord} {e : EtwEvent} (h : handle record = some e) :
    Provider.schannel.Describes e := by
  rw [handle] at h
  split_ifs at h
  obtain rfl := Option.some.inj h
  refine ⟨rfl, ⟨_, rfl, get_toValue_ofMembers (by simp [Json.ofMembers, Json.get_insert])⟩,
    Json.readable_ofMembers ?_⟩
  simp

theorem Powershell.describes {record : EventRecord} {e : EtwEvent}
    (h : handle record = some (some e)) : Provider.powershell.Describes e := by
  rw [handle] at h
  dsimp only at h
  split_ifs at h
  · cases h
  · obtain ⟨cut, -, h⟩ := Option.bind_eq_some_iff.mp h
    obtain rfl := Option.some.inj (Option.some.inj h)
    exact ⟨rfl, ⟨_, rfl, get_toValue_numeral (by simp) rfl⟩,
      Json.readable_object.mpr (by simp)⟩

theorem Amsi.describes {record : EventRecord} {e : EtwEvent}
    (h : handle record = some (some e)) : Provider.amsi.Describes e := by
  rw [handle] at h
  dsimp only at h
  split_ifs at h
  · cases h
  · obtain ⟨cut, -, h⟩ := Option.bind_eq_some_iff.mp h
    obtain rfl := Option.some.inj (Option.some.inj h)
    exact ⟨rfl, ⟨_, rfl, get_toValue_numeral (by simp) rfl⟩,
      Json.readable_object.mpr (by simp)⟩

/-- What any of the six handlers returns. -/
theorem Provider.describes {p : Provider} {record : Record} {e : EtwEvent}
    (h : p.handle record = some (some e)) : p.Describes e := by
  cases p with
  | dns => exact Dns.describes (Option.some.inj h)
  | tcp => exact Tcp.describes (Option.some.inj h)
  | powershell => exact Powershell.describes h
  | wmi => exact Wmi.describes (Option.some.inj h)
  | schannel => exact Schannel.describes (Option.some.inj h)
  | amsi => exact Amsi.describes h

theorem describes_of_event {cfg : EtwConfig} {d : Delivery} {p : Provider} {e : EtwEvent}
    (h : d.event cfg = some (p, e)) : cfg.flag p = true ∧ p.guid = d.guid ∧ p.Describes e := by
  obtain ⟨q, hq, hevent⟩ := Option.bind_eq_some_iff.mp h
  split_ifs at hevent
  obtain ⟨evt, hevt, hpair⟩ := Option.map_eq_some_iff.mp hevent
  obtain ⟨rfl, rfl⟩ := Prod.mk.inj hpair
  have hflag := mem_provider_iff.mp hq
  exact ⟨hflag.1, hflag.2, Provider.describes (Option.join_eq_some_iff.mp hevt)⟩

/-! ### When the agent survives -/

/-- A script block or a scanned content that is delivered can be cut at its limit. -/
def Delivery.TextsFit (cfg : EtwConfig) (d : Delivery) : Prop :=
  d.schema = true →
    (cfg.powershell = true → d.guid = Provider.powershell.guid → d.record.eventId = 4104 →
      Fits 16384 ((d.record.text "ScriptBlockText").getD "")) ∧
    (cfg.amsi = true → d.guid = Provider.amsi.guid → d.record.eventId = 1101 →
      Fits 16384 ((d.record.text "Content").getD ""))

theorem Powershell.isSome_handle_iff (record : EventRecord) :
    (handle record).isSome = true ↔
      (record.eventId = 4104 → Fits 16384 ((record.text "ScriptBlockText").getD "")) := by
  rw [handle]
  dsimp only
  by_cases hid : record.eventId = 4104
  · rw [← Utf8.isSome_truncate_iff]
    split_ifs with hpass
    · have hempty := hpass.resolve_left (not_not.mpr hid)
      simp [hempty, Utf8.isSome_truncate_iff, fits_empty]
    · simp [hid, maxScriptBytes, Option.isSome_bind]
  · simp [hid]

theorem Amsi.isSome_handle_iff (record : EventRecord) :
    (handle record).isSome = true ↔
      (record.eventId = 1101 → Fits 16384 ((record.text "Content").getD "")) := by
  rw [handle]
  dsimp only
  by_cases hid : record.eventId = 1101
  · rw [← Utf8.isSome_truncate_iff]
    split_ifs with hpass
    · have hempty := (hpass.resolve_left (not_not.mpr hid)).1
      simp [hempty, Utf8.isSome_truncate_iff, fits_empty]
    · simp [hid, maxContentBytes, Option.isSome_bind]
  · simp [hid]

/-- Only the two handlers that cut a text can panic. -/
theorem returns_iff_textsFit {cfg : EtwConfig} {d : Delivery} : d.Returns cfg ↔ d.TextsFit cfg := by
  constructor
  · intro h hschema
    refine ⟨fun hflag hguid => ?_, fun hflag hguid => ?_⟩
    · exact (Powershell.isSome_handle_iff _).mp
        (h .powershell (mem_provider_iff.mpr ⟨hflag, hguid.symm⟩) hschema)
    · exact (Amsi.isSome_handle_iff _).mp
        (h .amsi (mem_provider_iff.mpr ⟨hflag, hguid.symm⟩) hschema)
  · intro h p hp hschema
    obtain ⟨hflag, hguid⟩ := mem_provider_iff.mp hp
    obtain ⟨hscript, hscan⟩ := h hschema
    cases p with
    | powershell => exact (Powershell.isSome_handle_iff _).mpr (hscript hflag hguid.symm)
    | amsi => exact (Amsi.isSome_handle_iff _).mpr (hscan hflag hguid.symm)
    | dns | tcp | wmi | schannel => rfl

/-! ### Any deliveries -/

/-- A line, with the provider whose callback made it and whether the spool took it. -/
structure Shipment where
  provider : Provider
  line : String
  accepted : Bool

/-- What the callback ships of a delivery: nothing when the provider is off or drops the record. -/
def Delivery.shipment (cfg : EtwConfig) (d : Delivery) : Option Shipment :=
  (d.event cfg).map fun (p, e) => ⟨p, e.intoNdjsonLine d.nowIso8601, d.trySubmit⟩

/-- The spool has the lines that it took, in order; each line is counted for its provider, and each
line that was refused. -/
structure Session.Accounts (s : Session) (shipments : List Shipment) : Prop where
  submitted : s.submitted = (shipments.filter Shipment.accepted).map Shipment.line
  made : ∀ p, s.stats.made p = shipments.countP fun m => m.provider = p
  dropped : s.stats.dropped = shipments.countP fun m => !m.accepted

/-- One more line. -/
theorem Session.Accounts.ship {s : Session} {shipments : List Shipment}
    (h : s.Accounts shipments) (m : Shipment) :
    (s.ship m.provider m.line m.accepted).Accounts (shipments ++ [m]) where
  submitted := by
    rw [List.filter_append, List.map_append, ← h.submitted]
    cases hm : m.accepted <;> simp [Session.ship, hm]
  made p := by
    rw [List.countP_append, ← h.made p]
    by_cases hp : m.provider = p
    · subst hp
      simp [Session.ship]
    · simp [Session.ship, hp, Function.update_of_ne (Ne.symm hp)]
  dropped := by
    rw [List.countP_append, ← h.dropped]
    cases hm : m.accepted <;> simp [Session.ship, hm]

/-- Every line is counted once. -/
theorem Session.Accounts.total {s : Session} {shipments : List Shipment}
    (h : s.Accounts shipments) :
    (Provider.all.map s.stats.made).sum = s.submitted.length + s.stats.dropped := by
  rw [h.submitted, h.dropped, List.length_map, ← List.countP_eq_length_filter]
  have hmade : s.stats.made = fun p => shipments.countP fun m => m.provider = p := funext h.made
  rw [hmade]
  clear hmade h
  induction shipments with
  | nil => rfl
  | cons m shipments ih =>
    simp only [List.countP_cons, Provider.all, List.map_cons, List.map_nil, List.sum_cons,
      List.sum_nil] at ih ⊢
    have hone : ∀ p : Provider, (if decide (p = Provider.dns) = true then 1 else 0)
        + ((if decide (p = Provider.tcp) = true then 1 else 0)
        + ((if decide (p = Provider.powershell) = true then 1 else 0)
        + ((if decide (p = Provider.wmi) = true then 1 else 0)
        + ((if decide (p = Provider.schannel) = true then 1 else 0)
        + (if decide (p = Provider.amsi) = true then 1 else 0))))) = 1 := by
      intro p
      cases p <;> rfl
    have := hone m.provider
    cases m.accepted <;> simp at this ⊢ <;> omega

/-- A delivery shipped what the callback made of it. -/
theorem Session.Accounts.step {cfg : EtwConfig} {s t : Session} {d : Delivery}
    {shipments : List Shipment} (h : s.Accounts shipments) (hst : s.step cfg d = some t) :
    t.Accounts (shipments ++ (d.shipment cfg).toList) := by
  obtain ⟨-, rfl⟩ := step_eq_some_iff.mp hst
  rw [Delivery.shipment]
  cases d.event cfg with
  | none =>
    rw [Option.map_none, Option.toList_none, List.append_nil]
    exact h
  | some made => exact h.ship ⟨made.1, made.2.intoNdjsonLine d.nowIso8601, d.trySubmit⟩

/-- Over a run, from any session. -/
theorem accounts_after_run {cfg : EtwConfig} {s t : Session} {ds : List Delivery}
    {shipments : List Shipment} (h : s.Accounts shipments)
    (hrun : run (Session.step cfg) s ds = some t) :
    (∀ d ∈ ds, d.TextsFit cfg) ∧
      t.Accounts (shipments ++ ds.filterMap (Delivery.shipment cfg)) := by
  induction ds generalizing s shipments with
  | nil =>
    obtain rfl := Option.some.inj hrun
    rw [List.filterMap_nil, List.append_nil]
    exact ⟨by simp, h⟩
  | cons d ds ih =>
    obtain ⟨u, hu, hrun⟩ := run_cons_iff.mp hrun
    obtain ⟨hds, hall⟩ := ih (h.step hu) hrun
    refine ⟨List.forall_mem_cons.mpr ⟨?_, hds⟩, ?_⟩
    · exact returns_iff_textsFit.mp (step_eq_some_iff.mp hu).1
    · rw [List.append_assoc] at hall
      cases hd : d.shipment cfg with
      | none => simpa [hd] using hall
      | some m => simpa [hd] using hall

/-- A run ends early at a delivery that panics. -/
theorem exists_of_run_eq_none {cfg : EtwConfig} {s : Session} {ds : List Delivery}
    (h : run (Session.step cfg) s ds = none) : ∃ d ∈ ds, ¬ d.TextsFit cfg := by
  induction ds generalizing s with
  | nil => simp at h
  | cons d ds ih =>
    by_cases hd : d.TextsFit cfg
    · have hstep := (step_eq_some_iff (s := s)).mpr ⟨returns_iff_textsFit.mpr hd, rfl⟩
      rw [run_cons, hstep] at h
      obtain ⟨d', hmem, hd'⟩ := ih h
      exact ⟨d', List.mem_cons_of_mem d hmem, hd'⟩
    · exact ⟨d, List.mem_cons_self, hd⟩

/-- What a reader finds in a line: which of the enabled providers it comes from, and the process
that the event is about, said twice. -/
structure Attributed (cfg : EtwConfig) (line : String) (p : Provider) (v : Json) : Prop where
  enabled : cfg.flag p = true
  parses : Json.parse line = some v
  module : v.get "module" = some (.string "etw")
  eventType : v.get "event_type" = some (.string p.eventType)
  process : ∃ pid, (v.get "process").bind (Json.get "pid") = some (numeral pid) ∧
    (v.get "raw").bind (Json.get "pid") = some (numeral pid)

theorem readable_envelope {e : EtwEvent} (h : e.payload.readable = true) (ts : String) :
    (e.envelope ts).readable = true := by
  refine Json.readable_reduceOption ?_
  simp only [List.forall_mem_cons, List.not_mem_nil, false_imp_iff, implies_true, and_true,
    Option.mem_some_iff, forall_eq', Json.readable_string, readable_numeral, true_and]
  constructor
  · intro f hf
    obtain ⟨pid, -, rfl⟩ := Option.map_eq_some_iff.mp hf
    refine Json.readable_reduceOption ?_
    simp only [List.forall_mem_cons, List.not_mem_nil, false_imp_iff, implies_true, and_true,
      Option.mem_some_iff, forall_eq', readable_numeral, true_and]
    intro f hf
    obtain ⟨name, -, rfl⟩ := Option.map_eq_some_iff.mp hf
    rfl
  · exact Json.readable_toValue h

theorem attributed_of_shipment {cfg : EtwConfig} {d : Delivery} {m : Shipment}
    (h : d.shipment cfg = some m) : ∃ v, Attributed cfg m.line m.provider v := by
  obtain ⟨⟨p, e⟩, hevent, rfl⟩ := Option.map_eq_some_iff.mp h
  obtain ⟨hflag, -, htype, ⟨pid, hpid, hraw⟩, hreadable⟩ := describes_of_event hevent
  refine ⟨e.envelope d.nowIso8601, hflag, Json.parse_line (readable_envelope hreadable _),
    ?_, ?_, pid, ?_, ?_⟩
  · rfl
  · rw [← htype]
    rfl
  · rw [EtwEvent.envelope, hpid]
    rfl
  · have hget : (e.envelope d.nowIso8601).get "raw" = some (e.payload.toValue id) := by
      rw [EtwEvent.envelope, hpid]
      rfl
    rw [hget]
    exact hraw

/-- **What a session ships.** The deliveries of any providers in any order end the agent exactly
where a script block or a scanned content cannot be cut at its limit. Up to there the spool has
every line that it had room for, in the order of the deliveries; each line was counted for its
provider and, if it was refused, as dropped; and from each line a reader recovers the provider. -/
theorem session_of_run (cfg : EtwConfig) (ds : List Delivery) :
    match run (Session.step cfg) {} ds with
    | none => ∃ d ∈ ds, ¬ d.TextsFit cfg
    | some s => (∀ d ∈ ds, d.TextsFit cfg) ∧ s.Accounts (ds.filterMap (Delivery.shipment cfg)) ∧
        (Provider.all.map s.stats.made).sum = s.submitted.length + s.stats.dropped ∧
        ∀ line ∈ s.submitted, ∃ p v, Attributed cfg line p v := by
  cases hrun : run (Session.step cfg) {} ds with
  | none => exact exists_of_run_eq_none hrun
  | some s =>
    have hstart : Session.Accounts {} [] := ⟨rfl, fun _ => rfl, rfl⟩
    obtain ⟨hfit, haccounts⟩ := accounts_after_run hstart hrun
    refine ⟨hfit, haccounts, haccounts.total, fun line hline => ?_⟩
    rw [haccounts.submitted] at hline
    obtain ⟨m, hm, rfl⟩ := List.mem_map.mp hline
    obtain ⟨d, -, hd⟩ := List.mem_filterMap.mp (List.mem_of_mem_filter hm)
    exact ⟨m.provider, attributed_of_shipment hd⟩

end Etw

end WazabiAgent
