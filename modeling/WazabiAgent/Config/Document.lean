import WazabiAgent.Config.Load
import WazabiAgent.Detection.Events
import WazabiAgent.Shipper.Config

/-!
# `agent.json` as it is read

`serde_json::from_slice::<ConfigFile>`, section by section. Every field of every section but
`shipper` may be absent or null.

The file is read in two ways. `ConfigFile` skips what it does not know, so a part that is skipped
may hold what no `serde_json::Value` can: a number that is too large for a float, or half of a
surrogate pair. Hence a `Document` also says whether it can be read as a value. An integer of 64
bits keeps its literal in a value, and no section has any other number. What is written out of any
other is left to `serde_json`.

## Main results

* `stable_decodeConfigFile` — the value of a document configures the same
-/

namespace WazabiAgent

namespace Config

open Shipper Detection

/-! ### The sections -/

/-- `Option<T>`, absent or null without a value. -/
def optionalField {α : Type} (decode : Json → Option α) (o : Option Json) : Option (Option α) :=
  Json.defaulted none (Json.optional decode) o

theorem refines_optionalField {α : Type} {decode : Json → Option α} {float : String → String}
    (h : Json.Stable decode) (o : Option Json) :
    Json.Refines (optionalField decode o) (optionalField decode (o.map (Json.toValue float))) :=
  h.optional.defaulted none o

/-- An `i32`. -/
def asI32 (j : Json) : Option Int :=
  j.asI64.filter fun n => -2147483648 ≤ n ∧ n ≤ 2147483647

theorem stable_asI32 : Json.Stable asI32 := by
  intro j float n hn
  obtain ⟨h64, hrange⟩ := Option.filter_eq_some_iff.mp hn
  exact Option.filter_eq_some_iff.mpr ⟨Json.stable_asI64 j float n h64, hrange⟩

/-- Reads the `agent` section. -/
def decodeAgent : Json → Option AgentSection :=
  Json.record
    ["console_output", "spool_dir", "max_bytes_per_file", "max_age_secs", "max_total_bytes",
      "channel_capacity", "zstd_level"]
    fun field =>
      (optionalField Json.asBool (field "console_output")).bind fun consoleOutput =>
      (optionalField Json.asStr (field "spool_dir")).bind fun spoolDir =>
      (optionalField Json.asU64 (field "max_bytes_per_file")).bind fun maxBytesPerFile =>
      (optionalField Json.asU64 (field "max_age_secs")).bind fun maxAgeSecs =>
      (optionalField Json.asU64 (field "max_total_bytes")).bind fun maxTotalBytes =>
      (optionalField Json.asU64 (field "channel_capacity")).bind fun channelCapacity =>
      (optionalField asI32 (field "zstd_level")).bind fun zstdLevel =>
      some {
        consoleOutput := consoleOutput
        spoolDir := spoolDir
        maxBytesPerFile := maxBytesPerFile
        maxAgeSecs := maxAgeSecs
        maxTotalBytes := maxTotalBytes
        channelCapacity := channelCapacity
        zstdLevel := zstdLevel }

/-- Reads the `filter` section. -/
def decodeFilter : Json → Option FilterSection :=
  Json.record ["modules", "event_types"] fun field =>
    (Json.defaulted [] (Json.listOf Json.asStr) (field "modules")).bind fun modules =>
    (Json.defaulted [] (Json.listOf Json.asStr) (field "event_types")).bind fun eventTypes =>
    some { modules := modules, eventTypes := eventTypes }

/-- Reads the `detection` section. -/
def decodeDetection : Json → Option DetectionSection :=
  Json.record
    ["enabled", "rules_path", "server_rules_path", "schema_path", "default_window_secs",
      "reload_interval_secs"]
    fun field =>
      (optionalField Json.asBool (field "enabled")).bind fun enabled =>
      (optionalField Json.asStr (field "rules_path")).bind fun rulesPath =>
      (optionalField Json.asStr (field "server_rules_path")).bind fun serverRulesPath =>
      (optionalField Json.asStr (field "schema_path")).bind fun schemaPath =>
      (optionalField Json.asU64 (field "default_window_secs")).bind fun defaultWindowSecs =>
      (optionalField Json.asU64 (field "reload_interval_secs")).bind fun reloadIntervalSecs =>
      some {
        enabled := enabled
        rulesPath := rulesPath
        serverRulesPath := serverRulesPath
        schemaPath := schemaPath
        defaultWindowSecs := defaultWindowSecs
        reloadIntervalSecs := reloadIntervalSecs }

/-- Reads the `control` section. -/
def decodeControl : Json → Option ControlSection :=
  Json.record ["enabled", "heartbeat_interval_secs", "send_alerts"] fun field =>
    (optionalField Json.asBool (field "enabled")).bind fun enabled =>
    (optionalField Json.asU64 (field "heartbeat_interval_secs")).bind fun heartbeatIntervalSecs =>
    (optionalField Json.asBool (field "send_alerts")).bind fun sendAlerts =>
    some {
      enabled := enabled
      heartbeatIntervalSecs := heartbeatIntervalSecs
      sendAlerts := sendAlerts }

/-- Reads the `etw` section. -/
def decodeEtw : Json → Option EtwSection :=
  Json.record ["enabled", "dns", "tcp", "powershell", "wmi", "schannel", "amsi"] fun field =>
    (optionalField Json.asBool (field "enabled")).bind fun enabled =>
    (optionalField Json.asBool (field "dns")).bind fun dns =>
    (optionalField Json.asBool (field "tcp")).bind fun tcp =>
    (optionalField Json.asBool (field "powershell")).bind fun powershell =>
    (optionalField Json.asBool (field "wmi")).bind fun wmi =>
    (optionalField Json.asBool (field "schannel")).bind fun schannel =>
    (optionalField Json.asBool (field "amsi")).bind fun amsi =>
    some {
      enabled := enabled
      dns := dns
      tcp := tcp
      powershell := powershell
      wmi := wmi
      schannel := schannel
      amsi := amsi }

/-- Reads the `polling` section. -/
def decodePolling : Json → Option PollingSection :=
  Json.record
    ["enabled", "services", "scheduled_tasks", "interval_secs", "silent_first_snapshot"]
    fun field =>
      (optionalField Json.asBool (field "enabled")).bind fun enabled =>
      (optionalField Json.asBool (field "services")).bind fun services =>
      (optionalField Json.asBool (field "scheduled_tasks")).bind fun scheduledTasks =>
      (optionalField Json.asU64 (field "interval_secs")).bind fun intervalSecs =>
      (optionalField Json.asBool (field "silent_first_snapshot")).bind fun silentFirstSnapshot =>
      some {
        enabled := enabled
        services := services
        scheduledTasks := scheduledTasks
        intervalSecs := intervalSecs
        silentFirstSnapshot := silentFirstSnapshot }

/-! ### The whole file -/

/-- The sections, in the order of `ConfigFile`. -/
def sectionNames : List String :=
  ["agent", "shipper", "filter", "detection", "control", "etw", "polling"]

/-- Reads the sections of the file; each may be missing or null. -/
def configFields (field : String → Option Json) : Option (ConfigFile ShipperSection FilterSection) :=
  (optionalField decodeAgent (field "agent")).bind fun agent =>
  (optionalField decodeShipper (field "shipper")).bind fun shipper =>
  (optionalField decodeFilter (field "filter")).bind fun filter =>
  (optionalField decodeDetection (field "detection")).bind fun detection =>
  (optionalField decodeControl (field "control")).bind fun control =>
  (optionalField decodeEtw (field "etw")).bind fun etw =>
  (optionalField decodePolling (field "polling")).bind fun polling =>
  some {
    agent := agent
    shipper := shipper
    filter := filter
    detection := detection
    control := control
    etw := etw
    polling := polling }

/-- `serde_json::from_slice::<ConfigFile>`. -/
def decodeConfigFile : Json → Option (ConfigFile ShipperSection FilterSection) :=
  Json.record sectionNames configFields

/-! ### Stability -/

theorem stable_decodeAgent : Json.Stable decodeAgent := by
  refine .record fun field _ => ?_
  refine (refines_optionalField Json.stable_asBool _).bind fun _ => ?_
  refine (refines_optionalField Json.stable_asStr _).bind fun _ => ?_
  refine (refines_optionalField Json.stable_asU64 _).bind fun _ => ?_
  refine (refines_optionalField Json.stable_asU64 _).bind fun _ => ?_
  refine (refines_optionalField Json.stable_asU64 _).bind fun _ => ?_
  refine (refines_optionalField Json.stable_asU64 _).bind fun _ => ?_
  exact (refines_optionalField stable_asI32 _).bind fun _ => .refl _

theorem stable_decodeFilter : Json.Stable decodeFilter := by
  refine .record fun field _ => ?_
  refine (Json.stable_asStr.listOf.defaulted [] _).bind fun _ => ?_
  exact (Json.stable_asStr.listOf.defaulted [] _).bind fun _ => .refl _

theorem stable_decodeDetection : Json.Stable decodeDetection := by
  refine .record fun field _ => ?_
  refine (refines_optionalField Json.stable_asBool _).bind fun _ => ?_
  refine (refines_optionalField Json.stable_asStr _).bind fun _ => ?_
  refine (refines_optionalField Json.stable_asStr _).bind fun _ => ?_
  refine (refines_optionalField Json.stable_asStr _).bind fun _ => ?_
  refine (refines_optionalField Json.stable_asU64 _).bind fun _ => ?_
  exact (refines_optionalField Json.stable_asU64 _).bind fun _ => .refl _

theorem stable_decodeControl : Json.Stable decodeControl := by
  refine .record fun field _ => ?_
  refine (refines_optionalField Json.stable_asBool _).bind fun _ => ?_
  refine (refines_optionalField Json.stable_asU64 _).bind fun _ => ?_
  exact (refines_optionalField Json.stable_asBool _).bind fun _ => .refl _

theorem stable_decodeEtw : Json.Stable decodeEtw := by
  have hbool {float : String → String} (o : Option Json) :
      Json.Refines (optionalField Json.asBool o)
        (optionalField Json.asBool (o.map (Json.toValue float))) :=
    refines_optionalField Json.stable_asBool o
  refine .record fun field _ => ?_
  refine (hbool _).bind fun _ => (hbool _).bind fun _ => (hbool _).bind fun _ => ?_
  exact (hbool _).bind fun _ => (hbool _).bind fun _ => (hbool _).bind fun _ =>
    (hbool _).bind fun _ => .refl _

theorem stable_decodePolling : Json.Stable decodePolling := by
  refine .record fun field _ => ?_
  refine (refines_optionalField Json.stable_asBool _).bind fun _ => ?_
  refine (refines_optionalField Json.stable_asBool _).bind fun _ => ?_
  refine (refines_optionalField Json.stable_asBool _).bind fun _ => ?_
  refine (refines_optionalField Json.stable_asU64 _).bind fun _ => ?_
  exact (refines_optionalField Json.stable_asBool _).bind fun _ => .refl _

theorem refines_configFields (field : String → Option Json) (float : String → String) :
    Json.Refines (configFields field)
      (configFields fun name => (field name).map (Json.toValue float)) := by
  refine (refines_optionalField stable_decodeAgent _).bind fun _ => ?_
  refine (refines_optionalField stable_decodeShipper _).bind fun _ => ?_
  refine (refines_optionalField stable_decodeFilter _).bind fun _ => ?_
  refine (refines_optionalField stable_decodeDetection _).bind fun _ => ?_
  refine (refines_optionalField stable_decodeControl _).bind fun _ => ?_
  refine (refines_optionalField stable_decodeEtw _).bind fun _ => ?_
  exact (refines_optionalField stable_decodePolling _).bind fun _ => .refl _

/-- What is read out of a document is read out of its value. -/
theorem stable_decodeConfigFile : Json.Stable decodeConfigFile := .record refines_configFields

/-! ### The file -/

/-- A JSON text. -/
structure Document where
  doc : Json
  /-- Whether `serde_json::Value` can hold all of it. -/
  skipped : Except String Unit

/-- `serde_json::from_slice::<Value>`, with the doubles that `float` writes. -/
def Document.value (d : Document) (float : String → String) : Except String Json :=
  d.skipped.map fun _ => d.doc.toValue float

/-- What a written value is as a document: all of it can be read. -/
def Document.ofValue (v : Json) : Document where
  doc := v
  skipped := .ok ()

/-- What `fs::read` finds at the path of `agent.json`. -/
inductive AgentJson
  | notFound
  | unreadable (error : String)
  /-- Bytes that are no JSON text. -/
  | malformed (error : String)
  | json (d : Document)

/-- `fs::read` and `from_slice::<ConfigFile>`; `configError` is the error for a document of the
wrong shape. -/
def AgentJson.read (configError : Json → String) : AgentJson → AgentFile ShipperSection FilterSection
  | .notFound => .notFound
  | .unreadable e => .unreadable e
  | .malformed e => .malformed e
  | .json d =>
    match decodeConfigFile d.doc with
    | some c => .parsed c
    | none => .malformed (configError d.doc)

end Config

end WazabiAgent
