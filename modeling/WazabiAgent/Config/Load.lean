import WazabiAgent.Config.Sections
import WazabiAgent.Lib.Json

/-!
# Loading the configuration

`AppConfig::load` reads `agent.json`, merges what the server has stored in
`agent_config_overrides.json` beside it, and resolves the sections. Overrides that cannot be read,
or that are not what they should be, are ignored as a whole.

A file is kept as what `serde_json` reads out of it. When `agent.json` is absent a skeleton is
written for the next start, which is not modelled; the result does not depend on it. What `load`
makes of the section `shipper` (nothing, if it is disabled; an enrolment; a resolution) is the
parameter `resolveShipper`.
-/

namespace WazabiAgent

namespace Config

variable {σ φ τ : Type}

/-! ### The overrides -/

/-- The file of overrides: every key may be missing. -/
structure AgentConfigOverrides where
  heartbeatIntervalSecs : Option ℕ := none
  sendAlerts : Option Bool := none
  detectionEnabled : Option Bool := none
  detectionDefaultWindowSecs : Option ℕ := none
  detectionReloadIntervalSecs : Option ℕ := none
  etwDns : Option Bool := none
  etwTcp : Option Bool := none
  etwPowershell : Option Bool := none
  etwWmi : Option Bool := none
  etwSchannel : Option Bool := none
  etwAmsi : Option Bool := none
  consoleOutput : Option Bool := none
  deriving DecidableEq

/-- The fields of `AgentConfigOverrides`, in their order. -/
def overrideNames : List String :=
  ["heartbeat_interval_secs", "send_alerts", "detection_enabled",
    "detection_default_window_secs", "detection_reload_interval_secs", "etw_dns", "etw_tcp",
    "etw_powershell", "etw_wmi", "etw_schannel", "etw_amsi", "console_output"]

/-- `serde_json::from_slice::<AgentConfigOverrides>`. -/
def decodeOverrides (j : Json) : Option AgentConfigOverrides := do
  let fields ← j.recordFields overrideNames
  let field {α : Type} (name : String) (decode : Json → Option α) : Option (Option α) :=
    Json.optional decode ((fields.lookup name).getD .null)
  return {
    heartbeatIntervalSecs := ← field "heartbeat_interval_secs" Json.asU64
    sendAlerts := ← field "send_alerts" Json.asBool
    detectionEnabled := ← field "detection_enabled" Json.asBool
    detectionDefaultWindowSecs := ← field "detection_default_window_secs" Json.asU64
    detectionReloadIntervalSecs := ← field "detection_reload_interval_secs" Json.asU64
    etwDns := ← field "etw_dns" Json.asBool
    etwTcp := ← field "etw_tcp" Json.asBool
    etwPowershell := ← field "etw_powershell" Json.asBool
    etwWmi := ← field "etw_wmi" Json.asBool
    etwSchannel := ← field "etw_schannel" Json.asBool
    etwAmsi := ← field "etw_amsi" Json.asBool
    consoleOutput := ← field "console_output" Json.asBool }

/-- What `fs::read` finds in `agent_config_overrides.json`. -/
inductive OverridesFile
  | unreadable
  /-- Bytes that are no JSON document. -/
  | malformed
  | json (j : Json)

/-- The overrides that are merged, if any are. -/
def OverridesFile.decoded : OverridesFile → Option AgentConfigOverrides
  | .json j => decodeOverrides j
  | _ => none

/-- Puts the overrides that are there in the section. -/
def ControlSection.override (s : ControlSection) (o : AgentConfigOverrides) : ControlSection :=
  { s with
    heartbeatIntervalSecs := o.heartbeatIntervalSecs.or s.heartbeatIntervalSecs
    sendAlerts := o.sendAlerts.or s.sendAlerts }

/-- Puts the overrides that are there in the section. -/
def DetectionSection.override (s : DetectionSection) (o : AgentConfigOverrides) :
    DetectionSection :=
  { s with
    enabled := o.detectionEnabled.or s.enabled
    defaultWindowSecs := o.detectionDefaultWindowSecs.or s.defaultWindowSecs
    reloadIntervalSecs := o.detectionReloadIntervalSecs.or s.reloadIntervalSecs }

/-- Puts the overrides that are there in the section. -/
def EtwSection.override (s : EtwSection) (o : AgentConfigOverrides) : EtwSection :=
  { s with
    dns := o.etwDns.or s.dns
    tcp := o.etwTcp.or s.tcp
    powershell := o.etwPowershell.or s.powershell
    wmi := o.etwWmi.or s.wmi
    schannel := o.etwSchannel.or s.schannel
    amsi := o.etwAmsi.or s.amsi }

/-- Puts the override that is there in the section. -/
def AgentSection.override (s : AgentSection) (o : AgentConfigOverrides) : AgentSection :=
  { s with consoleOutput := o.consoleOutput.or s.consoleOutput }

/-- `merge_server_overrides`. A section that is absent is put there first. -/
def mergeServerOverrides (parsed : ConfigFile σ φ) (file : OverridesFile) : ConfigFile σ φ :=
  match file.decoded with
  | none => parsed
  | some o =>
    { parsed with
      control := some ((parsed.control.getD {}).override o)
      detection := some ((parsed.detection.getD {}).override o)
      etw := some ((parsed.etw.getD {}).override o)
      agent := some ((parsed.agent.getD {}).override o) }

/-! ### Loading -/

/-- What `fs::read` and `serde_json::from_slice` find in `agent.json`. -/
inductive AgentFile (σ φ : Type)
  | notFound
  | unreadable (error : String)
  | malformed (error : String)
  | parsed (c : ConfigFile σ φ)

/-- The sections, each kept if it is on. A `detection` section without `enabled` is on, any other
is off. -/
def resolveSections (programData : Option String) (c : ConfigFile σ φ) (shipper : Option τ) :
    AppConfig τ φ where
  agent := resolveAgent programData (c.agent.getD {})
  shipper := shipper
  filter := c.filter
  detection := (c.detection.filter fun d => d.enabled.getD true).map (resolveDetection programData)
  control := (c.control.filter fun s => s.enabled.getD false).map resolveControl
  etw := (c.etw.filter fun s => s.enabled.getD false).map resolveEtw
  polling := (c.polling.filter fun s => s.enabled.getD false).map resolvePolling

/-- `AppConfig::load`; `path` is the path of `agent.json` as its errors show it. -/
def load (programData : Option String) (resolveShipper : σ → Except String (Option τ))
    (path : String) (file : AgentFile σ φ) (overrides : OverridesFile) :
    Except String (AppConfig τ φ) :=
  match file with
  | .notFound => .ok {
      agent := .default programData
      shipper := none
      filter := none
      detection := none
      control := none
      etw := none
      polling := none }
  | .unreadable e => .error ("read " ++ path ++ ": " ++ e)
  | .malformed e => .error ("parse " ++ path ++ ": " ++ e)
  | .parsed c => do
    let c := mergeServerOverrides c overrides
    let shipper ← (c.shipper.map resolveShipper).getD (.ok none)
    return resolveSections programData c shipper

end Config

end WazabiAgent
