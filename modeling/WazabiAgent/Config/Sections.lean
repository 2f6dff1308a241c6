import Mathlib.Data.List.Basic
import WazabiAgent.Lib.Text

/-!
# The sections of `agent.json`

Each section exists twice: as it is read from the file, where every field may be absent, and as the
agent runs with it. The functions `resolve…` lead from the one to the other and put a default
wherever a field is absent.

Durations are in seconds. The section `shipper` and the section `filter` are parameters `σ` and
`φ` of the file, and `τ` is what becomes of the first: nothing here looks into them.
-/

namespace WazabiAgent

namespace Config

open Text (isBlank)

/-! ### Paths and texts -/

/-- `Path::join`, for a base that is not empty. -/
def join (base name : String) : String :=
  if base.endsWith "\\" || base.endsWith "/" then base ++ name else base ++ "\\" ++ name

/-- `%ProgramData%\WazabiEDR`. -/
def dataDir (programData : Option String) : String :=
  join (programData.getD "C:\\ProgramData") "WazabiEDR"

/-- The spool directory of a configuration that names none. -/
def defaultSpoolDir (programData : Option String) : String := join (dataDir programData) "spool"

/-- The rules file of a configuration that names none. -/
def defaultRulesPath (programData : Option String) : String :=
  join (join (dataDir programData) "rules") "main.waza"

/-- The file of the server's rules of a configuration that names none. -/
def defaultServerRulesPath (programData : Option String) : String :=
  join (join (dataDir programData) "rules") "server.waza"

/-! ### As read -/

/-- The `agent` section as the file has it. -/
structure AgentSection where
  consoleOutput : Option Bool := none
  spoolDir : Option String := none
  maxBytesPerFile : Option ℕ := none
  maxAgeSecs : Option ℕ := none
  maxTotalBytes : Option ℕ := none
  channelCapacity : Option ℕ := none
  zstdLevel : Option Int := none

/-- The `detection` section as the file has it. -/
structure DetectionSection where
  enabled : Option Bool := none
  rulesPath : Option String := none
  serverRulesPath : Option String := none
  schemaPath : Option String := none
  defaultWindowSecs : Option ℕ := none
  reloadIntervalSecs : Option ℕ := none

/-- The `control` section as the file has it. -/
structure ControlSection where
  enabled : Option Bool := none
  heartbeatIntervalSecs : Option ℕ := none
  sendAlerts : Option Bool := none

/-- The `etw` section as the file has it. -/
structure EtwSection where
  enabled : Option Bool := none
  dns : Option Bool := none
  tcp : Option Bool := none
  powershell : Option Bool := none
  wmi : Option Bool := none
  schannel : Option Bool := none
  amsi : Option Bool := none

/-- The `polling` section as the file has it. -/
structure PollingSection where
  enabled : Option Bool := none
  services : Option Bool := none
  scheduledTasks : Option Bool := none
  intervalSecs : Option ℕ := none
  silentFirstSnapshot : Option Bool := none

/-- The configuration file: every section may be missing. -/
structure ConfigFile (σ φ : Type) where
  agent : Option AgentSection := none
  shipper : Option σ := none
  filter : Option φ := none
  detection : Option DetectionSection := none
  control : Option ControlSection := none
  etw : Option EtwSection := none
  polling : Option PollingSection := none

/-! ### As the agent runs with it -/

/-- The `agent` section with its defaults. -/
structure AgentConfig where
  spoolDir : String
  maxBytesPerFile : ℕ
  maxAge : ℕ
  maxTotalBytes : ℕ
  channelCapacity : ℕ
  zstdLevel : Int
  consoleOutput : Bool
  deriving DecidableEq

/-- The `detection` section with its defaults. -/
structure DetectionConfig where
  rulesPath : String
  serverRulesPath : Option String
  schemaPath : Option String
  defaultWindow : ℕ
  reloadInterval : ℕ
  deriving DecidableEq

/-- The `control` section with its defaults. -/
structure ControlConfig where
  heartbeatInterval : ℕ
  sendAlerts : Bool
  deriving DecidableEq

/-- The `etw` section with its defaults. -/
structure EtwConfig where
  dns : Bool
  tcp : Bool
  powershell : Bool
  wmi : Bool
  schannel : Bool
  amsi : Bool
  deriving DecidableEq

/-- The `polling` section with its defaults. -/
structure PollingConfig where
  services : Bool
  scheduledTasks : Bool
  interval : ℕ
  silentFirstSnapshot : Bool
  deriving DecidableEq

/-- What the agent runs with: a section that is off is not there. -/
structure AppConfig (τ φ : Type) where
  agent : AgentConfig
  shipper : Option τ
  filter : Option φ
  detection : Option DetectionConfig
  control : Option ControlConfig
  etw : Option EtwConfig
  polling : Option PollingConfig
  deriving DecidableEq

/-! ### Defaults -/

/-- The defaults of `agent`. -/
def AgentConfig.default (programData : Option String) : AgentConfig where
  spoolDir := defaultSpoolDir programData
  maxBytesPerFile := 1 * 1024 * 1024
  maxAge := 10
  maxTotalBytes := 256 * 1024 * 1024
  channelCapacity := 1024
  zstdLevel := 3
  consoleOutput := false

/-- The defaults of `detection`. -/
def DetectionConfig.default (programData : Option String) : DetectionConfig where
  rulesPath := defaultRulesPath programData
  serverRulesPath := some (defaultServerRulesPath programData)
  schemaPath := none
  defaultWindow := 5
  reloadInterval := 5

/-- The defaults of `control`. -/
def ControlConfig.default : ControlConfig where
  heartbeatInterval := 60
  sendAlerts := true

/-- The defaults of `etw`: every provider is on. -/
def EtwConfig.default : EtwConfig where
  dns := true
  tcp := true
  powershell := true
  wmi := true
  schannel := true
  amsi := true

/-- The defaults of `polling`. -/
def PollingConfig.default : PollingConfig where
  services := true
  scheduledTasks := true
  interval := 30
  silentFirstSnapshot := true

/-! ### From the one to the other -/

/-- Puts the default where the file has nothing. -/
def resolveAgent (programData : Option String) (s : AgentSection) : AgentConfig :=
  let d := AgentConfig.default programData
  { consoleOutput := s.consoleOutput.getD d.consoleOutput
    spoolDir := s.spoolDir.getD d.spoolDir
    maxBytesPerFile := s.maxBytesPerFile.getD d.maxBytesPerFile
    maxAge := s.maxAgeSecs.getD d.maxAge
    maxTotalBytes := s.maxTotalBytes.getD d.maxTotalBytes
    channelCapacity := s.channelCapacity.getD d.channelCapacity
    zstdLevel := s.zstdLevel.getD d.zstdLevel }

/-- A text that is only white space is the same as none. -/
def nonEmpty (o : Option String) : Option String := o.filter fun s => !isBlank s

/-- Puts the default where the file has nothing, or a blank path. -/
def resolveDetection (programData : Option String) (s : DetectionSection) : DetectionConfig :=
  let d := DetectionConfig.default programData
  { rulesPath := (nonEmpty s.rulesPath).getD d.rulesPath
    -- here a blank text is not the same as none: it turns the rules of the server off
    serverRulesPath :=
      match s.serverRulesPath with
      | none => d.serverRulesPath
      | some s => if isBlank s then none else some s
    schemaPath := nonEmpty s.schemaPath
    defaultWindow := s.defaultWindowSecs.getD d.defaultWindow
    reloadInterval := s.reloadIntervalSecs.getD d.reloadInterval }

/-- Puts the default where the file has nothing; a beat takes at least a second. -/
def resolveControl (s : ControlSection) : ControlConfig :=
  let d := ControlConfig.default
  { heartbeatInterval := (s.heartbeatIntervalSecs.map fun n => max n 1).getD d.heartbeatInterval
    sendAlerts := s.sendAlerts.getD d.sendAlerts }

/-- Puts the default where the file has nothing. -/
def resolveEtw (s : EtwSection) : EtwConfig :=
  let d := EtwConfig.default
  { dns := s.dns.getD d.dns
    tcp := s.tcp.getD d.tcp
    powershell := s.powershell.getD d.powershell
    wmi := s.wmi.getD d.wmi
    schannel := s.schannel.getD d.schannel
    amsi := s.amsi.getD d.amsi }

/-- Puts the default where the file has nothing; a cycle takes at least five seconds. -/
def resolvePolling (s : PollingSection) : PollingConfig :=
  let d := PollingConfig.default
  { services := s.services.getD d.services
    scheduledTasks := s.scheduledTasks.getD d.scheduledTasks
    interval := (s.intervalSecs.map fun n => max n 5).getD d.interval
    silentFirstSnapshot := s.silentFirstSnapshot.getD d.silentFirstSnapshot }

end Config

end WazabiAgent
