import WazabiAgent.Lib.Json
import WazabiAgent.Lib.Program
import WazabiAgent.Lib.Text
import WazabiAgent.Lib.Transition

/-!
# Profile synchronisation

`pull` asks the server for the metadata of the assigned profile and for its template, writes
`profile.json`, `profile_template.json` and, if they changed, the configuration overrides, decodes
the rules of the template, writes those it accepts to the server rules file, has the detection
engine reload it, and sets the `ProfileState` that heartbeats report. `load_persisted` reads the
state back from `profile.json` when the agent starts.

`pull` is a program over `SyncOp`, and `perform` says what an operation does to the `World`. A file
holds either exactly what one of the writers of this module put there (`Content.pretty`) or other
bytes; a write that fails may leave any such bytes behind, or the file untouched. The files are
taken to be distinct. The parser of rule sources belongs to the detection engine and is a
parameter, as are the texts of decoding errors.

Serialization cannot fail on these types, so the error returns of `to_vec_pretty` are left out.

## Ghost state

`World` also records where things come from: the template that was fetched last, and for
`profile.json` and for the state in memory the pull that put them there (`Provenance`).

## Main definitions

* `parseTemplateRules` — which enabled rules are accepted, and an error for each other one
* `pull`, `loadPersisted` — the synchronisation, and the start of the agent
* `World`, `perform` — files and state, and the operations on them
-/

namespace WazabiAgent

namespace Control

namespace Sync

open Prog
open Text (isBlank isWhitespace)

/-! ### Profiles -/

/-- A module that the profile requires. -/
structure ModuleRef where
  id : String
  version : String
  deriving DecidableEq

/-- The answer of `get_profile_metadata`. -/
structure ProfileMetadata where
  profileId : String
  version : Int
  hash : String
  modulesRequired : List ModuleRef
  deriving DecidableEq

/-- What `profile.json` keeps of an applied profile. -/
structure PersistedProfile where
  profileId : String
  version : Int
  hash : String
  modulesLoaded : List ModuleRef
  deriving DecidableEq

/-- What is written to disk of a profile. -/
def ProfileMetadata.persisted (profile : ProfileMetadata) : PersistedProfile where
  profileId := profile.profileId
  version := profile.version
  hash := profile.hash
  modulesLoaded := profile.modulesRequired

/-- A rule that was left out, and why. -/
structure RuleError where
  ruleName : String
  message : String
  deriving DecidableEq

/-- What heartbeats report. -/
structure ProfileState where
  version : Int := 0
  modulesLoaded : List ModuleRef := []
  ruleErrors : List RuleError := []
  deriving DecidableEq

/-! ### Rules of a template -/

/-- What is read of a rule in a template. -/
structure TemplateRuleView where
  name : String
  isEnabled : Bool
  wazaSource : String
  deriving DecidableEq

/-- Reads a rule; `is_enabled` and the source have defaults. -/
def TemplateRuleView.decode (v : Json) : Option TemplateRuleView := do
  match ← v.structFields ["name", "is_enabled", "waza_source"] with
  | [some name, isEnabled, wazaSource] =>
    return {
      name := ← name.asStr
      isEnabled := ← Json.defaulted true Json.asBool isEnabled
      wazaSource := ← Json.defaulted "" Json.asStr wazaSource }
  | _ => none

/-- The rules that the template view decodes to, if it does. -/
def templateRules (template : Json) : Option (List TemplateRuleView) := do
  match ← template.structFields ["rules"] with
  | [rules] => Json.defaulted [] (fun v => v.asArray.bind (·.mapM TemplateRuleView.decode)) rules
  | _ => none

/-- `str::trim_end`. -/
def trimEnd (s : String) : String := .ofList (s.toList.reverse.dropWhile isWhitespace).reverse

/-- The server rules file, as error messages name it. -/
structure RulesPath where
  parent : String
  tmp : String
  path : String

/-- What does not change between pulls. -/
structure SyncConfig where
  remoteRulesPath : Option RulesPath
  /-- There is a detection engine to reload. -/
  engine : Bool
  /-- The parser of the engine: the names of the groups, or its error. -/
  parseSource : String → Except String (List String)
  /-- The text of the error for a template that does not decode. -/
  decodeError : Json → String

/-- The rules taken, with their source, and the rules left out. -/
structure TemplateParseOutcome where
  accepted : List (String × String) := []
  errors : List RuleError := []
  deriving DecidableEq

/-- The variables of the loop over the rules. -/
structure RuleScan extends TemplateParseOutcome where
  claimedGroupNames : List String := []

/-- Leaves a rule out. -/
def RuleScan.reject (acc : RuleScan) (r : TemplateRuleView) (message : String) : RuleScan :=
  { acc with errors := acc.errors ++ [⟨r.name, message⟩] }

/-- One iteration. -/
def RuleScan.rule (parseSource : String → Except String (List String)) (acc : RuleScan)
    (r : TemplateRuleView) : RuleScan :=
  if r.isEnabled = false then acc
  else if isBlank r.wazaSource then acc.reject r "règle vide"
  else
    match parseSource r.wazaSource with
    | .error msg => acc.reject r msg
    | .ok parsed =>
      match parsed.find? (· ∈ acc.claimedGroupNames) with
      | some name =>
        acc.reject r ("groupe '" ++ name ++
          "' déjà défini par une autre règle du profil — renommer pour les concilier")
      | none =>
        { acc with
          accepted := acc.accepted ++ [(r.name, r.wazaSource)]
          claimedGroupNames := parsed ++ acc.claimedGroupNames }

/-- The verdict on each rule of a template. -/
def parseTemplateRules (cfg : SyncConfig) (template : Json) :
    Except String TemplateParseOutcome :=
  match templateRules template with
  | none => .error ("decode template view: " ++ cfg.decodeError template)
  | some rules => .ok (rules.foldl (RuleScan.rule cfg.parseSource) {}).toTemplateParseOutcome

/-- A rule that the engine takes. -/
def remoteThreadRule : String :=
  "- Detection:\n  - RemoteThreadInjection:\n      window: 5s\n" ++
  "      - kernel_callback.thread_create.remote_injection == true\n\n" ++
  "- Action:\n  - RemoteThreadInjection:\n    - log\n"

/-- A configuration with what the parser makes of that rule; it takes no other. -/
def plainConfig : SyncConfig where
  remoteRulesPath := some ⟨"C:\\wedr", "C:\\wedr\\server.waza.tmp", "C:\\wedr\\server.waza"⟩
  engine := true
  parseSource source :=
    if source = remoteThreadRule then .ok ["RemoteThreadInjection"]
    else .error "rule 'X' has a Detection group but no matching Action group"
  decodeError _ := "missing field `name`"

/-- A template with rules that are all enabled. -/
def templateOf (rules : List (String × String)) : Json :=
  .object [("rules", .array (rules.map fun r =>
    .object [("name", .string r.1), ("waza_source", .string r.2)]))]

/-- The second rule claims the group of the first. -/
example : parseTemplateRules
      { plainConfig with parseSource := fun _ => .ok ["RemoteThreadInjection"] }
      (templateOf [("one", "- Detection"), ("two", "- Detection"), ("three", " ")])
    = .ok {
        accepted := [("one", "- Detection")]
        errors := [⟨"two", "groupe 'RemoteThreadInjection' déjà défini par une autre règle du " ++
          "profil — renommer pour les concilier"⟩, ⟨"three", "règle vide"⟩] } := by
  decide +kernel

/-- The server rules file of a pull. -/
def rulesBody (outcome : TemplateParseOutcome) (version : Int) : String :=
  "# Géré par l'agent WazabiEDR — NE PAS ÉDITER À LA MAIN.\n" ++
  "# Toute modif sera écrasée au prochain heartbeat avec sync profil.\n" ++
  "# Profil version : " ++ toString version ++ "\n\n" ++
  String.join (outcome.accepted.map fun r =>
    "# --- rule '" ++ r.1 ++ "' ---\n" ++ trimEnd r.2 ++ "\n\n")

/-- The overrides that a template carries. There is always an object, possibly an empty one. -/
def agentConfig (template : Json) : Json :=
  match template.get "agent_config" with
  | some (.object fields) => .object fields
  | _ => .object []

/-! ### The synchronisation -/

/-- The content of a file: what `to_vec_pretty` makes of a value, or other bytes. -/
inductive Content (α : Type)
  | pretty (a : α)
  | other (bytes : String)
  deriving DecidableEq

/-- An operation that answers with an optional string answers with its error. -/
inductive SyncOp : Type → Type
  | getProfileMetadata : SyncOp (Except String (Option ProfileMetadata))
  | getProfileTemplate (profileId : String) : SyncOp (Except String Json)
  | createStateDir : SyncOp Unit
  | writeProfile (profile : PersistedProfile) : SyncOp (Option String)
  | writeTemplate (template : Json) : SyncOp (Option String)
  | readOverrides : SyncOp (Option (Content Json))
  | writeOverridesTmp (overrides : Json) : SyncOp (Option String)
  | renameOverrides : SyncOp (Option String)
  | createRulesDir : SyncOp (Option String)
  | writeRulesTmp (body : String) : SyncOp (Option String)
  | renameRules : SyncOp (Option String)
  | forceReload : SyncOp (Option String)
  | updateState (version : Int) (modulesLoaded : List ModuleRef) (errors : List RuleError) :
      SyncOp Unit
  | bumpProfileSync : SyncOp Unit
  | requestRestart : SyncOp Unit

/-- `write_agent_config_overrides`, for a caller that takes an error for no change. -/
def writeAgentConfigOverrides (template : Json) : Prog SyncOp Bool := do
  let current ← call .readOverrides
  if current = some (.pretty (agentConfig template)) then return false
  else
    call .createStateDir
    match ← call (.writeOverridesTmp (agentConfig template)) with
    | some _ => return false
    | none =>
      match ← call .renameOverrides with
      | some _ => return false
      | none => return true

/-- `write_accepted_rules`; answers with its error. -/
def writeAcceptedRules (path : RulesPath) (outcome : TemplateParseOutcome) (version : Int) :
    Prog SyncOp (Option String) := do
  match ← call .createRulesDir with
  | some e => return some ("create parent " ++ path.parent ++ ": " ++ e)
  | none =>
    match ← call (.writeRulesTmp (rulesBody outcome version)) with
    | some e => return some ("write " ++ path.tmp ++ ": " ++ e)
    | none =>
      match ← call .renameRules with
      | some e => return some ("rename " ++ path.tmp ++ " → " ++ path.path ++ ": " ++ e)
      | none => return none

/-- Errors of the bundle, under a name that no rule has. -/
def bundleError (message : String) : RuleError := ⟨"__server_bundle__", message⟩

/-- The rules to their file and into the engine; answers with the errors to report. -/
def applyRules (cfg : SyncConfig) (outcome : TemplateParseOutcome) (version : Int) :
    Prog SyncOp (List RuleError) := do
  match cfg.remoteRulesPath with
  | none => return outcome.errors
  | some path =>
    match ← writeAcceptedRules path outcome version with
    | some e => return outcome.errors ++ [bundleError ("écriture de `server.waza` échouée : " ++ e)]
    | none =>
      if cfg.engine then
        match ← call .forceReload with
        | some e =>
          return outcome.errors ++ [bundleError ("reload du fichier `server.waza` échoué : " ++ e)]
        | none => return outcome.errors
      else return outcome.errors

/-- The last part of `pull`, which cannot fail any more. -/
def commit (cfg : SyncConfig) (profile : ProfileMetadata) (outcome : TemplateParseOutcome)
    (configChanged : Bool) : Prog SyncOp Unit := do
  let errors ← applyRules cfg outcome profile.version
  call (.updateState profile.version profile.modulesRequired errors)
  call .bumpProfileSync
  if configChanged then call .requestRestart else return ()

/-- From the answers of the server on. -/
def install (cfg : SyncConfig) (profile : ProfileMetadata) (template : Json) :
    Prog SyncOp (Except String Unit) := do
  call .createStateDir
  match ← call (.writeProfile profile.persisted) with
  | some e => return .error ("write profile.json: " ++ e)
  | none =>
    -- the template is kept for audit only
    let _ ← call (.writeTemplate template)
    let configChanged ← writeAgentConfigOverrides template
    match parseTemplateRules cfg template with
    | .error e => return .error e
    | .ok outcome =>
      commit cfg profile outcome configChanged
      return .ok ()

/-- `pull`: asks for the profile, writes it down and puts it in force. -/
def pull (cfg : SyncConfig) : Prog SyncOp (Except String Unit) := do
  match ← call .getProfileMetadata with
  | .error e => return .error e
  | .ok none => return .ok ()
  | .ok (some profile) =>
    match ← call (.getProfileTemplate profile.profileId) with
    | .error e => return .error e
    | .ok template => install cfg profile template

/-! ### Files and state -/

/-- The pull that something comes from. -/
structure Provenance where
  version : Int
  template : Json
  /-- It came to its end, without errors to report. -/
  clean : Bool := false
  /-- The agent has been started since. -/
  reloaded : Bool := false
  deriving DecidableEq

/-- What the synchronisation works on: the files, the engine and the reports. -/
structure World where
  profile : Option (Content PersistedProfile) := none
  template : Option (Content Json) := none
  overrides : Option (Content Json) := none
  overridesTmp : Option (Content Json) := none
  rules : Option String := none
  rulesTmp : Option String := none
  state : ProfileState := {}
  profileSyncs : ℕ := 0
  shutdown : Bool := false
  /-- Ghost: the template that was fetched last. -/
  fetched : Option Json := none
  /-- Ghost: the pull that wrote `profile.json`. -/
  stored : Option Provenance := none
  /-- Ghost: the pull that `state` comes from. -/
  held : Option Provenance := none
  deriving DecidableEq

/-- How a write ends. One that fails has possibly left other bytes. -/
inductive WriteOutcome
  | done
  | failed (error : String) (left : Option String)

/-- The error that a write answers with. -/
def WriteOutcome.error : WriteOutcome → Option String
  | .done => none
  | .failed e _ => some e

/-- The file after the write. -/
def WriteOutcome.leave {γ : Type} (other : String → γ) (before written : γ) : WriteOutcome → γ
  | .done => written
  | .failed _ none => before
  | .failed _ (some bytes) => other bytes

/-- A file of pretty-printed JSON after the write of `a`. -/
def WriteOutcome.file {α : Type} (o : WriteOutcome) (before : Option (Content α)) (a : α) :
    Option (Content α) :=
  o.leave (fun bytes => some (.other bytes)) before (some (.pretty a))

/-- The environment's part in the operations: the answers of the server, and what fails. -/
structure SyncChoice where
  metadata : Except String (Option ProfileMetadata) := .ok none
  template : Except String Json := .ok (.object [])
  profileWrite : WriteOutcome := .done
  templateWrite : WriteOutcome := .done
  overridesReadable : Bool := true
  overridesWrite : WriteOutcome := .done
  overridesRename : Option String := none
  rulesDir : Option String := none
  rulesWrite : WriteOutcome := .done
  rulesRename : Option String := none
  reload : Option String := none

/-- The write of `profile.json`, with what is known of its origin. -/
def World.writeProfile (w : World) (p : PersistedProfile) (o : WriteOutcome) : World :=
  { w with
    profile := o.file w.profile p
    stored := o.leave (fun _ => none) w.stored (w.fetched.map fun t => ⟨p.version, t, false, false⟩) }

/-- The update of the state: the pull is over but for its restart. -/
def World.updateState (w : World) (version : Int) (modulesLoaded : List ModuleRef)
    (errors : List RuleError) : World :=
  let origin := w.stored.map fun p => { p with clean := decide (errors = []) }
  { w with state := ⟨version, modulesLoaded, errors⟩, stored := origin, held := origin }

/-- What an operation does to the world, for a choice of outcome. -/
def perform {β : Type} : SyncOp β → World → SyncChoice → β × World
  | .getProfileMetadata, w, c => (c.metadata, w)
  | .getProfileTemplate _, w, c => (c.template, { w with fetched := c.template.toOption })
  | .createStateDir, w, _ => ((), w)
  | .writeProfile p, w, c => (c.profileWrite.error, w.writeProfile p c.profileWrite)
  | .writeTemplate t, w, c =>
    (c.templateWrite.error, { w with template := c.templateWrite.file w.template t })
  | .readOverrides, w, c => (if c.overridesReadable then w.overrides else none, w)
  | .writeOverridesTmp o, w, c =>
    (c.overridesWrite.error, { w with overridesTmp := c.overridesWrite.file w.overridesTmp o })
  | .renameOverrides, w, c =>
    match c.overridesRename, w.overridesTmp with
    | none, some o => (none, { w with overrides := some o, overridesTmp := none })
    | e, _ => (some (e.getD "not found"), w)
  | .createRulesDir, w, c => (c.rulesDir, w)
  | .writeRulesTmp body, w, c =>
    (c.rulesWrite.error, { w with rulesTmp := c.rulesWrite.leave some w.rulesTmp (some body) })
  | .renameRules, w, c =>
    match c.rulesRename, w.rulesTmp with
    | none, some body => (none, { w with rules := some body, rulesTmp := none })
    | e, _ => (some (e.getD "not found"), w)
  | .forceReload, w, c => (c.reload, w)
  | .updateState version modulesLoaded errors, w, _ =>
    ((), w.updateState version modulesLoaded errors)
  | .bumpProfileSync, w, _ => ((), { w with profileSyncs := w.profileSyncs + 1 })
  | .requestRestart, w, _ => ((), { w with shutdown := true })

/-- The state that the agent starts with. `readable` is the environment's part, and `parseProfile`
is what the decoder makes of bytes that no pull wrote. -/
def loadPersisted (parseProfile : String → Option PersistedProfile) (readable : Bool)
    (profile : Option (Content PersistedProfile)) : ProfileState :=
  let state (p : PersistedProfile) : ProfileState := ⟨p.version, p.modulesLoaded, []⟩
  match readable, profile with
  | true, some (.pretty p) => state p
  | true, some (.other bytes) => ((parseProfile bytes).map state).getD {}
  | _, _ => {}

end Sync

end Control

end WazabiAgent
