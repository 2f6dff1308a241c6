import WazabiAgent.Control.Commands
import WazabiAgent.Control.Isolation
import WazabiAgent.Control.SyncReport
import WazabiAgent.Plugin.Assignment

/-!
# Convergence to the server's profile

One iteration of the heartbeat loop reports the profile in force, executes the commands that the
server holds as pending, and pulls the assigned profile if the version that the server answers with
is greater than the local one, or if one of the commands asks for it. What is compared are two
numbers: that they may belong to different profiles is not noticed. So an agent that is moved to a
profile whose version is not greater, or whose profile is rolled back, keeps what it has until the
server asks for a pull.

`beat` is a program over `BeatOp`, the operations of a pull among them. A command does to the files
whatever it is made to do, but does not reach into the memory of the agent. The reconciliation of
plugins has files of its own. The counters and the log lines are left out.

## Main results

* `complete_syncProfile` — the pull happens exactly where `Trails` says so
* `converged_beat_iff` — after a heartbeat in which nothing fails, when the profile is the server's
* `rollback_not_pulled` — a rollback and a reassignment that go unnoticed
-/

namespace WazabiAgent

namespace Control

namespace Sync

open Prog

/-! ### An iteration of the loop -/

/-- What the server answers to a heartbeat. -/
structure HeartbeatResponse where
  serverTime : String := ""
  currentProfileVersion : Int := 0
  pendingCommands : List Command := []
  pendingPlugins : List Plugin.PendingPluginAction := []
  nextCheckinSeconds : Int := 0

/-- What the loop of the heartbeats asks of the server and of the commands. -/
inductive LoopOp : Type → Type
  /-- A copy of the profile state. -/
  | readState : LoopOp ProfileState
  | heartbeat (request : HeartbeatRequest) : LoopOp (Except String HeartbeatResponse)
  | execute (cmd : Command) : LoopOp ExecutionResult
  | ackCommand (id status : String) (result : Json) : LoopOp (Option String)
  | processPendingPlugins (actions : List Plugin.PendingPluginAction) : LoopOp Unit

/-- The operations of the loop, and those of a pull. -/
abbrev BeatOp (β : Type) : Type := LoopOp β ⊕ SyncOp β

/-- Asks it within a beat. -/
def LoopOp.call {β : Type} (o : LoopOp β) : Prog BeatOp β := Prog.call (F := BeatOp) (.inl o)

/-- Execute and acknowledge the commands; answers whether one of them asks for a pull. -/
def runCommands : List Command → Bool → Prog BeatOp Bool
  | [], forceProfilePull => return forceProfilePull
  | cmd :: cmds, forceProfilePull => do
    let outcome ← (LoopOp.execute cmd).call
    let _ ← (LoopOp.ackCommand cmd.id outcome.status outcome.result).call
    runCommands cmds (forceProfilePull || cmd.cmdType == "update_rules")

/-- The pull of this iteration, if there is one. Its error is only logged. -/
def syncProfile (cfg : SyncConfig) (currentProfileVersion : Int) (forceProfilePull : Bool) :
    Prog BeatOp Unit := do
  let state ← LoopOp.readState.call
  if currentProfileVersion > state.version ∨ forceProfilePull = true then
    let _ ← (pull cfg).embed (G := BeatOp) .inr
    return ()
  else return ()

/-- One iteration; answers with the seconds to sleep. -/
def beat (cfg : SyncConfig) (interval : ℕ) : Prog BeatOp ℕ := do
  let state ← LoopOp.readState.call
  let request : HeartbeatRequest := {
    profileVersion := state.version
    modulesLoaded := state.modulesLoaded
    ruleErrors := state.ruleErrors }
  match ← (LoopOp.heartbeat request).call with
  | .error _ => return interval
  | .ok resp =>
    let forceProfilePull ← runCommands resp.pendingCommands false
    (LoopOp.processPendingPlugins resp.pendingPlugins).call
    syncProfile cfg resp.currentProfileVersion forceProfilePull
    return if resp.nextCheckinSeconds > 0 then resp.nextCheckinSeconds.toNat else interval

/-! ### The environment -/

/-- What is in memory stays, whatever happened to the files. -/
def World.withFiles (w files : World) : World :=
  { files with
    state := w.state
    profileSyncs := w.profileSyncs
    shutdown := w.shutdown
    fetched := w.fetched
    held := w.held }

/-- The environment's part in an iteration. -/
structure BeatChoice where
  response : Except String HeartbeatResponse
  /-- The result of a command, and the files after it. -/
  executed : Command → World → ExecutionResult × World
  acked : String → Option String := fun _ => none
  sync : SyncChoice

namespace BeatOp

/-- What an operation does to the world, for a choice of outcome. -/
def perform {β : Type} : BeatOp β → World → BeatChoice → β × World
  | .inl .readState, w, _ => (w.state, w)
  | .inl (.heartbeat _), w, c => (c.response, w)
  | .inl (.execute cmd), w, c => ((c.executed cmd w).1, w.withFiles (c.executed cmd w).2)
  | .inl (.ackCommand id _ _), w, c => (c.acked id, w)
  | .inl (.processPendingPlugins _), w, _ => ((), w)
  | .inr o, w, c => Sync.perform o w c.sync

end BeatOp

/-- The profile that the server has assigned. -/
structure ServerProfile where
  metadata : ProfileMetadata
  template : Json

/-- The server's part in an iteration: its answers are about one profile. -/
structure BeatChoice.Answers (c : BeatChoice) (p : ServerProfile) (resp : HeartbeatResponse) :
    Prop where
  response : c.response = .ok resp
  current : resp.currentProfileVersion = p.metadata.version
  acked : ∀ cmd ∈ resp.pendingCommands, c.acked cmd.id = none
  metadata : c.sync.metadata = .ok (some p.metadata)
  template : c.sync.template = .ok p.template

/-- No operation on files fails. -/
structure SyncChoice.Succeeds (c : SyncChoice) : Prop where
  profileWrite : c.profileWrite.error = none
  templateWrite : c.templateWrite.error = none
  overridesReadable : c.overridesReadable = true
  overridesWrite : c.overridesWrite.error = none
  overridesRename : c.overridesRename = none
  rulesDir : c.rulesDir = none
  rulesWrite : c.rulesWrite.error = none
  rulesRename : c.rulesRename = none

/-- The profile is the server's: its version in memory and in `profile.json`, and its template. -/
structure World.Converged (w : World) (p : ServerProfile) : Prop where
  version : w.state.version = p.metadata.version
  profile : w.profile = some (.pretty p.metadata.persisted)
  template : w.template = some (.pretty p.template)

instance (w : World) (p : ServerProfile) : Decidable (w.Converged p) :=
  decidable_of_iff (w.state.version = p.metadata.version ∧
      w.profile = some (.pretty p.metadata.persisted) ∧ w.template = some (.pretty p.template))
    ⟨fun h => ⟨h.1, h.2.1, h.2.2⟩, fun h => ⟨h.version, h.profile, h.template⟩⟩

/-- The files after the commands. -/
def World.afterCommands (c : BeatChoice) : World → List Command → World :=
  List.foldl fun w cmd => w.withFiles (c.executed cmd w).2

/-- The condition of the pull: the local version is smaller, or a command asks for it. -/
def Trails (w : World) (resp : HeartbeatResponse) : Prop :=
  resp.currentProfileVersion > w.state.version ∨
    ∃ cmd ∈ resp.pendingCommands, cmd.cmdType = "update_rules"

/-! ### A pull in which nothing fails -/

/-- The operations that do not write what is recorded of the profile. -/
def SyncOp.Aside {β : Type} : SyncOp β → Prop
  | .writeProfile _ | .writeTemplate _ => False
  | _ => True

/-- What the files record of the profile. -/
structure World.Records (w : World) (p : ServerProfile) : Prop where
  profile : w.profile = some (.pretty p.metadata.persisted)
  template : w.template = some (.pretty p.template)

variable {cfg : SyncConfig} {w : World} {p : ServerProfile} {resp : HeartbeatResponse}

theorem SyncOp.Aside.records {β : Type} {o : SyncOp β} (ho : o.Aside) {c : SyncChoice}
    (h : w.Records p) : (perform o w c).2.Records p := by
  cases o with
  | writeProfile q => exact ho.elim
  | writeTemplate t => exact ho.elim
  | renameOverrides =>
    simp only [perform]
    split <;> exact ⟨h.profile, h.template⟩
  | renameRules =>
    simp only [perform]
    split <;> exact ⟨h.profile, h.template⟩
  | _ => exact ⟨h.profile, h.template⟩

theorem aside_applyRules (outcome : TemplateParseOutcome) (version : Int) :
    All SyncOp.Aside (applyRules cfg outcome version) := by
  rw [applyRules]
  cases cfg.remoteRulesPath with
  | none => trivial
  | some path =>
    refine All.bind ?_ fun e => ?_
    · refine ⟨trivial, fun e => ?_⟩
      cases e with
      | some e => trivial
      | none =>
        refine ⟨trivial, fun e => ?_⟩
        cases e with
        | some e => trivial
        | none => exact ⟨trivial, fun e => by cases e <;> trivial⟩
    · cases e with
      | some e => trivial
      | none =>
        cases cfg.engine with
        | false => trivial
        | true => exact ⟨trivial, fun e => by cases e <;> trivial⟩

theorem converged_commit {c : SyncChoice} (h : w.Records p) (outcome : TemplateParseOutcome)
    (configChanged : Bool) :
    (complete perform (commit cfg p.metadata outcome configChanged) w c).2.Converged p := by
  have hrecords : (complete perform (applyRules cfg outcome p.metadata.version) w c).2.Records p :=
    complete_of_all perform (I := (World.Records · p))
      (aside_applyRules outcome p.metadata.version) (fun o v ho hv => ho.records hv) h
  simp only [commit, complete_bind, call_bind, complete_op]
  cases configChanged <;> exact ⟨rfl, hrecords.profile, hrecords.template⟩

/-- **A pull that succeeds converges**, where the rules of the template decode. -/
theorem converged_pull {c : SyncChoice} (hmetadata : c.metadata = .ok (some p.metadata))
    (htemplate : c.template = .ok p.template) (hc : c.Succeeds)
    (hrules : (templateRules p.template).isSome) :
    (complete perform (pull cfg) w c).2.Converged p := by
  obtain ⟨rules, hrules⟩ := Option.isSome_iff_exists.mp hrules
  have hdone : ∀ o : WriteOutcome, o.error = none → o = .done := by
    rintro (_ | _) h
    · rfl
    · cases h
  simp only [pull, install, call_bind, complete_op, perform, hmetadata, htemplate,
    hdone _ hc.profileWrite, hdone _ hc.templateWrite, WriteOutcome.error, complete_bind]
  simp only [parseTemplateRules, hrules, complete_bind, pure_eq, complete_pure]
  refine converged_commit (complete_of_all perform (I := (World.Records · p)) (φ := SyncOp.Aside)
    (all_writeAgentConfigOverrides trivial trivial (fun _ => trivial) trivial)
    (fun o v ho hv => ho.records hv) ⟨rfl, rfl⟩) _ _

/-! ### The iteration -/

theorem complete_runCommands (c : BeatChoice) (cmds : List Command) (force : Bool) (w : World) :
    complete BeatOp.perform (runCommands cmds force) w c
      = (force || cmds.any (·.cmdType == "update_rules"), w.afterCommands c cmds) := by
  induction cmds generalizing force w with
  | nil => simp [runCommands, World.afterCommands]
  | cons cmd cmds ih =>
    simp only [runCommands, LoopOp.call, call_bind, complete_op, ih, List.any_cons, Bool.or_assoc]
    rfl

/-- Commands leave the memory alone. -/
theorem state_afterCommands (c : BeatChoice) (cmds : List Command) (w : World) :
    (w.afterCommands c cmds).state = w.state := by
  induction cmds generalizing w with
  | nil => rfl
  | cons cmd cmds ih => exact ih _

/-- The pull of an iteration: there is one exactly for a greater version, or by force. -/
theorem complete_syncProfile (c : BeatChoice) (version : Int) (force : Bool) (w : World) :
    (complete BeatOp.perform (syncProfile cfg version force) w c).2
      = if version > w.state.version ∨ force = true then (complete perform (pull cfg) w c.sync).2
        else w := by
  show (complete BeatOp.perform (if version > w.state.version ∨ force = true then
    (pull cfg).embed (G := BeatOp) .inr >>= fun _ => return () else return ()) w c).2 = _
  by_cases htrails : version > w.state.version ∨ force = true
  · rw [if_pos htrails, if_pos htrails, complete_bind,
      complete_embed perform (f := BeatChoice.sync) (fun _ _ _ => rfl)]
    rfl
  · rw [if_neg htrails, if_neg htrails]
    rfl

/-- What an iteration leaves where the server answers. -/
theorem complete_beat {c : BeatChoice} (hc : c.response = .ok resp) (interval : ℕ) (w : World)
    [Decidable (Trails w resp)] :
    (complete BeatOp.perform (beat cfg interval) w c).2
      = if Trails w resp
        then (complete perform (pull cfg) (w.afterCommands c resp.pendingCommands) c.sync).2
        else w.afterCommands c resp.pendingCommands := by
  have hforce : (resp.currentProfileVersion > w.state.version ∨
      (false || resp.pendingCommands.any (·.cmdType == "update_rules")) = true) ↔
        Trails w resp := by
    simp [Trails]
  simp only [beat, LoopOp.call, call_bind, complete_op, BeatOp.perform, hc, complete_bind, pure_eq,
    complete_pure, complete_runCommands, complete_syncProfile, state_afterCommands]
  by_cases htrails : Trails w resp
  · rw [if_pos htrails, if_pos (hforce.mpr htrails)]
  · rw [if_neg htrails, if_neg (mt hforce.mp htrails)]

/-- **When a heartbeat converges.** In an iteration in which all requests and file operations
succeed, and where the rules of the server's template decode, the profile is afterwards the
server's exactly if the server's version is greater than the local one, or a command asks for a
pull, or the profile was the server's already. -/
theorem converged_beat_iff (cfg : SyncConfig) (interval : ℕ) (w : World) (p : ServerProfile)
    (resp : HeartbeatResponse) (c : BeatChoice) (hserver : c.Answers p resp)
    (hfiles : c.sync.Succeeds) (hrules : (templateRules p.template).isSome) :
    (complete BeatOp.perform (beat cfg interval) w c).2.Converged p ↔
      Trails w resp ∨ (w.afterCommands c resp.pendingCommands).Converged p := by
  classical
  rw [complete_beat hserver.response]
  by_cases htrails : Trails w resp
  · rw [if_pos htrails]
    exact iff_of_true (converged_pull hserver.metadata hserver.template hfiles hrules)
      (.inl htrails)
  · rw [if_neg htrails, or_iff_right htrails]

/-! ### Runs -/

/-- An iteration in which nothing fails, with these commands and no plugins to reconcile. -/
def answered (p : ServerProfile) (cmds : List Command) : BeatChoice where
  response := .ok { currentProfileVersion := p.metadata.version, pendingCommands := cmds }
  executed _ w := (⟨"completed", .object []⟩, w)
  sync := {
    metadata := .ok (some p.metadata)
    template := .ok p.template }

theorem answers_answered (p : ServerProfile) (cmds : List Command) : (answered p cmds).Answers p
    { currentProfileVersion := p.metadata.version, pendingCommands := cmds } :=
  ⟨rfl, rfl, fun _ _ => rfl, rfl, rfl⟩

theorem succeeds_answered (p : ServerProfile) (cmds : List Command) :
    (answered p cmds).sync.Succeeds :=
  ⟨rfl, rfl, rfl, rfl, rfl, rfl, rfl, rfl⟩

/-- A version that is not greater changes nothing. -/
theorem beat_answered_nil {cfg : SyncConfig} {interval : ℕ} {w : World} {p : ServerProfile}
    (h : p.metadata.version ≤ w.state.version) :
    (complete BeatOp.perform (beat cfg interval) w (answered p [])).2 = w := by
  classical
  have htrails : ¬Trails w { currentProfileVersion := p.metadata.version } := by
    rintro (hgreater | ⟨cmd, hcmd, -⟩)
    · simp only at hgreater
      omega
    · cases hcmd
  rw [complete_beat (answers_answered p []).response, if_neg htrails]
  rfl

/-- The iterations of the loop, one after the other. -/
def beats (cfg : SyncConfig) : World → List BeatChoice → World :=
  List.foldl fun w c => (complete BeatOp.perform (beat cfg 60) w c).2

/-- A profile with one rule. -/
def profileOf (profileId : String) (version : Int) : ServerProfile where
  metadata := ⟨profileId, version, "", []⟩
  template := templateOf [(profileId, remoteThreadRule)]

/-- The agent of a new installation converges. -/
theorem installed_converges :
    (complete BeatOp.perform (beat plainConfig 60) {} (answered (profileOf "p1" 5) [])).2.Converged
      (profileOf "p1" 5) :=
  (converged_beat_iff plainConfig 60 {} (profileOf "p1" 5) _ (answered (profileOf "p1" 5) [])
    (answers_answered _ _) (succeeds_answered _ _) (by decide +kernel)).mpr
    (.inl (.inl (by decide)))

/-- A profile in version 6 with a rule that has no name. -/
def unnamedProfile : ServerProfile where
  metadata := ⟨"p1", 6, "", []⟩
  template := .object [("rules", .array [.object [("waza_source", .string remoteThreadRule)]])]

/-- **A rollback and a reassignment that go unnoticed.** The agent has version 5 of a profile. The
server goes back to version 3 of it, or assigns another profile in version 5: all requests and all
file operations of the next heartbeat succeed, and it leaves everything as it is. A greater version
is pulled, but where its rules do not decode the version in memory does not follow. -/
theorem rollback_not_pulled :
    ¬(∀ (cfg : SyncConfig) (interval : ℕ) (w : World) (p : ServerProfile)
        (resp : HeartbeatResponse) (c : BeatChoice), c.Answers p resp → c.sync.Succeeds →
        (complete BeatOp.perform (beat cfg interval) w c).2.Converged p) ∧
      (∀ p ∈ [profileOf "p1" 3, profileOf "p2" 5],
        beats plainConfig {} [answered (profileOf "p1" 5) [], answered p []]
            = beats plainConfig {} [answered (profileOf "p1" 5) []] ∧
          ¬(beats plainConfig {} [answered (profileOf "p1" 5) [], answered p []]).Converged p) ∧
      ¬(beats plainConfig {} [answered (profileOf "p1" 5) [],
        answered unnamedProfile []]).Converged unnamedProfile := by
  have hversion : (beats plainConfig {} [answered (profileOf "p1" 5) []]).state.version = 5 := by
    decide +kernel
  have hrollback : ¬(beats plainConfig {} [answered (profileOf "p1" 5) [],
      answered (profileOf "p1" 3) []]).Converged (profileOf "p1" 3) := by
    decide +kernel
  refine ⟨fun h => hrollback ?_, fun p hp => ?_, by decide +kernel⟩
  · exact h plainConfig 60 (beats plainConfig {} [answered (profileOf "p1" 5) []])
      (profileOf "p1" 3) _ (answered (profileOf "p1" 3) []) (answers_answered _ _)
      (succeeds_answered _ _)
  · have hle : p.metadata.version ≤ 5 := by
      simp only [List.mem_cons, List.not_mem_nil, or_false] at hp
      rcases hp with rfl | rfl <;> decide
    have hkept : beats plainConfig {} [answered (profileOf "p1" 5) [], answered p []]
        = beats plainConfig {} [answered (profileOf "p1" 5) []] :=
      beat_answered_nil (hle.trans_eq hversion.symm)
    refine ⟨hkept, ?_⟩
    simp only [List.mem_cons, List.not_mem_nil, or_false] at hp
    rcases hp with rfl | rfl <;> decide +kernel

end Sync

end Control

end WazabiAgent
