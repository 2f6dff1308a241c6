import WazabiAgent.Config.Load
import WazabiAgent.Control.SyncAtomicity

/-!
# Restarts for changed overrides

The overrides are read when the agent starts and never again, so a `pull` that stores other ones
asks for a restart. It decides that when it writes the file, by comparing bytes, and asks at its
very end. In between it can return with an error, since the rules of the template are decoded
only then; and bytes can differ where the settings do not.

A process runs pulls until a restart is asked for. It can also end in the middle of a pull, or at
any other time, and is then started again.

## Main definitions

* `Agent`, `Agent.step` — the process with the files, and what can happen to them
* `Agent.RestartsExactly` — a restart is asked for exactly if other settings are stored

## Main results

* `complete_pull` — what a pull does to the overrides and to the request
* `restartsExactly_iff_along` — when the property holds throughout a run
-/

namespace WazabiAgent

namespace Control

namespace Sync

open Prog LabelledStep

variable {parseOverrides : String → Option Config.AgentConfigOverrides} {cfg : SyncConfig}

/-! ### What a pull stores -/

/-- The overrides step gets to its end. -/
def Stores (w : World) (c : SyncChoice) (template : Json) : Prop :=
  ¬(c.overridesReadable = true ∧ w.overrides = some (.pretty (agentConfig template))) ∧
    c.overridesWrite.error = none ∧ c.overridesRename = none

instance (w : World) (c : SyncChoice) (template : Json) : Decidable (Stores w c template) := by
  unfold Stores
  infer_instance

/-- The template whose overrides a pull stores, if it stores any. -/
def storedTemplate (w : World) (c : SyncChoice) : Option Json :=
  match c.metadata, c.template with
  | .ok (some _), .ok template =>
    if c.profileWrite.error = none ∧ Stores w c template then some template else none
  | _, _ => none

/-- The overrides step. -/
theorem complete_writeAgentConfigOverrides_eq (w : World) (c : SyncChoice) (template : Json) :
    ∃ tmp, complete perform (writeAgentConfigOverrides template) w c =
      (decide (Stores w c template),
        { w with
          overrides :=
            if Stores w c template then some (.pretty (agentConfig template)) else w.overrides
          overridesTmp := tmp }) := by
  simp only [writeAgentConfigOverrides, call_bind, complete_op, pure_eq]
  have hread : (perform .readOverrides w c).1 = some (.pretty (agentConfig template)) ↔
      c.overridesReadable = true ∧ w.overrides = some (.pretty (agentConfig template)) := by
    cases h : c.overridesReadable <;> simp [perform, h]
  by_cases hsame : (perform .readOverrides w c).1 = some (.pretty (agentConfig template))
  · have hstores : ¬Stores w c template := fun h => h.1 (hread.mp hsame)
    rw [if_pos hsame, if_neg hstores, decide_eq_false hstores]
    exact ⟨_, rfl⟩
  · rw [if_neg hsame]
    rw [hread] at hsame
    simp only [complete_op, perform]
    cases hwrite : c.overridesWrite with
    | failed e left =>
      have hstores : ¬Stores w c template := fun h => by
        simp [hwrite, WriteOutcome.error, Stores] at h
      rw [if_neg hstores, decide_eq_false hstores]
      exact ⟨_, rfl⟩
    | done =>
      simp only [WriteOutcome.error, WriteOutcome.file, WriteOutcome.leave, complete_op, perform]
      cases hrename : c.overridesRename with
      | some e =>
        have hstores : ¬Stores w c template := fun h => by simp [hrename, Stores] at h
        rw [if_neg hstores, decide_eq_false hstores]
        exact ⟨_, rfl⟩
      | none =>
        have hstores : Stores w c template :=
          ⟨hsame, by rw [hwrite]; rfl, hrename⟩
        rw [if_pos hstores, decide_eq_true hstores]
        exact ⟨_, rfl⟩

/-- Applying the rules touches neither the overrides nor the request. -/
theorem complete_applyRules (cfg : SyncConfig) (w : World) (c : SyncChoice)
    (outcome : TemplateParseOutcome) (version : Int) :
    (complete perform (applyRules cfg outcome version) w c).2.overrides = w.overrides ∧
      (complete perform (applyRules cfg outcome version) w c).2.shutdown = w.shutdown := by
  rw [applyRules]
  cases cfg.remoteRulesPath with
  | none => exact ⟨rfl, rfl⟩
  | some path =>
    simp only [writeAcceptedRules, call_bind, pure_eq, op_bind, complete_op, perform]
    cases c.rulesDir with
    | some e => exact ⟨rfl, rfl⟩
    | none =>
      simp only [op_bind, complete_op, perform]
      cases hwrite : c.rulesWrite with
      | failed e left => exact ⟨rfl, rfl⟩
      | done =>
        simp only [WriteOutcome.error, WriteOutcome.leave, op_bind, complete_op, perform]
        cases c.rulesRename with
        | some e => exact ⟨rfl, rfl⟩
        | none =>
          simp only [pure_bind]
          cases cfg.engine with
          | false => exact ⟨rfl, rfl⟩
          | true =>
            simp only [if_true, complete_op, perform]
            cases c.reload <;> exact ⟨rfl, rfl⟩

theorem complete_commit (cfg : SyncConfig) (w : World) (c : SyncChoice) (profile : ProfileMetadata)
    (outcome : TemplateParseOutcome) (changed : Bool) :
    (complete perform (commit cfg profile outcome changed) w c).2.overrides = w.overrides ∧
      (complete perform (commit cfg profile outcome changed) w c).2.shutdown
        = (w.shutdown || changed) := by
  obtain ⟨hoverrides, hshutdown⟩ := complete_applyRules cfg w c outcome profile.version
  simp only [commit, complete_bind, call_bind, complete_op, perform]
  cases changed with
  | false =>
    simp only [Bool.or_false]
    exact ⟨hoverrides, hshutdown⟩
  | true =>
    rw [Bool.or_true]
    exact ⟨hoverrides, rfl⟩

/-- A pull from the overrides step on. -/
theorem complete_writeOverrides_parse (w : World) (c : SyncChoice) (profile : ProfileMetadata)
    (template : Json) :
    let w' := (complete perform (do
      let configChanged ← writeAgentConfigOverrides template
      match parseTemplateRules cfg template with
      | .error e => return .error e
      | .ok outcome =>
        commit cfg profile outcome configChanged
        return .ok () : Prog SyncOp (Except String Unit)) w c).2
    w'.overrides
        = (if Stores w c template then some (.pretty (agentConfig template)) else w.overrides) ∧
      w'.shutdown = (w.shutdown || (decide (Stores w c template) && (templateRules template).isSome))
    := by
  obtain ⟨tmp, heq⟩ := complete_writeAgentConfigOverrides_eq w c template
  simp only [complete_bind, heq, parseTemplateRules]
  cases templateRules template with
  | none => simp
  | some rules =>
    obtain ⟨hoverrides, hshutdown⟩ := complete_commit cfg
      { w with
        overrides := if Stores w c template then some (.pretty (agentConfig template))
          else w.overrides
        overridesTmp := tmp } c profile
      (rules.foldl (RuleScan.rule cfg.parseSource) {}).toTemplateParseOutcome
      (decide (Stores w c template))
    simp only [complete_bind, pure_eq, complete_pure, Option.isSome_some, Bool.and_true]
    exact ⟨hoverrides, hshutdown⟩

/-- **What a pull does.** It stores the overrides of `storedTemplate`, and asks for a restart if
the rules of that template decode. -/
theorem complete_pull (cfg : SyncConfig) (w : World) (c : SyncChoice) :
    (complete perform (pull cfg) w c).2.overrides
        = ((storedTemplate w c).map fun t => some (.pretty (agentConfig t))).getD w.overrides ∧
      (complete perform (pull cfg) w c).2.shutdown
        = (w.shutdown || (storedTemplate w c).any fun t => (templateRules t).isSome) := by
  simp only [pull, call_bind, complete_op, perform, storedTemplate]
  rcases c.metadata with e | _ | profile
  · simp
  · simp
  · simp only [complete_op, perform]
    rcases c.template with e | template
    · simp
    · simp only [install, call_bind, complete_op, perform]
      cases hwrite : c.profileWrite.error with
      | some e => simp [World.writeProfile]
      | none =>
        simp only [complete_op, perform, true_and]
        -- the writes before it do not decide whether the overrides are stored
        refine ⟨(complete_writeOverrides_parse _ c profile template).1.trans ?_,
          (complete_writeOverrides_parse _ c profile template).2.trans ?_⟩
        · by_cases hstores : Stores w c template
          · exact (if_pos hstores).trans (by simp [hstores])
          · exact (if_neg hstores).trans (by simp [hstores, World.writeProfile])
        · show (w.shutdown || (decide (Stores w c template) && _)) = _
          by_cases hstores : Stores w c template <;> simp [hstores]

/-! ### The agent -/

/-- The settings that the overrides file denotes. Where there is none, or none that decodes,
nothing is overridden; `parseOverrides` is what the decoder makes of bytes that no pull wrote. -/
def settings (parseOverrides : String → Option Config.AgentConfigOverrides) :
    Option (Content Json) → Config.AgentConfigOverrides
  | none => {}
  | some (.pretty j) => (Config.decodeOverrides j).getD {}
  | some (.other bytes) => (parseOverrides bytes).getD {}

/-- The files, and the process that runs with what it read at its start. -/
structure Agent where
  world : World
  inForce : Config.AgentConfigOverrides
  deriving DecidableEq

/-- The process starts. -/
def Agent.start (parseOverrides : String → Option Config.AgentConfigOverrides) (w : World) :
    Agent where
  world := { w with shutdown := false }
  inForce := settings parseOverrides w.overrides

/-- A pull, whole or cut, or a restart. -/
inductive AgentLabel
  | pull (c : SyncChoice)
  /-- The process ends within a pull, after so many operations, and is started again. -/
  | crash (operations : ℕ) (c : SyncChoice)
  /-- It ends between two pulls and is started again, because it asked for that or not. -/
  | restart

/-- A process that has asked for its restart pulls no more. -/
def Agent.step (parseOverrides : String → Option Config.AgentConfigOverrides) (cfg : SyncConfig)
    (s : Agent) : AgentLabel → Option Agent
  | .pull c =>
    if s.world.shutdown then none
    else some { s with world := (complete perform (pull cfg) s.world c).2 }
  | .crash operations c =>
    if s.world.shutdown then none
    else some (.start parseOverrides
      (exec perform (pull cfg) s.world (List.replicate operations c)).2)
  | .restart => some (.start parseOverrides s.world)

/-- A restart is asked for exactly if the stored overrides denote other settings than those in
force. -/
def Agent.RestartsExactly (parseOverrides : String → Option Config.AgentConfigOverrides)
    (s : Agent) : Prop :=
  s.world.shutdown = true ↔ settings parseOverrides s.world.overrides ≠ s.inForce

instance (s : Agent) : Decidable (s.RestartsExactly parseOverrides) := by
  unfold Agent.RestartsExactly
  infer_instance

/-- It is so in every state that the run `ls` goes through. -/
def RestartsExactlyIn (parseOverrides : String → Option Config.AgentConfigOverrides)
    (cfg : SyncConfig) (w : World) (ls : List AgentLabel) : Prop :=
  ∀ ms rest t, ls = ms ++ rest →
    run (Agent.step parseOverrides cfg) (.start parseOverrides w) ms = some t →
      t.RestartsExactly parseOverrides

/-- The condition: where a pull stores overrides, the rules of their template decode exactly if
they denote other settings than those stored before. -/
def StoresWithRules (parseOverrides : String → Option Config.AgentConfigOverrides) (s : Agent) :
    AgentLabel → Prop
  | .pull c => ∀ template, storedTemplate s.world c = some template →
      ((templateRules template).isSome ↔
        settings parseOverrides (some (.pretty (agentConfig template)))
          ≠ settings parseOverrides s.world.overrides)
  | .crash _ _ | .restart => True

theorem restartsExactly_start (w : World) :
    (Agent.start parseOverrides w).RestartsExactly parseOverrides := by
  simp [Agent.RestartsExactly, Agent.start]

/-- After a pull by a process that has asked for nothing and runs with what is stored. -/
theorem restartsExactly_pull_iff {s : Agent} (hs : s.RestartsExactly parseOverrides)
    (hrun : s.world.shutdown = false) (c : SyncChoice) :
    Agent.RestartsExactly parseOverrides
        { s with world := (complete perform (pull cfg) s.world c).2 } ↔
      StoresWithRules parseOverrides s (.pull c) := by
  have hforce : settings parseOverrides s.world.overrides = s.inForce := by
    by_contra h
    rw [Agent.RestartsExactly, hrun] at hs
    exact absurd (hs.mpr h) (by decide)
  obtain ⟨hoverrides, hshutdown⟩ := complete_pull cfg s.world c
  simp only [Agent.RestartsExactly, StoresWithRules]
  rw [hoverrides, hshutdown, hrun]
  cases hstored : storedTemplate s.world c with
  | none => simp [hforce]
  | some template => simp [hforce]

/-- **When the agent restarts exactly for changed settings.** Throughout a run of pulls, crashes
and restarts the request agrees with the settings, if and only if every pull that stores overrides
meets the condition. -/
theorem restartsExactly_iff_along
    (parseOverrides : String → Option Config.AgentConfigOverrides) (cfg : SyncConfig) (w : World)
    {ls : List AgentLabel} {s : Agent}
    (hr : run (Agent.step parseOverrides cfg) (.start parseOverrides w) ls = some s) :
    RestartsExactlyIn parseOverrides cfg w ls ↔
      Along (Agent.step parseOverrides cfg) (StoresWithRules parseOverrides)
        (.start parseOverrides w) ls := by
  have hpull (t : Agent) (c : SyncChoice) (v : Agent) (ht : t.RestartsExactly parseOverrides)
      (hstep : t.step parseOverrides cfg (.pull c) = some v) :
      v.RestartsExactly parseOverrides ↔ StoresWithRules parseOverrides t (.pull c) := by
    simp only [Agent.step] at hstep
    split_ifs at hstep with hrun
    obtain rfl := Option.some.inj hstep
    exact restartsExactly_pull_iff ht (by simpa using hrun) c
  refine forall_split_iff_along (restartsExactly_start w) ?_ ?_ hr
  · intro t l v _ ht hl hstep
    cases l with
    | pull c => exact (hpull t c v ht hstep).mpr hl
    | crash n c =>
      simp only [Agent.step] at hstep
      split_ifs at hstep with hrun
      obtain rfl := Option.some.inj hstep
      exact restartsExactly_start _
    | restart =>
      obtain rfl := Option.some.inj hstep
      exact restartsExactly_start _
  · intro t l v _ ht hstep hv
    cases l with
    | pull c => exact (hpull t c v ht hstep).mp hv
    | crash n c => trivial
    | restart => trivial

/-! ### Runs -/

/-- The server turns DNS events off, in a profile with a rule that has no name. -/
def dnsOffUnnamedRule : SyncChoice where
  metadata := .ok (some ⟨"p1", 5, "", []⟩)
  template := .ok (.object [
    ("agent_config", .object [("etw_dns", .bool false)]),
    ("rules", .array [.object [("waza_source", .string remoteThreadRule)]])])

/-- The same with rules that decode. -/
def dnsOff : SyncChoice where
  metadata := .ok (some ⟨"p1", 5, "", []⟩)
  template := .ok (.object [
    ("agent_config", .object [("etw_dns", .bool false)]), ("rules", .array [])])

/-- A profile that overrides nothing. -/
def noOverrides : SyncChoice where
  metadata := .ok (some ⟨"p1", 5, "", []⟩)
  template := .ok (.object [("rules", .array [])])

/-- A pull of new overrides with rules that decode, and the restart it asks for: the property holds
throughout. -/
theorem dnsOff_restartsExactly :
    RestartsExactlyIn (fun _ => none) plainConfig {} [.pull dnsOff, .restart] := by
  obtain ⟨s, hs⟩ : ∃ s, run (Agent.step (fun _ => none) plainConfig) (.start (fun _ => none) {})
      [.pull dnsOff, .restart] = some s := ⟨_, rfl⟩
  refine (restartsExactly_iff_along (fun _ => none) plainConfig {} hs).mpr ⟨?_, fun t _ => ?_⟩
  · rintro template ⟨⟩
    decide +kernel
  · exact ⟨trivial, fun _ _ => trivial⟩

/-- **A change without a restart, and a restart without a change.** The overrides of the first
profile are stored, but the pull fails on a rule; the second pull finds them stored already and
asks for nothing either. An agent without an overrides file asks for a restart when a profile
overrides nothing. -/
theorem dnsOff_not_in_force :
    (run (Agent.step (fun _ => none) plainConfig) (.start (fun _ => none) {})
        [.pull dnsOffUnnamedRule, .pull dnsOff]).map
      (fun s => (s.world.shutdown, decide (s.RestartsExactly fun _ => none)))
        = some (false, false) ∧
    (run (Agent.step (fun _ => none) plainConfig) (.start (fun _ => none) {})
        [.pull noOverrides]).map
      (fun s => (s.world.shutdown, decide (s.RestartsExactly fun _ => none)))
        = some (true, false) := by
  decide +kernel

end Sync

end Control

end WazabiAgent
