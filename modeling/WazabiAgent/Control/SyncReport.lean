import WazabiAgent.Control.Sync

/-!
# What a heartbeat vouches for

A heartbeat reports the version of the state in memory, and the errors of its rules. Where the
version comes from a pull and the list of errors is empty, the server takes the rules of that
version for applied.

The state in memory is set last, when the rules file has been written. `profile.json` is written
first, and the errors are not written at all. So the report is right until the agent is restarted;
after a restart it is right if the pull that wrote `profile.json` came to its end and had no errors
to report.

The proof follows one pull: up to the write of `profile.json` both the file and the state in
memory are vouched for; from there on the file is not (`World.Fresh`), and once the rules have been
replaced the state in memory is not either; the update of the state settles both.

## Main definitions

* `SyncAgent.step` — pulls one after the other, cut short by restarts
* `SyncAgent.heartbeat` — what is reported between two pulls

## Main results

* `accepted_of_errors_nil` — without errors, the enabled rules are accepted
* `wp_pull` — what a pull preserves, wherever it is cut
* `reported_profile_applied` — what is reported without errors has been applied
* `unapplied_reported` — a crash after the first write, and a restart that forgets a rejected rule
-/

namespace WazabiAgent

namespace Control

namespace Sync

open LabelledStep Prog
open Text (isBlank)

/-! ### The agent -/

/-- The body of a heartbeat. -/
structure HeartbeatRequest where
  status : String := "healthy"
  agentVersion : String := "0.1.0"
  lastRuleVersion : Int := 0
  profileVersion : Int
  modulesLoaded : List ModuleRef
  ruleErrors : List RuleError
  metrics : Option Json := none
  deriving DecidableEq

/-- The thread that sends heartbeats and pulls profiles. -/
structure SyncAgent where
  world : World
  running : Option (Prog SyncOp (Except String Unit)) := none

namespace SyncAgent

/-- What happens next. -/
inductive Label
  | pull
  | op (c : SyncChoice)
  /-- The pull has returned. -/
  | done
  /-- The agent dies, and is started again. -/
  | restart (readable : Bool)

end SyncAgent

/-- What a restart leaves: the files, and the state that is loaded from one of them. -/
def World.restart (parseProfile : String → Option PersistedProfile) (w : World)
    (readable : Bool) : World :=
  { w with
    state := loadPersisted parseProfile readable w.profile
    profileSyncs := 0
    shutdown := false
    fetched := none
    held := if readable then w.stored.map fun p => { p with reloaded := true } else none }

namespace SyncAgent

/-- One step of the agent. -/
def step (cfg : SyncConfig) (parseProfile : String → Option PersistedProfile) (s : SyncAgent) :
    Label → Option SyncAgent
  | .pull =>
    match s.running with
    | none => some { s with running := some (Sync.pull cfg) }
    | some _ => none
  | .op c =>
    match s.running with
    | some (.op o k) => some ⟨(perform o s.world c).2, some (k (perform o s.world c).1)⟩
    | _ => none
  | .done =>
    match s.running with
    | some (.pure _) => some { s with running := none }
    | _ => none
  | .restart readable => some ⟨s.world.restart parseProfile readable, none⟩

/-- The agent with whatever files and state it starts on, none of which come from a pull. -/
def start (w : World) : SyncAgent := ⟨{ w with stored := none, held := none }, none⟩

/-- The heartbeat that is sent now: there is none during a pull. -/
def heartbeat (s : SyncAgent) : Option HeartbeatRequest :=
  match s.running with
  | none => some {
      profileVersion := s.world.state.version
      modulesLoaded := s.world.state.modulesLoaded
      ruleErrors := s.world.state.ruleErrors }
  | some _ => none

end SyncAgent

/-! ### Accepted rules -/

section

variable {parseSource : String → Except String (List String)}

theorem RuleScan.rule_of_errors_nil {acc : RuleScan} {r : TemplateRuleView}
    (h : (acc.rule parseSource r).errors = []) :
    acc.errors = [] ∧ (acc.rule parseSource r).accepted
      = acc.accepted ++ if r.isEnabled then [(r.name, r.wazaSource)] else [] := by
  have hreject : ∀ message, (acc.reject r message).errors ≠ [] := fun message => by
    simp [RuleScan.reject]
  rw [RuleScan.rule] at h ⊢
  by_cases hdisabled : r.isEnabled = false
  · simpa [hdisabled] using h
  · rw [if_neg hdisabled] at h ⊢
    rw [Bool.not_eq_false] at hdisabled
    by_cases hblank : isBlank r.wazaSource = true
    · rw [if_pos hblank] at h
      exact absurd h (hreject _)
    · rw [if_neg hblank] at h ⊢
      cases hparsed : parseSource r.wazaSource with
      | error message =>
        simp only [hparsed] at h
        exact absurd h (hreject _)
      | ok parsed =>
        simp only [hparsed] at h ⊢
        cases hfound : parsed.find? (· ∈ acc.claimedGroupNames) with
        | some name =>
          simp only [hfound] at h
          exact absurd h (hreject _)
        | none =>
          simp only [hfound] at h ⊢
          exact ⟨h, by simp [hdisabled]⟩

theorem RuleScan.foldl_of_errors_nil {rules : List TemplateRuleView} {acc : RuleScan}
    (h : (rules.foldl (RuleScan.rule parseSource) acc).errors = []) :
    acc.errors = [] ∧ (rules.foldl (RuleScan.rule parseSource) acc).accepted
      = acc.accepted ++ (rules.filter (·.isEnabled)).map fun r => (r.name, r.wazaSource) := by
  induction rules generalizing acc with
  | nil => exact ⟨h, by simp⟩
  | cons r rules ih =>
    rw [List.foldl_cons] at h ⊢
    obtain ⟨hacc, haccepted⟩ := ih h
    obtain ⟨herrors, hr⟩ := RuleScan.rule_of_errors_nil hacc
    refine ⟨herrors, ?_⟩
    rw [haccepted, hr]
    by_cases henabled : r.isEnabled = true <;> simp [henabled]

end

/-- Without errors, the accepted rules are the enabled ones. -/
theorem accepted_of_errors_nil {cfg : SyncConfig} {template : Json}
    {outcome : TemplateParseOutcome} (h : parseTemplateRules cfg template = .ok outcome)
    (herrors : outcome.errors = []) :
    ∃ rules, templateRules template = some rules ∧ outcome.accepted
      = (rules.filter (·.isEnabled)).map fun r => (r.name, r.wazaSource) := by
  rw [parseTemplateRules] at h
  cases hrules : templateRules template with
  | none => simp [hrules] at h
  | some rules =>
    simp only [hrules] at h
    obtain rfl := Except.ok.inj h
    exact ⟨rules, rfl, (RuleScan.foldl_of_errors_nil herrors).2⟩

/-! ### What is vouched for -/

/-- The rules file is that of the pull, and all rules that its template enables are in it. -/
def Provenance.Applied (cfg : SyncConfig) (p : Provenance) (file : Option String) : Prop :=
  ∃ rules outcome, templateRules p.template = some rules ∧
    parseTemplateRules cfg p.template = .ok outcome ∧
    outcome.accepted = (rules.filter (·.isEnabled)).map (fun r => (r.name, r.wazaSource)) ∧
    file = some (rulesBody outcome p.version)

/-- `profile.json` is that of the pull. -/
def World.ProfileOf (w : World) (version : Int) : Prop :=
  ∃ q, w.profile = some (.pretty q) ∧ q.version = version

/-- What a restart relies on. -/
def World.Stored (cfg : SyncConfig) (w : World) : Prop :=
  ∀ p, w.stored = some p → p.reloaded = false ∧ w.ProfileOf p.version ∧
    (p.clean = true → p.Applied cfg w.rules)

/-- What a heartbeat relies on. -/
def World.Held (cfg : SyncConfig) (w : World) : Prop :=
  ∀ p, w.held = some p → w.state.version = p.version ∧
    (p.reloaded = false → w.state.ruleErrors = [] → p.clean = true) ∧
    (p.clean = true → p.Applied cfg w.rules)

/-- A pull is under way that has written `profile.json`. -/
structure World.Fresh (version : Int) (template : Json) (w : World) : Prop where
  stored : w.stored = some { version, template }
  profile : w.ProfileOf version

variable {cfg : SyncConfig} {w : World} {c : SyncChoice} {version : Int} {template : Json}

theorem World.Fresh.safe (h : w.Fresh version template) : w.Stored cfg := by
  intro p hp
  obtain rfl := Option.some.inj (h.stored.symm.trans hp)
  exact ⟨rfl, h.profile, fun hclean => by cases hclean⟩

/-- What the three of them speak of is the same. -/
structure World.Agree (w w' : World) : Prop where
  profile : w'.profile = w.profile
  rules : w'.rules = w.rules
  state : w'.state = w.state
  stored : w'.stored = w.stored
  held : w'.held = w.held

variable {w' : World}

theorem World.Stored.agree (h : w.Stored cfg) (ha : w.Agree w') : w'.Stored cfg := by
  intro p hp
  rw [World.ProfileOf, ha.profile, ha.rules]
  exact h p (ha.stored.symm.trans hp)

theorem World.Held.agree (h : w.Held cfg) (ha : w.Agree w') : w'.Held cfg := by
  intro p hp
  rw [ha.state, ha.rules]
  exact h p (ha.held.symm.trans hp)

theorem World.Fresh.agree (h : w.Fresh version template) (ha : w.Agree w') :
    w'.Fresh version template :=
  ⟨ha.stored.trans h.stored, by rw [World.ProfileOf, ha.profile]; exact h.profile⟩

/-- The other operations. -/
def SyncOp.Quiet {β : Type} : SyncOp β → Prop
  | .writeProfile _ | .renameRules | .updateState _ _ _ => False
  | _ => True

theorem SyncOp.Quiet.agree {β : Type} {o : SyncOp β} (ho : o.Quiet) :
    w.Agree (perform o w c).2 := by
  cases o with
  | writeProfile p => exact ho.elim
  | renameRules => exact ho.elim
  | updateState version modulesLoaded errors => exact ho.elim
  | renameOverrides =>
    simp only [perform]
    split <;> exact ⟨rfl, rfl, rfl, rfl, rfl⟩
  | _ => exact ⟨rfl, rfl, rfl, rfl, rfl⟩

/-! ### The parts of a pull -/

/-- The precondition of `p`, with what a restart relies on wherever `p` is cut. -/
abbrev pulling {α : Type} (cfg : SyncConfig) (p : Prog SyncOp α) (Q : α → World → Prop)
    (w : World) : Prop :=
  wp perform (fun _ _ _ => True) Eq (World.Stored cfg) p Q w

theorem pulling_op {α β : Type} {o : SyncOp β} {k : β → Prog SyncOp α} {Q : α → World → Prop}
    (hw : w.Stored cfg) (hk : ∀ c, pulling cfg (k (perform o w c).1) Q (perform o w c).2) :
    pulling cfg (.op o k) Q w :=
  (wp_alone_op o k Q w).mpr ⟨hw, fun c _ => hk c⟩

theorem pulling_of_quiet {α : Type} {p : Prog SyncOp α} {I : World → Prop}
    (hp : All SyncOp.Quiet p) (hI : ∀ v v', I v → v.Agree v' → I v')
    (hstored : ∀ v, I v → v.Stored cfg) (h : I w) : pulling cfg p (fun _ => I) w := by
  refine wp_of_all (φ := SyncOp.Quiet) hp (fun v v' hv he => he ▸ hv) hstored
    (fun o v c ho _ hv => ?_) h
  exact hI v _ hv ho.agree

variable {outcome : TemplateParseOutcome} {profile : ProfileMetadata}

theorem wp_writeAcceptedRules {path : RulesPath} (h : w.Fresh version template) :
    pulling cfg (writeAcceptedRules path outcome version) (fun e w =>
      w.Fresh version template ∧ (e = none → w.rules = some (rulesBody outcome version))) w := by
  simp only [writeAcceptedRules, call_bind, pure_eq]
  refine pulling_op h.safe fun c => ?_
  simp only [perform]
  cases c.rulesDir with
  | some e => exact (wp_alone_pure ..).mpr ⟨h, fun he => by cases he⟩
  | none =>
    refine pulling_op h.safe fun c => ?_
    cases hwrite : c.rulesWrite with
    | failed e left =>
      simp only [perform, hwrite, WriteOutcome.error]
      exact (wp_alone_pure ..).mpr ⟨⟨h.stored, h.profile⟩, fun he => by cases he⟩
    | done =>
      simp only [perform, hwrite, WriteOutcome.error, WriteOutcome.leave]
      refine pulling_op (World.Fresh.safe ⟨h.stored, h.profile⟩) fun c => ?_
      cases hrename : c.rulesRename with
      | some e =>
        simp only [perform, hrename]
        exact (wp_alone_pure ..).mpr ⟨⟨h.stored, h.profile⟩, fun he => by cases he⟩
      | none =>
        simp only [perform, hrename]
        exact (wp_alone_pure ..).mpr ⟨⟨h.stored, h.profile⟩, fun _ => rfl⟩

/-- Where the rules go to a file, no errors means that they got there. -/
theorem wp_applyRules {path : RulesPath} (hpath : cfg.remoteRulesPath = some path)
    (h : w.Fresh version template) :
    pulling cfg (applyRules cfg outcome version) (fun errors w => w.Fresh version template ∧
      (errors = [] → outcome.errors = [] ∧ w.rules = some (rulesBody outcome version))) w := by
  simp only [applyRules, hpath]
  refine wp_bind.mpr (wp_mono (fun e v hv => ?_) (wp_writeAcceptedRules h))
  cases e with
  | some e => exact (wp_alone_pure ..).mpr ⟨hv.1, fun he => by simp at he⟩
  | none =>
    have hrules : v.rules = some (rulesBody outcome version) := hv.2 rfl
    by_cases hengine : cfg.engine = true
    · simp only [hengine, if_true, call_bind]
      refine pulling_op hv.1.safe fun c => ?_
      simp only [perform]
      cases c.reload with
      | some e => exact (wp_alone_pure ..).mpr ⟨hv.1, fun he => by simp at he⟩
      | none => exact (wp_alone_pure ..).mpr ⟨hv.1, fun he => ⟨he, hrules⟩⟩
    · simp only [hengine]
      exact (wp_alone_pure ..).mpr ⟨hv.1, fun he => ⟨he, hrules⟩⟩

/-- Both the file and the state in memory are vouched for. -/
def World.Vouched (cfg : SyncConfig) (w : World) : Prop := w.Stored cfg ∧ w.Held cfg

theorem World.Vouched.agree (h : w.Vouched cfg) (ha : w.Agree w') : w'.Vouched cfg :=
  ⟨h.1.agree ha, h.2.agree ha⟩

/-- The update of the state, when no errors mean that the rules have been applied. -/
theorem World.Fresh.updateState {modulesLoaded : List ModuleRef} {errors : List RuleError}
    (h : w.Fresh version template) (hparse : parseTemplateRules cfg template = .ok outcome)
    (herrors : errors = [] → outcome.errors = [] ∧ w.rules = some (rulesBody outcome version)) :
    (w.updateState version modulesLoaded errors).Vouched cfg := by
  have horigin : w.stored.map (fun p => { p with clean := decide (errors = []) })
      = some { version, template, clean := decide (errors = []) } := by
    rw [h.stored, Option.map_some]
  have happlied : ∀ clean reloaded, errors = [] →
      Provenance.Applied cfg { version, template, clean, reloaded } w.rules := by
    intro _ _ hnil
    obtain ⟨houtcome, hrules⟩ := herrors hnil
    obtain ⟨rules, htemplate, haccepted⟩ := accepted_of_errors_nil hparse houtcome
    exact ⟨rules, outcome, htemplate, hparse, haccepted, hrules⟩
  constructor
  · intro p hp
    obtain rfl := Option.some.inj (horigin.symm.trans hp)
    exact ⟨rfl, h.profile, fun hclean => happlied _ _ (of_decide_eq_true hclean)⟩
  · intro p hp
    obtain rfl := Option.some.inj (horigin.symm.trans hp)
    exact ⟨rfl, fun _ hnil => decide_eq_true hnil,
      fun hclean => happlied _ _ (of_decide_eq_true hclean)⟩

theorem wp_commit {path : RulesPath} {configChanged : Bool}
    (hpath : cfg.remoteRulesPath = some path) (h : w.Fresh profile.version template)
    (hparse : parseTemplateRules cfg template = .ok outcome) :
    pulling cfg (commit cfg profile outcome configChanged) (fun _ => World.Vouched cfg) w := by
  rw [commit]
  refine wp_bind.mpr (wp_mono (fun errors v hv => ?_) (wp_applyRules hpath h))
  simp only [call_bind, pure_eq]
  refine pulling_op hv.1.safe fun c => ?_
  refine pulling_of_quiet ?_ (fun _ _ hu ha => hu.agree ha) (fun _ hu => hu.1)
    (hv.1.updateState hparse hv.2)
  refine ⟨trivial, fun _ => ?_⟩
  cases configChanged
  · trivial
  · exact ⟨trivial, fun _ => trivial⟩

/-- The operations of the overrides step. -/
theorem all_writeAgentConfigOverrides {φ : {β : Type} → SyncOp β → Prop}
    (hread : φ .readOverrides) (hdir : φ .createStateDir)
    (hwrite : ∀ overrides, φ (.writeOverridesTmp overrides)) (hrename : φ .renameOverrides) :
    All φ (writeAgentConfigOverrides template) := by
  simp only [writeAgentConfigOverrides, call_bind, pure_eq]
  refine ⟨hread, fun current => ?_⟩
  by_cases hsame : current = some (.pretty (agentConfig template))
  · simp only [if_pos hsame]
    trivial
  · simp only [if_neg hsame]
    refine ⟨hdir, fun _ => ⟨hwrite _, fun e => ?_⟩⟩
    cases e with
    | some e => trivial
    | none => exact ⟨hrename, fun e => by cases e <;> trivial⟩

/-- The write of `profile.json`: the file is that of this pull, or what it was, or of no pull. The
state in memory is not concerned. -/
theorem World.Vouched.writeProfile (h : w.Vouched cfg) (hfetched : w.fetched = some template)
    (p : PersistedProfile) (o : WriteOutcome) :
    ((w.writeProfile p o).Vouched cfg) ∧
      (o.error = none → (w.writeProfile p o).Fresh p.version template) := by
  have hheld : (w.writeProfile p o).Held cfg := h.2
  cases o with
  | done =>
    have hfresh : (w.writeProfile p .done).Fresh p.version template :=
      ⟨by simp [World.writeProfile, WriteOutcome.leave, hfetched], p, rfl, rfl⟩
    exact ⟨⟨hfresh.safe, hheld⟩, fun _ => hfresh⟩
  | failed e left =>
    refine ⟨⟨?_, hheld⟩, fun he => by cases he⟩
    cases left with
    | none => exact h.1
    | some bytes => exact fun _ hp => by cases hp

theorem wp_install {path : RulesPath} (hpath : cfg.remoteRulesPath = some path)
    (h : w.Vouched cfg) (hfetched : w.fetched = some template) :
    pulling cfg (install cfg profile template) (fun _ => World.Vouched cfg) w := by
  simp only [install, call_bind]
  refine pulling_op h.1 fun _ => pulling_op h.1 fun c => ?_
  obtain ⟨hvouched, hfresh⟩ := h.writeProfile hfetched profile.persisted c.profileWrite
  cases hwrite : c.profileWrite.error with
  | some e =>
    simp only [perform, hwrite, pure_eq]
    exact (wp_alone_pure ..).mpr hvouched
  | none =>
    simp only [perform, hwrite]
    refine pulling_op hvouched.1 fun c' => ?_
    -- from here on the file is that of this pull, and the rest before the rules is quiet
    have hwritten : ∀ v v' : World, (v.Vouched cfg ∧ v.Fresh profile.version template) →
        v.Agree v' → v'.Vouched cfg ∧ v'.Fresh profile.version template :=
      fun v v' hv ha => ⟨hv.1.agree ha, hv.2.agree ha⟩
    have htemplate := hwritten _ _ ⟨hvouched, hfresh hwrite⟩
      (SyncOp.Quiet.agree (o := .writeTemplate template) (c := c') trivial)
    refine wp_bind.mpr (wp_mono (fun configChanged v hv => ?_)
      (pulling_of_quiet
        (all_writeAgentConfigOverrides trivial trivial (fun _ => trivial) trivial)
        hwritten (fun _ hv => hv.1.1) htemplate))
    cases hparse : parseTemplateRules cfg template with
    | error e => exact (wp_alone_pure ..).mpr hv.1
    | ok outcome =>
      refine wp_bind.mpr (wp_mono (fun _ u hu => ?_) (wp_commit hpath hv.2 hparse))
      exact (wp_alone_pure ..).mpr hu

/-- **What a pull preserves.** Wherever it is cut, the file is vouched for; when it returns, with an
error or without, the state in memory is too. -/
theorem wp_pull {path : RulesPath} (hpath : cfg.remoteRulesPath = some path)
    (h : w.Vouched cfg) : pulling cfg (pull cfg) (fun _ => World.Vouched cfg) w := by
  simp only [pull, call_bind]
  refine pulling_op h.1 fun c => ?_
  simp only [perform]
  cases c.metadata with
  | error e => exact (wp_alone_pure ..).mpr h
  | ok answer =>
    cases answer with
    | none => exact (wp_alone_pure ..).mpr h
    | some profile =>
      refine pulling_op h.1 fun c => ?_
      simp only [perform]
      cases htemplate : c.template with
      | error e => exact (wp_alone_pure ..).mpr ⟨h.1, h.2⟩
      | ok template => exact wp_install hpath ⟨h.1, h.2⟩ rfl

/-! ### Runs -/

/-- A restart holds the state in memory to what it relies on. -/
theorem World.Stored.restart {parseProfile : String → Option PersistedProfile} {readable : Bool}
    (h : w.Stored cfg) : (w.restart parseProfile readable).Vouched cfg := by
  refine ⟨h, fun p hp => ?_⟩
  cases readable with
  | false => cases hp
  | true =>
    obtain ⟨q, hq, rfl⟩ := Option.map_eq_some_iff.mp hp
    obtain ⟨-, ⟨profile, hprofile, hversion⟩, happlied⟩ := h q hq
    have hstate : (w.restart parseProfile true).state.version = q.version := by
      simp only [World.restart, hprofile, loadPersisted]
      exact hversion
    exact ⟨hstate, fun hreloaded => absurd hreloaded (by simp), happlied⟩

/-- What is left of the pull is safe, or the state in memory is vouched for. -/
def SyncAgent.Inv (cfg : SyncConfig) (s : SyncAgent) : Prop :=
  match s.running with
  | none => s.world.Vouched cfg
  | some p => pulling cfg p (fun _ => World.Vouched cfg) s.world

theorem SyncAgent.Inv.stored {s : SyncAgent} (h : s.Inv cfg) : s.world.Stored cfg := by
  obtain ⟨world, running⟩ := s
  match running with
  | none => exact h.1
  | some (.pure r) =>
    have hp : pulling cfg (.pure r) (fun _ => World.Vouched cfg) world := h
    exact (wp_result hp).1
  | some (.op o k) =>
    have hp : pulling cfg (.op o k) (fun _ => World.Vouched cfg) world := h
    exact wp_cut hp

theorem SyncAgent.Inv.step {parseProfile : String → Option PersistedProfile} {path : RulesPath}
    {s t : SyncAgent} {l : SyncAgent.Label} (hpath : cfg.remoteRulesPath = some path)
    (h : s.Inv cfg) (hst : s.step cfg parseProfile l = some t) : t.Inv cfg := by
  have hstored := h.stored
  obtain ⟨world, running⟩ := s
  cases l with
  | pull =>
    match running with
    | none =>
      obtain rfl := Option.some.inj hst
      exact wp_pull hpath h
    | some p => simp [SyncAgent.step] at hst
  | op c =>
    match running with
    | none | some (.pure r) => simp [SyncAgent.step] at hst
    | some (.op o k) =>
      obtain rfl := Option.some.inj hst
      have hp : pulling cfg (.op o k) (fun _ => World.Vouched cfg) world := h
      exact wp_next (c := c) hp trivial
  | done =>
    match running with
    | none | some (.op o k) => simp [SyncAgent.step] at hst
    | some (.pure r) =>
      obtain rfl := Option.some.inj hst
      have hp : pulling cfg (.pure r) (fun _ => World.Vouched cfg) world := h
      have hworld := wp_result hp
      exact hworld
  | restart readable =>
    obtain rfl := Option.some.inj hst
    exact hstored.restart

/-- **What is reported without errors has been applied.** In every run of pulls, whatever the
server answers, whatever fails and wherever the agent is restarted: if a heartbeat reports no
errors, and its state comes from a pull since which the agent has not been restarted unless that
pull had ended without errors, then the version is that of the pull, the rules file is the one
written for it, and all rules that its template enables were accepted. -/
theorem reported_profile_applied (cfg : SyncConfig) (path : RulesPath)
    (parseProfile : String → Option PersistedProfile) (w : World) (ls : List SyncAgent.Label)
    (s : SyncAgent) (beat : HeartbeatRequest) (p : Provenance)
    (hpath : cfg.remoteRulesPath = some path)
    (hr : run (SyncAgent.step cfg parseProfile) (.start w) ls = some s)
    (hbeat : s.heartbeat = some beat) (herrors : beat.ruleErrors = [])
    (hp : s.world.held = some p) (hreloaded : p.reloaded = true → p.clean = true) :
    beat.profileVersion = p.version ∧ p.Applied cfg s.world.rules := by
  have hworld : (SyncAgent.start w).world.Vouched cfg :=
    ⟨fun q hq => by simp [SyncAgent.start] at hq, fun q hq => by simp [SyncAgent.start] at hq⟩
  have hstart : (SyncAgent.start w).Inv cfg := hworld
  have hinv : s.Inv cfg :=
    invariant_of_run (fun _ _ _ h hst => SyncAgent.Inv.step hpath h hst) hstart hr
  obtain ⟨world, running⟩ := s
  match running with
  | some _ => cases hbeat
  | none =>
    obtain rfl := Option.some.inj hbeat
    obtain ⟨hversion, hclean, happlied⟩ := hinv.2 p hp
    refine ⟨hversion, happlied ?_⟩
    by_cases hre : p.reloaded = true
    · exact hreloaded hre
    · exact hclean (Bool.eq_false_iff.mpr hre) herrors

/-- A pull of version 5 in which nothing fails, and a restart after it. -/
def pullAndRestart (template : Json) : List SyncAgent.Label :=
  .pull :: List.replicate 16 (.op {
    metadata := .ok (some ⟨"p1", 5, "", []⟩), template := .ok template }) ++
  [.done, .restart true]

theorem restarted_reports_applied : ∃ s beat p,
    run (SyncAgent.step plainConfig fun _ => none) (.start {})
        (pullAndRestart (templateOf [("one", remoteThreadRule)])) = some s ∧
      s.heartbeat = some beat ∧ s.world.held = some p ∧ p.reloaded = true ∧
      beat.profileVersion = p.version ∧ p.Applied plainConfig s.world.rules := by
  have hreport : (run (SyncAgent.step plainConfig fun _ => none) (.start {})
      (pullAndRestart (templateOf [("one", remoteThreadRule)]))).map
        (fun s => (s.heartbeat, s.world.held))
      = some (some { profileVersion := 5, modulesLoaded := [], ruleErrors := [] },
          some ⟨5, templateOf [("one", remoteThreadRule)], true, true⟩) := by
    decide +kernel
  obtain ⟨s, hs, hreport⟩ := Option.map_eq_some_iff.mp hreport
  obtain ⟨hbeat, hheld⟩ := Prod.ext_iff.mp hreport
  exact ⟨s, _, _, hs, hbeat, hheld, rfl,
    reported_profile_applied plainConfig _ (fun _ => none) {} _ s _ _ rfl hs hbeat rfl hheld
      fun _ => rfl⟩

/-- A pull of version 5 that gets as far as `profile.json`, and a restart after the crash. -/
def crashAfterProfile (template : Json) : List SyncAgent.Label :=
  .pull :: List.replicate 4 (.op {
    metadata := .ok (some ⟨"p1", 5, "", []⟩), template := .ok template }) ++ [.restart true]

/-- **A version is reported that has not been applied.** After a crash behind the write of
`profile.json` there is neither a template nor a rules file. And where the profile has a rule
without a source, the pull reports that, but the restart forgets it. -/
theorem unapplied_reported :
    (∃ s beat p,
      run (SyncAgent.step plainConfig fun _ => none) (.start {})
          (crashAfterProfile (templateOf [("one", remoteThreadRule)])) = some s ∧
        s.heartbeat = some beat ∧ beat.profileVersion = 5 ∧ beat.ruleErrors = [] ∧
        s.world.held = some p ∧ p.version = 5 ∧ s.world.template = none ∧ s.world.rules = none ∧
        ¬ p.Applied plainConfig s.world.rules) ∧
      ∃ s beat p,
        run (SyncAgent.step plainConfig fun _ => none) (.start {})
            (pullAndRestart (templateOf [("one", "")])) = some s ∧
          s.heartbeat = some beat ∧ beat.profileVersion = 5 ∧ beat.ruleErrors = [] ∧
          s.world.held = some p ∧ p.version = 5 ∧ ¬ p.Applied plainConfig s.world.rules := by
  constructor
  · refine ⟨_, _, _, rfl, rfl, rfl, rfl, rfl, rfl, rfl, rfl, ?_⟩
    rintro ⟨rules, outcome, -, -, -, hfile⟩
    cases hfile
  · refine ⟨_, _, _, rfl, rfl, rfl, rfl, rfl, rfl, ?_⟩
    rintro ⟨rules, outcome, htemplate, hparse, haccepted, -⟩
    obtain rfl := Option.some.inj htemplate
    obtain rfl := Except.ok.inj hparse
    exact absurd haccepted (by decide)

end Sync

end Control

end WazabiAgent
