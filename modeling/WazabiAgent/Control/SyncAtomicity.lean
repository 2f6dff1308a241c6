import WazabiAgent.Control.Sync

/-!
# What a failed pull leaves behind

The state in memory is set by the last part of `pull`, which cannot fail. The files are not
written there: `profile.json` goes first, and the template is decoded after three files have been
written. So a pull that returns an error has possibly replaced `profile.json`, and if it is the
decoding that failed then also the template and the overrides.

## Main results

* `install_error_iff` — when the pull fails once the server has answered
* `error_keeps_iff_failsClean` — a failed pull changes nothing, exactly under `FailsClean`
* `unnamedRule_replaces_profile` — a template with a rule that has no name
-/

namespace WazabiAgent

namespace Control

namespace Sync

open Prog

/-- The state in memory and the files of the profile are the same. -/
structure World.SameProfile (w w' : World) : Prop where
  state : w'.state = w.state
  profile : w'.profile = w.profile
  template : w'.template = w.template
  overrides : w'.overrides = w.overrides
  rules : w'.rules = w.rules

theorem World.SameProfile.refl (w : World) : w.SameProfile w := ⟨rfl, rfl, rfl, rfl, rfl⟩

theorem World.SameProfile.congr_left {u v w : World} (h : w.SameProfile v) :
    w.SameProfile u ↔ v.SameProfile u := by
  obtain ⟨hstate, hprofile, htemplate, hoverrides, hrules⟩ := h
  constructor
  · rintro ⟨h₁, h₂, h₃, h₄, h₅⟩
    exact ⟨by rw [h₁, hstate], by rw [h₂, hprofile], by rw [h₃, htemplate],
      by rw [h₄, hoverrides], by rw [h₅, hrules]⟩
  · rintro ⟨h₁, h₂, h₃, h₄, h₅⟩
    exact ⟨by rw [h₁, hstate], by rw [h₂, hprofile], by rw [h₃, htemplate],
      by rw [h₄, hoverrides], by rw [h₅, hrules]⟩

/-! ### The condition -/

section

variable {α : Type}

/-- The write of `a` ends with the file as it was: it fails without touching it, or puts there what
was there. -/
def WriteOutcome.Keeps (before : Option (Content α)) (a : α) : WriteOutcome → Prop
  | .done => before = some (.pretty a)
  | .failed _ none => True
  | .failed _ (some bytes) => before = some (.other bytes)

theorem WriteOutcome.file_eq_iff {o : WriteOutcome} {before : Option (Content α)} {a : α} :
    o.file before a = before ↔ o.Keeps before a := by
  cases o with
  | done => exact eq_comm
  | failed e left =>
    cases left with
    | none => simp [file, leave, Keeps]
    | some bytes => exact eq_comm

end

/-- The overrides end as they were: they are those of the template, or these do not get there. -/
def OverridesKept (w : World) (template : Json) (c : SyncChoice) : Prop :=
  w.overrides = some (.pretty (agentConfig template)) ∨ c.overridesWrite.error ≠ none ∨
    c.overridesRename ≠ none

/-- The condition: where the server has answered, but `profile.json` cannot be written or the rules
of the template do not decode, no file gets another content. -/
def FailsClean (w : World) (c : SyncChoice) : Prop :=
  ∀ profile template, c.metadata = .ok (some profile) → c.template = .ok template →
    c.profileWrite.error ≠ none ∨ templateRules template = none →
      c.profileWrite.Keeps w.profile profile.persisted ∧
        (c.profileWrite.error = none →
          c.templateWrite.Keeps w.template template ∧ OverridesKept w template c)

/-! ### The parts of a pull -/

variable {cfg : SyncConfig} {w : World} {c : SyncChoice} {profile : ProfileMetadata}
  {template : Json}

/-- The overrides step changes nothing but the overrides and their temporary file. -/
theorem complete_writeAgentConfigOverrides : ∃ o tmp,
    (complete perform (writeAgentConfigOverrides template) w c).2
        = { w with overrides := o, overridesTmp := tmp } ∧
      (o = w.overrides ↔ OverridesKept w template c) := by
  simp only [writeAgentConfigOverrides, call_bind, complete_op, pure_eq]
  by_cases hsame : (perform .readOverrides w c).1 = some (.pretty (agentConfig template))
  · have hw : w.overrides = some (.pretty (agentConfig template)) := by
      by_cases hread : c.overridesReadable = true
      · simpa [perform, hread] using hsame
      · simp [perform, hread] at hsame
    rw [if_pos hsame, complete_pure]
    exact ⟨_, _, rfl, iff_of_true rfl (.inl hw)⟩
  · rw [if_neg hsame]
    simp only [complete_op, perform]
    cases hwrite : c.overridesWrite with
    | failed e left =>
      exact ⟨_, _, rfl, iff_of_true rfl (.inr (.inl (by simp [hwrite, WriteOutcome.error])))⟩
    | done =>
      simp only [WriteOutcome.error, WriteOutcome.file, WriteOutcome.leave, complete_op, perform]
      cases hrename : c.overridesRename with
      | some e => exact ⟨_, _, rfl, iff_of_true rfl (.inr (.inr (by simp [hrename])))⟩
      | none =>
        refine ⟨_, _, rfl, fun h => .inl h.symm, ?_⟩
        rintro (h | h | h)
        · exact h.symm
        · exact absurd (by rw [hwrite]; rfl) h
        · exact absurd hrename h

/-- The overrides step, after writes that did not touch state, overrides and rules. -/
theorem sameProfile_overrides_iff {v : World} (hstate : v.state = w.state)
    (hoverrides : v.overrides = w.overrides) (hrules : v.rules = w.rules) :
    w.SameProfile (complete perform (writeAgentConfigOverrides template) v c).2 ↔
      v.profile = w.profile ∧ v.template = w.template ∧ OverridesKept w template c := by
  obtain ⟨o, tmp, hv, hkept⟩ := complete_writeAgentConfigOverrides (w := v) (c := c)
  rw [OverridesKept, hoverrides] at hkept
  rw [hv]
  constructor
  · exact fun h => ⟨h.profile, h.template, hkept.mp h.overrides⟩
  · exact fun h => ⟨hstate, h.1, h.2.1, hkept.mpr h.2.2, hrules⟩

/-- Once the server has answered, the pull fails where `profile.json` cannot be written or the
template does not decode. -/
theorem install_error_iff :
    (∃ e, (complete perform (install cfg profile template) w c).1 = .error e) ↔
      c.profileWrite.error ≠ none ∨ templateRules template = none := by
  simp only [install, call_bind, complete_op, perform]
  cases hwrite : c.profileWrite.error with
  | some e => simp
  | none =>
    simp only [complete_op, perform, complete_bind, parseTemplateRules]
    cases htemplate : templateRules template with
    | none => simp
    | some rules => simp [complete_bind]

/-- Where it fails, it has written `profile.json`, and where that succeeded the other two. -/
theorem sameProfile_install_iff
    (hfails : c.profileWrite.error ≠ none ∨ templateRules template = none) :
    w.SameProfile (complete perform (install cfg profile template) w c).2 ↔
      c.profileWrite.Keeps w.profile profile.persisted ∧
        (c.profileWrite.error = none →
          c.templateWrite.Keeps w.template template ∧ OverridesKept w template c) := by
  rw [← WriteOutcome.file_eq_iff, ← WriteOutcome.file_eq_iff]
  simp only [install, call_bind, complete_op, perform]
  cases hwrite : c.profileWrite.error with
  | some e =>
    simp only [pure_eq, complete_pure]
    constructor
    · exact fun h => ⟨h.profile, fun h => by cases h⟩
    · exact fun h => ⟨rfl, h.1, rfl, rfl, rfl⟩
  | none =>
    have htemplate : templateRules template = none := hfails.resolve_left fun h => h hwrite
    simp only [complete_op, perform, complete_bind, parseTemplateRules, htemplate, pure_eq,
      complete_pure, forall_const]
    exact sameProfile_overrides_iff rfl rfl rfl

/-! ### The whole pull -/

/-- **When a failed pull changes nothing.** Whatever the server answers and whatever fails, the
state and the files of the profile are after an error what they were before, exactly where
`FailsClean` holds. -/
theorem error_keeps_iff_failsClean (cfg : SyncConfig) (w : World) (c : SyncChoice) :
    (∀ e, (complete perform (pull cfg) w c).1 = .error e →
        w.SameProfile (complete perform (pull cfg) w c).2) ↔
      FailsClean w c := by
  simp only [pull, call_bind, complete_op, perform]
  cases hmetadata : c.metadata with
  | error e => exact iff_of_true (fun _ _ => .refl w) fun _ _ h => by simp [hmetadata] at h
  | ok answer =>
    cases answer with
    | none => exact iff_of_true (fun _ h => by cases h) fun _ _ h => by simp [hmetadata] at h
    | some profile =>
      simp only [complete_op, perform]
      cases htemplate : c.template with
      | error e =>
        exact iff_of_true (fun _ _ => ⟨rfl, rfl, rfl, rfl, rfl⟩) fun _ _ _ h => by
          simp [htemplate] at h
      | ok template =>
        have hfailsClean : FailsClean w c ↔
            (c.profileWrite.error ≠ none ∨ templateRules template = none →
              c.profileWrite.Keeps w.profile profile.persisted ∧
                (c.profileWrite.error = none →
                  c.templateWrite.Keeps w.template template ∧ OverridesKept w template c)) := by
          simp [FailsClean, hmetadata, htemplate]
        rw [hfailsClean]
        -- the answer of the server is remembered, and that is all it changes
        have hanswer : w.SameProfile { w with fetched := some template } :=
          ⟨rfl, rfl, rfl, rfl, rfl⟩
        rw [← exists_imp, install_error_iff]
        exact imp_congr_right fun hfails =>
          hanswer.congr_left.trans (sameProfile_install_iff hfails)

/-- The template of a profile in version 5, with a rule that has no name. -/
def unnamedRule : SyncChoice where
  metadata := .ok (some ⟨"p1", 5, "", []⟩)
  template := .ok (.object [("rules", .array [.object [("waza_source", .string remoteThreadRule)]])])

/-- **A failed pull replaces `profile.json`.** The agent has no profile, and the next one cannot be
decoded: the error comes after the new version has been written. -/
theorem unnamedRule_replaces_profile :
    (complete perform (pull plainConfig) {} unnamedRule).1
        = .error "decode template view: missing field `name`" ∧
      (complete perform (pull plainConfig) {} unnamedRule).2.profile
        = some (.pretty ⟨"p1", 5, "", []⟩) ∧
      (complete perform (pull plainConfig) {} unnamedRule).2.state.version = 0 ∧
      ¬ ∀ e, (complete perform (pull plainConfig) {} unnamedRule).1 = .error e →
        World.SameProfile {} (complete perform (pull plainConfig) {} unnamedRule).2 :=
  ⟨rfl, rfl, rfl, fun h => absurd (h _ rfl).profile (by decide)⟩

end Sync

end Control

end WazabiAgent
