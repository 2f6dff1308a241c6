import Mathlib.Data.List.Pairwise
import WazabiAgent.Control.Sync

/-!
# The rules of a template are partitioned

`parse_template_rules` goes through the rules of a template and puts each one that is enabled into
one of two lists. The entries of the lists do not say which rule they come from: names and sources
may repeat. So the partition is described by a verdict on each enabled rule, in the order of the
template, from which both lists are read off.

The state of the loop that decides a verdict is the list of the group names that are taken. Only an
accepted rule adds to it, so that what is taken is what the accepted rules before have.

## Main definitions

* `verdict`, `verdicts` — what is said of a rule, and of all enabled ones
* `acceptedOf`, `errorsOf` — the two lists, by the verdicts

## Main results

* `parseTemplateRules_eq` — the lists of the outcome are those of the verdicts
* `template_rules_partitioned` — what the verdicts are
-/

namespace WazabiAgent

namespace Control

namespace Sync

open Text (isBlank)

/-- The groups of a source, or the error of the parser. -/
abbrev Parser := String → Except String (List String)

/-- The text of the error for a group that is taken. -/
def groupTaken (name : String) : String :=
  "groupe '" ++ name ++ "' déjà défini par une autre règle du profil — renommer pour les concilier"

/-- The error of a rule, if it is rejected, where these group names are taken. -/
def verdict (parseSource : Parser) (claimed : List String) (r : TemplateRuleView) : Option String :=
  if isBlank r.wazaSource then some "règle vide"
  else
    match parseSource r.wazaSource with
    | .error msg => some msg
    | .ok parsed => (parsed.find? (· ∈ claimed)).map groupTaken

/-- The group names of a source. -/
def groupsOf (parseSource : Parser) (source : String) : List String :=
  match parseSource source with
  | .error _ => []
  | .ok parsed => parsed

/-- The group names that are taken behind a verdict. -/
def claim (parseSource : Parser) (claimed : List String) (v : TemplateRuleView × Option String) :
    List String :=
  if v.2 = none then groupsOf parseSource v.1.wazaSource ++ claimed else claimed

/-- The enabled rules with the verdicts on them. -/
def verdicts (parseSource : Parser) : List String → List TemplateRuleView →
    List (TemplateRuleView × Option String)
  | _, [] => []
  | claimed, r :: rules =>
    if r.isEnabled = false then verdicts parseSource claimed rules
    else
      let v := (r, verdict parseSource claimed r)
      v :: verdicts parseSource (claim parseSource claimed v) rules

/-- The rules without an error. -/
def acceptedOf (vs : List (TemplateRuleView × Option String)) : List TemplateRuleView :=
  (vs.filter fun v => v.2 = none).map Prod.fst

/-- The errors. -/
def errorsOf (vs : List (TemplateRuleView × Option String)) : List RuleError :=
  vs.filterMap fun v => v.2.map fun message => ⟨v.1.name, message⟩

variable {parseSource : Parser} {claimed : List String} {rules : List TemplateRuleView}
  {r : TemplateRuleView}

/-! ### The loop -/

/-- One iteration. -/
theorem rule_eq (acc : RuleScan) (h : r.isEnabled = true) :
    acc.rule parseSource r =
      match verdict parseSource acc.claimedGroupNames r with
      | some msg => acc.reject r msg
      | none =>
        { acc with
          accepted := acc.accepted ++ [(r.name, r.wazaSource)]
          claimedGroupNames := groupsOf parseSource r.wazaSource ++ acc.claimedGroupNames } := by
  rw [RuleScan.rule, if_neg (by simp [h]), verdict, groupsOf]
  split_ifs with hblank
  · rfl
  · cases parseSource r.wazaSource with
    | error msg => rfl
    | ok parsed =>
      dsimp only
      cases parsed.find? (· ∈ acc.claimedGroupNames) with
      | none => rfl
      | some name => rfl

/-- The whole loop, from any state. -/
theorem foldl_rule (parseSource : Parser) (rules : List TemplateRuleView) (acc : RuleScan) :
    (rules.foldl (RuleScan.rule parseSource) acc).accepted
        = acc.accepted ++ (acceptedOf (verdicts parseSource acc.claimedGroupNames rules)).map
          (fun r => (r.name, r.wazaSource)) ∧
      (rules.foldl (RuleScan.rule parseSource) acc).errors
        = acc.errors ++ errorsOf (verdicts parseSource acc.claimedGroupNames rules) := by
  induction rules generalizing acc with
  | nil => simp [verdicts, acceptedOf, errorsOf]
  | cons r rules ih =>
    rw [List.foldl_cons]
    cases henabled : r.isEnabled with
    | false =>
      have hskip : acc.rule parseSource r = acc := if_pos henabled
      rw [hskip, verdicts, if_pos henabled]
      exact ih acc
    | true =>
      rw [rule_eq acc henabled, verdicts, if_neg (by simp [henabled])]
      cases verdict parseSource acc.claimedGroupNames r with
      | some msg =>
        obtain ⟨haccepted, herrors⟩ := ih (acc.reject r msg)
        refine ⟨haccepted, ?_⟩
        rw [herrors]
        simp [RuleScan.reject, errorsOf, claim]
      | none =>
        obtain ⟨haccepted, herrors⟩ := ih { acc with
          accepted := acc.accepted ++ [(r.name, r.wazaSource)]
          claimedGroupNames := groupsOf parseSource r.wazaSource ++ acc.claimedGroupNames }
        refine ⟨?_, herrors⟩
        rw [haccepted]
        simp [acceptedOf, claim]

theorem outcome_eq {o : TemplateParseOutcome} {accepted : List (String × String)}
    {errors : List RuleError} (ha : o.accepted = accepted) (he : o.errors = errors) :
    o = { accepted := accepted, errors := errors } := by
  rw [← ha, ← he]

theorem parseTemplateRules_eq {cfg : SyncConfig} {template : Json}
    (h : templateRules template = some rules) :
    parseTemplateRules cfg template = .ok {
      accepted := (acceptedOf (verdicts cfg.parseSource [] rules)).map fun r =>
        (r.name, r.wazaSource)
      errors := errorsOf (verdicts cfg.parseSource [] rules) } := by
  obtain ⟨haccepted, herrors⟩ := foldl_rule cfg.parseSource rules {}
  rw [parseTemplateRules, h]
  exact congrArg Except.ok (outcome_eq haccepted herrors)

/-! ### The verdicts -/

/-- Every enabled rule has one, and no other rule has. -/
theorem map_fst_verdicts (claimed : List String) :
    (verdicts parseSource claimed rules).map Prod.fst = rules.filter (·.isEnabled) := by
  induction rules generalizing claimed with
  | nil => rfl
  | cons r rules ih =>
    rw [verdicts]
    cases henabled : r.isEnabled with
    | false => rw [if_pos rfl, ih, List.filter_cons_of_neg (by simp [henabled])]
    | true =>
      rw [if_neg Bool.noConfusion, List.filter_cons_of_pos henabled, List.map_cons, ih]

theorem verdict_eq_none_iff : verdict parseSource claimed r = none ↔
    isBlank r.wazaSource = false ∧ ∃ parsed, parseSource r.wazaSource = .ok parsed ∧
      ∀ g ∈ parsed, g ∉ claimed := by
  rw [verdict]
  cases hblank : isBlank r.wazaSource with
  | true => simp
  | false =>
    cases hparse : parseSource r.wazaSource with
    | error msg => simp
    | ok parsed => simp [List.find?_eq_none]

/-- The group names that are taken behind these verdicts. -/
def claimedAfter (parseSource : Parser) (claimed : List String)
    (vs : List (TemplateRuleView × Option String)) : List String :=
  vs.foldl (claim parseSource) claimed

/-- They are those of the accepted rules. -/
theorem mem_claimedAfter {vs : List (TemplateRuleView × Option String)} {g : String} :
    g ∈ claimedAfter parseSource claimed vs ↔
      g ∈ claimed ∨ ∃ r ∈ acceptedOf vs, g ∈ groupsOf parseSource r.wazaSource := by
  induction vs generalizing claimed with
  | nil => simp [claimedAfter, acceptedOf]
  | cons v vs ih =>
    rw [claimedAfter, List.foldl_cons, ← claimedAfter, ih]
    obtain ⟨r, o⟩ := v
    cases o with
    | none =>
      rw [claim, if_pos rfl, List.mem_append]
      simp [acceptedOf, or_assoc, or_left_comm]
    | some msg =>
      rw [claim, if_neg (Option.some_ne_none msg)]
      simp [acceptedOf]

/-- A verdict is given where the group names of the verdicts before it are taken. -/
theorem verdict_of_split {before after : List (TemplateRuleView × Option String)}
    {o : Option String} (h : verdicts parseSource claimed rules = before ++ (r, o) :: after) :
    o = verdict parseSource (claimedAfter parseSource claimed before) r := by
  induction rules generalizing claimed before with
  | nil => simp [verdicts] at h
  | cons r' rules ih =>
    rw [verdicts] at h
    split_ifs at h with hdisabled
    · exact ih h
    · cases before with
      | nil =>
        obtain ⟨hr, -⟩ := List.cons.inj h
        obtain ⟨rfl, rfl⟩ := Prod.mk.inj hr
        rfl
      | cons v before =>
        obtain ⟨rfl, hrest⟩ := List.cons.inj h
        have hverdict := ih hrest
        exact hverdict

theorem exists_split_of_accepted {vs : List (TemplateRuleView × Option String)}
    (h : r ∈ acceptedOf vs) : ∃ before after, vs = before ++ (r, none) :: after := by
  obtain ⟨v, hv, rfl⟩ := List.mem_map.mp h
  obtain ⟨hmem, hnone⟩ := List.mem_filter.mp hv
  obtain ⟨before, after, rfl⟩ := List.append_of_mem hmem
  refine ⟨before, after, ?_⟩
  rw [← of_decide_eq_true hnone]

/-- An accepted rule parses, and none of its groups was taken. -/
theorem parses_of_accepted (h : r ∈ acceptedOf (verdicts parseSource claimed rules)) :
    ∃ parsed, parseSource r.wazaSource = .ok parsed ∧ ∀ g ∈ parsed, g ∉ claimed := by
  obtain ⟨before, after, hsplit⟩ := exists_split_of_accepted h
  obtain ⟨-, parsed, hparse, hfree⟩ := verdict_eq_none_iff.mp (verdict_of_split hsplit).symm
  refine ⟨parsed, hparse, fun g hg hclaimed => ?_⟩
  exact hfree g hg (mem_claimedAfter.mpr (.inl hclaimed))

theorem groupsOf_of_ok {source : String} {parsed : List String}
    (h : parseSource source = .ok parsed) : groupsOf parseSource source = parsed := by
  rw [groupsOf, h]

/-- No group is in two accepted rules. -/
theorem pairwise_acceptedOf (claimed : List String) :
    (acceptedOf (verdicts parseSource claimed rules)).Pairwise fun r r' =>
      ∀ g ∈ groupsOf parseSource r.wazaSource, g ∉ groupsOf parseSource r'.wazaSource := by
  induction rules generalizing claimed with
  | nil => exact List.Pairwise.nil
  | cons r rules ih =>
    rw [verdicts]
    split_ifs with hdisabled
    · exact ih claimed
    · cases hverdict : verdict parseSource claimed r with
      | some msg => exact ih _
      | none =>
        refine List.pairwise_cons.mpr ⟨fun r' hr' g hg hg' => ?_, ih _⟩
        obtain ⟨parsed, hparse, hfree⟩ := parses_of_accepted hr'
        rw [groupsOf_of_ok hparse] at hg'
        -- the groups of the first rule are taken when the second one is looked at
        exact hfree g hg' (List.mem_append_left claimed hg)

/-- A rule that is not blank and parses is rejected for a group that is taken. -/
theorem shares_of_rejected {before after : List (TemplateRuleView × Option String)}
    {message : String}
    (h : verdicts parseSource claimed rules = before ++ (r, some message) :: after)
    (hblank : isBlank r.wazaSource = false) {parsed : List String}
    (hparse : parseSource r.wazaSource = .ok parsed) :
    ∃ g ∈ parsed, g ∈ claimedAfter parseSource claimed before := by
  by_contra hnone
  have hverdict : verdict parseSource (claimedAfter parseSource claimed before) r = none :=
    verdict_eq_none_iff.mpr ⟨hblank, parsed, hparse, fun g hg hclaimed =>
      hnone ⟨g, hg, hclaimed⟩⟩
  rw [← verdict_of_split h] at hverdict
  cases hverdict

/-- **The rules of a template are partitioned.** Every enabled rule has one verdict; the accepted
rules parse, and no two of them have a group in common; a rule that is not blank and parses is
rejected only for a group that an accepted rule before it has. -/
theorem template_rules_partitioned (cfg : SyncConfig) {template : Json}
    (h : templateRules template = some rules) :
    ∃ vs : List (TemplateRuleView × Option String),
      parseTemplateRules cfg template = .ok {
        accepted := (acceptedOf vs).map fun r => (r.name, r.wazaSource)
        errors := errorsOf vs } ∧
      vs.map Prod.fst = rules.filter (·.isEnabled) ∧
      (∀ r ∈ acceptedOf vs, ∃ parsed, cfg.parseSource r.wazaSource = .ok parsed) ∧
      ((acceptedOf vs).Pairwise fun r r' =>
        ∀ g ∈ groupsOf cfg.parseSource r.wazaSource, g ∉ groupsOf cfg.parseSource r'.wazaSource) ∧
      ∀ before r message after, vs = before ++ (r, some message) :: after →
        isBlank r.wazaSource = false → (∃ parsed, cfg.parseSource r.wazaSource = .ok parsed) →
          ∃ r' ∈ acceptedOf before, ∃ g ∈ groupsOf cfg.parseSource r.wazaSource,
            g ∈ groupsOf cfg.parseSource r'.wazaSource := by
  refine ⟨verdicts cfg.parseSource [] rules, parseTemplateRules_eq h, map_fst_verdicts [], ?_,
    pairwise_acceptedOf [], ?_⟩
  · intro r hr
    obtain ⟨parsed, hparse, -⟩ := parses_of_accepted hr
    exact ⟨parsed, hparse⟩
  · rintro before r message after hsplit hblank ⟨parsed, hparse⟩
    obtain ⟨g, hg, hclaimed⟩ := shares_of_rejected hsplit hblank hparse
    obtain ⟨r', hr', hg'⟩ := (mem_claimedAfter.mp hclaimed).resolve_left List.not_mem_nil
    exact ⟨r', hr', g, (groupsOf_of_ok hparse).symm ▸ hg, hg'⟩

/-! ### A rule that is blank -/

/-- A parser that takes everything, and finds no groups. -/
def lenientConfig : SyncConfig := { plainConfig with parseSource := fun _ => .ok [] }

/-- A parser that knows two rules, of a group each. -/
def twoGroupsConfig : SyncConfig where
  remoteRulesPath := none
  engine := true
  parseSource source :=
    if source = "- A" then .ok ["A"]
    else if source = "- B" then .ok ["B"]
    else .error "no Action group"
  decodeError _ := "missing field `name`"

/-- Two rules of one group, a disabled one, one of another group, and one that does not parse. -/
def mixedTemplate : Json :=
  .object [("rules", .array ([("one", true, "- A"), ("two", true, "- A"), ("off", false, "- B"),
      ("three", true, "- B"), ("four", true, "- C")].map fun r =>
    .object [("name", .string r.1), ("is_enabled", .bool r.2.1), ("waza_source", .string r.2.2)]))]

theorem mixed_rules_partitioned : ∃ vs : List (TemplateRuleView × Option String),
    parseTemplateRules twoGroupsConfig mixedTemplate = .ok {
        accepted := (acceptedOf vs).map fun r => (r.name, r.wazaSource)
        errors := errorsOf vs } ∧
      vs.map Prod.fst = [⟨"one", true, "- A"⟩, ⟨"two", true, "- A"⟩, ⟨"three", true, "- B"⟩,
        ⟨"four", true, "- C"⟩] ∧
      (acceptedOf vs).map (fun r => (r.name, r.wazaSource)) = [("one", "- A"), ("three", "- B")] ∧
      (errorsOf vs).length = 2 := by
  have hrules : templateRules mixedTemplate = some [⟨"one", true, "- A"⟩, ⟨"two", true, "- A"⟩,
      ⟨"off", false, "- B"⟩, ⟨"three", true, "- B"⟩, ⟨"four", true, "- C"⟩] := by decide +kernel
  obtain ⟨vs, houtcome, hfst, -⟩ := template_rules_partitioned twoGroupsConfig hrules
  have hparsed : parseTemplateRules twoGroupsConfig mixedTemplate = .ok {
      accepted := [("one", "- A"), ("three", "- B")]
      errors := [⟨"two", "groupe 'A' déjà défini par une autre règle du profil — " ++
        "renommer pour les concilier"⟩, ⟨"four", "no Action group"⟩] } := by decide +kernel
  have hsame := Except.ok.inj (houtcome.symm.trans hparsed)
  refine ⟨vs, houtcome, hfst, congrArg TemplateParseOutcome.accepted hsame, ?_⟩
  exact congrArg (fun outcome => outcome.errors.length) hsame

/-- A blank rule is rejected although it parses, and is alone. -/
theorem blank_rule_rejected :
    lenientConfig.parseSource " " = .ok [] ∧
      parseTemplateRules lenientConfig (templateOf [("blank", " ")]) = .ok {
        accepted := []
        errors := [⟨"blank", "règle vide"⟩] } := by
  exact ⟨rfl, by decide +kernel⟩

end Sync

end Control

end WazabiAgent
