import WazabiAgent.Control.Sync
import WazabiAgent.Lib.JsonText

/-!
# What is in the server rules file

`write_accepted_rules` puts a comment before each rule that has the name of the rule in it. The name
is what the server sent, and the language of the rules is read line by line: a line feed in a name
ends the comment, and what follows in the name is rule text.

The body is a sequence of pieces, each of which a line feed ends. Some are the sources of rules, and
the lines of the body are those of the pieces.

## Main definitions

* `bodyPieces`, `bodyLines` — the body by where its lines come from
* `OnlyRules` — whatever does not come from a source is blank or a comment
* `NameOk` — a name that is a comment, all of it

## Main results

* `splitOn_rulesBody` — the lines of the body
* `rules_file_iff` — which files have nothing but the rules
-/

namespace WazabiAgent

namespace Control

namespace Sync

open Text (isWhitespace)

/-! ### Lines -/

/-- A line that is no rule text. -/
def Harmless (line : List Char) : Prop := line.all isWhitespace = true ∨ line.head? = some '#'

instance : DecidablePred Harmless := fun line =>
  inferInstanceAs (Decidable (line.all isWhitespace = true ∨ line.head? = some '#'))

/-- What precedes the first line feed grows. -/
theorem splitOn_append_left {u : List Char} (h : '\n' ∉ u) (cs : List Char) :
    (u ++ cs).splitOn '\n' = (cs.splitOn '\n').modifyHead (u ++ ·) := by
  induction u with
  | nil =>
    rw [List.nil_append]
    cases cs.splitOn '\n' <;> rfl
  | cons c u ih =>
    obtain ⟨hc, hu⟩ := not_or.mp fun h' => h (List.mem_cons.mpr h')
    have hbeq : (c == '\n') = false := beq_eq_false_iff_ne.mpr (Ne.symm hc)
    rw [List.cons_append, List.splitOn_cons_eq_if_modifyHead, hbeq, ih hu]
    cases cs.splitOn '\n' <;> rfl

/-- What follows the last line feed grows. -/
theorem splitOn_append_right (cs : List Char) : ∃ ls last, cs.splitOn '\n' = ls ++ [last] ∧
    ∀ u : List Char, '\n' ∉ u → (cs ++ u).splitOn '\n' = ls ++ [last ++ u] := by
  induction cs with
  | nil => exact ⟨[], [], rfl, fun u hu => List.splitOn_eq_singleton hu⟩
  | cons c cs ih =>
    obtain ⟨ls, last, hcs, hgrow⟩ := ih
    by_cases hc : c = '\n'
    · subst hc
      refine ⟨[] :: ls, last, ?_, fun u hu => ?_⟩
      · rw [List.splitOn_cons_eq_if_modifyHead, hcs]
        rfl
      · rw [List.cons_append, List.splitOn_cons_eq_if_modifyHead, hgrow u hu]
        rfl
    · have hbeq : (c == '\n') = false := beq_eq_false_iff_ne.mpr hc
      cases ls with
      | nil =>
        refine ⟨[], c :: last, ?_, fun u hu => ?_⟩
        · rw [List.splitOn_cons_eq_if_modifyHead, hbeq, hcs]
          rfl
        · rw [List.cons_append, List.splitOn_cons_eq_if_modifyHead, hbeq, hgrow u hu]
          rfl
      | cons l ls =>
        refine ⟨(c :: l) :: ls, last, ?_, fun u hu => ?_⟩
        · rw [List.splitOn_cons_eq_if_modifyHead, hbeq, hcs]
          rfl
        · rw [List.cons_append, List.splitOn_cons_eq_if_modifyHead, hbeq, hgrow u hu]
          rfl

/-- The lines of texts that a line feed ends. -/
theorem splitOn_flatMap {α : Type} (text : α → List Char) (pieces : List α) :
    (pieces.flatMap fun p => text p ++ ['\n']).splitOn '\n'
      = (pieces.flatMap fun p => (text p).splitOn '\n') ++ [[]] := by
  induction pieces with
  | nil => rfl
  | cons p pieces ih =>
    rw [List.flatMap_cons, List.append_assoc, List.singleton_append,
      List.splitOn_append_cons_self, ih, List.flatMap_cons, List.append_assoc]

/-- The decimals of an integer are on one line. -/
theorem newline_not_mem_toString (i : Int) : '\n' ∉ (toString i).toList := by
  have hdigits (n : ℕ) : '\n' ∉ n.repr.toList := fun h =>
    absurd (List.all_eq_true.mp (Json.digits_repr n).2 _ h) (by decide)
  cases i with
  | ofNat n => exact hdigits n
  | negSucc n =>
    show '\n' ∉ ("-" ++ (n + 1).repr).toList
    rw [String.toList_append, List.mem_append, not_or]
    exact ⟨by decide, hdigits (n + 1)⟩

/-! ### The body by its pieces -/

/-- A part of the body without the line feed that ends it. -/
structure Piece where
  fromSource : Bool
  text : List Char
  deriving DecidableEq

/-- The comment before a rule. -/
def ruleHeader (name : String) : String := "# --- rule '" ++ name ++ "' ---"

/-- What is written for a rule. -/
def rulePieces (r : String × String) : List Piece :=
  [⟨false, (ruleHeader r.1).toList⟩, ⟨true, (trimEnd r.2).toList⟩, ⟨false, []⟩]

/-- What is written before the rules. -/
def headerPieces (version : Int) : List Piece :=
  [⟨false, "# Géré par l'agent WazabiEDR — NE PAS ÉDITER À LA MAIN.".toList⟩,
    ⟨false, "# Toute modif sera écrasée au prochain heartbeat avec sync profil.".toList⟩,
    ⟨false, ("# Profil version : " ++ toString version).toList⟩, ⟨false, []⟩]

/-- The body. -/
def bodyPieces (outcome : TemplateParseOutcome) (version : Int) : List Piece :=
  headerPieces version ++ outcome.accepted.flatMap rulePieces

/-- The lines of a piece. -/
def Piece.lines (p : Piece) : List Piece := (p.text.splitOn '\n').map (⟨p.fromSource, ·⟩)

/-- The lines of the body, each with where it comes from. -/
def bodyLines (outcome : TemplateParseOutcome) (version : Int) : List Piece :=
  (bodyPieces outcome version).flatMap Piece.lines

/-- The body has the rules, and besides them blank lines and comments only. -/
def OnlyRules (outcome : TemplateParseOutcome) (version : Int) : Prop :=
  (∀ l ∈ bodyLines outcome version, l.fromSource = false → Harmless l.text) ∧
    ((bodyLines outcome version).filter Piece.fromSource).map Piece.text
      = outcome.accepted.flatMap fun r => (trimEnd r.2).toList.splitOn '\n'

variable (outcome : TemplateParseOutcome) (version : Int)

theorem toList_ruleText (r : String × String) :
    ("# --- rule '" ++ r.1 ++ "' ---\n" ++ trimEnd r.2 ++ "\n\n").toList
      = (rulePieces r).flatMap fun p => p.text ++ ['\n'] := by
  have hclose : "' ---\n".toList = "' ---".toList ++ ['\n'] := by decide
  have hend : "\n\n".toList = ['\n', '\n'] := by decide
  simp only [rulePieces, ruleHeader, String.toList_append, List.flatMap_cons, List.flatMap_nil]
  rw [hclose, hend]
  -- Under the list lemmas the literals would be evaluated.
  generalize "# --- rule '".toList = opening, "' ---".toList = closing
  simp

/-- A line feed ends each piece of the body. -/
theorem toList_rulesBody : (rulesBody outcome version).toList
    = (bodyPieces outcome version).flatMap fun p => p.text ++ ['\n'] := by
  have hrules : (String.join (outcome.accepted.map fun r =>
        "# --- rule '" ++ r.1 ++ "' ---\n" ++ trimEnd r.2 ++ "\n\n")).toList
      = (outcome.accepted.flatMap rulePieces).flatMap fun p => p.text ++ ['\n'] := by
    rw [String.toList_join, List.flatMap_map, List.flatMap_assoc]
    exact congrArg (List.flatMap · outcome.accepted) (funext toList_ruleText)
  have hmanaged : "# Géré par l'agent WazabiEDR — NE PAS ÉDITER À LA MAIN.\n".toList
      = "# Géré par l'agent WazabiEDR — NE PAS ÉDITER À LA MAIN.".toList ++ ['\n'] := by simp
  have hsync : "# Toute modif sera écrasée au prochain heartbeat avec sync profil.\n".toList
      = "# Toute modif sera écrasée au prochain heartbeat avec sync profil.".toList ++ ['\n'] := by
    simp
  have hend : "\n\n".toList = ['\n', '\n'] := by decide
  -- An equation of `rulesBody` is too slow for Lean to state.
  delta rulesBody
  simp only [bodyPieces, headerPieces, String.toList_append, List.flatMap_append, List.flatMap_cons,
    List.flatMap_nil]
  rw [hrules, hmanaged, hsync, hend]
  generalize "# Géré par l'agent WazabiEDR — NE PAS ÉDITER À LA MAIN.".toList = managed,
    "# Toute modif sera écrasée au prochain heartbeat avec sync profil.".toList = sync,
    "# Profil version : ".toList = profile
  simp

/-- The lines of the body. Behind the last line feed is an empty one. -/
theorem splitOn_rulesBody : (rulesBody outcome version).toList.splitOn '\n'
    = (bodyLines outcome version).map Piece.text ++ [[]] := by
  have hlines (p : Piece) : p.lines.map Piece.text = p.text.splitOn '\n' := by
    rw [Piece.lines, List.map_map]
    exact List.map_id _
  rw [toList_rulesBody, splitOn_flatMap Piece.text, bodyLines, List.map_flatMap]
  simp only [hlines]

/-! ### Which lines come from the sources -/

theorem mem_lines {p l : Piece} :
    l ∈ p.lines ↔ l.fromSource = p.fromSource ∧ l.text ∈ p.text.splitOn '\n' := by
  obtain ⟨fromSource, text⟩ := l
  simp only [Piece.lines, List.mem_map, Piece.mk.injEq]
  constructor
  · rintro ⟨line, hline, rfl, rfl⟩
    exact ⟨rfl, hline⟩
  · rintro ⟨hsource, hline⟩
    exact ⟨text, hline, hsource.symm, rfl⟩

theorem filter_lines (p : Piece) :
    (p.lines.filter Piece.fromSource).map Piece.text
      = if p.fromSource then p.text.splitOn '\n' else [] := by
  obtain ⟨fromSource, text⟩ := p
  cases fromSource with
  | true => simp [Piece.lines, List.filter_map, Function.comp_def]
  | false => simp [Piece.lines, List.filter_map, Function.comp_def]

theorem fromSource_header : ∀ p ∈ headerPieces version, p.fromSource = false := by
  intro p hp
  simp only [headerPieces, List.mem_cons, List.not_mem_nil, or_false] at hp
  obtain rfl | rfl | rfl | rfl := hp <;> rfl

/-- Without the other lines the body is the sources, whatever the names are. -/
theorem sources_bodyLines : ((bodyLines outcome version).filter Piece.fromSource).map Piece.text
    = outcome.accepted.flatMap fun r => (trimEnd r.2).toList.splitOn '\n' := by
  have hrules (r : String × String) :
      (rulePieces r).flatMap (fun p => (p.lines.filter Piece.fromSource).map Piece.text)
        = (trimEnd r.2).toList.splitOn '\n' := by
    simp only [rulePieces, filter_lines, List.flatMap_cons, List.flatMap_nil, List.append_nil,
      Bool.false_eq_true, if_false, if_true, List.nil_append]
  have hheader : (headerPieces version).flatMap
      (fun p => (p.lines.filter Piece.fromSource).map Piece.text) = [] := by
    refine List.flatMap_eq_nil_iff.mpr fun p hp => ?_
    rw [filter_lines, fromSource_header version p hp]
    rfl
  rw [bodyLines, bodyPieces, List.filter_flatMap, List.map_flatMap, List.flatMap_append, hheader,
    List.nil_append, List.flatMap_assoc]
  exact congrArg (List.flatMap · outcome.accepted) (funext hrules)

/-! ### Names -/

/-- A name that is a comment, all of it: of the lines behind the first, each is blank or begins with
the comment sign, and the last, which the closing quote follows, begins with it. -/
def NameOk (name : String) : Prop :=
  let lines := name.toList.splitOn '\n'
  (∀ l ∈ lines.dropLast.tail, Harmless l) ∧
    (2 ≤ lines.length → ∀ l ∈ lines.getLast?, l.head? = some '#')

theorem harmless_comment (cs : List Char) : Harmless ('#' :: cs) := .inr rfl

/-- A line that the closing quote ends is not blank. -/
theorem harmless_closing {l : List Char} :
    Harmless (l ++ ['\'', ' ', '-', '-', '-']) ↔ l.head? = some '#' := by
  rw [Harmless]
  cases l with
  | nil => decide
  | cons c l => simp [isWhitespace]

/-- The comment before a rule is one exactly where the name is. -/
theorem harmless_header {name : String} :
    (∀ l ∈ (ruleHeader name).toList.splitOn '\n', Harmless l) ↔ NameOk name := by
  obtain ⟨ls, last, hname, hgrow⟩ := splitOn_append_right name.toList
  have hopening : "# --- rule '".toList = '#' :: " --- rule '".toList := by decide
  have hclosing : "' ---".toList = ['\'', ' ', '-', '-', '-'] := by decide
  have hpre : '\n' ∉ "# --- rule '".toList := by decide
  have hpost : '\n' ∉ "' ---".toList := by decide
  rw [ruleHeader, String.toList_append, String.toList_append, List.append_assoc,
    splitOn_append_left hpre, hgrow _ hpost, hopening, hclosing, NameOk, hname]
  simp only [List.dropLast_concat, List.getLast?_concat, Option.mem_some_iff, forall_eq']
  cases ls with
  | nil => simp [harmless_comment]
  | cons l ls => simp [harmless_comment, harmless_closing, or_imp, forall_and]

/-! ### The file -/

/-- What precedes the rules is blank or a comment, whatever the version is. -/
theorem harmless_headerPieces : ∀ p ∈ headerPieces version, ∀ l ∈ p.text.splitOn '\n',
    Harmless l := by
  have hline {cs : List Char} (hnewline : '\n' ∉ cs) (h : Harmless cs) :
      ∀ l ∈ cs.splitOn '\n', Harmless l := by
    rw [List.splitOn_eq_singleton hnewline]
    intro l hl
    rw [List.mem_singleton.mp hl]
    exact h
  intro p hp
  simp only [headerPieces, List.mem_cons, List.not_mem_nil, or_false] at hp
  obtain rfl | rfl | rfl | rfl := hp
  · exact hline (by simp) (.inr (by simp))
  · exact hline (by simp) (.inr (by simp))
  · have hopening : "# Profil version : ".toList = '#' :: " Profil version : ".toList := by simp
    refine hline ?_ ?_
    · rw [String.toList_append, List.mem_append, not_or]
      exact ⟨by simp, newline_not_mem_toString version⟩
    · rw [String.toList_append, hopening]
      exact harmless_comment _
  · exact hline List.not_mem_nil (.inl rfl)

theorem onlyRules_iff_names :
    OnlyRules outcome version ↔ ∀ r ∈ outcome.accepted, NameOk r.1 := by
  have hrules (r : String × String) : (∀ p ∈ rulePieces r, p.fromSource = false →
      ∀ l ∈ p.text.splitOn '\n', Harmless l) ↔ NameOk r.1 := by
    have hblank : ∀ l ∈ ([] : List Char).splitOn '\n', Harmless l := by decide
    simp [rulePieces, harmless_header, hblank]
  have hheader : ∀ p ∈ headerPieces version, p.fromSource = false →
      ∀ l ∈ p.text.splitOn '\n', Harmless l := fun p hp _ => harmless_headerPieces version p hp
  have hpieces : (∀ l ∈ bodyLines outcome version, l.fromSource = false → Harmless l.text) ↔
      ∀ p ∈ bodyPieces outcome version, p.fromSource = false →
        ∀ l ∈ p.text.splitOn '\n', Harmless l := by
    constructor
    · intro h p hp hsource l hl
      exact h ⟨false, l⟩ (List.mem_flatMap.mpr ⟨p, hp, mem_lines.mpr ⟨hsource.symm, hl⟩⟩) rfl
    · intro h l hl hsource
      obtain ⟨p, hp, hlp⟩ := List.mem_flatMap.mp hl
      obtain ⟨hsame, htext⟩ := mem_lines.mp hlp
      exact h p hp (hsame ▸ hsource) l.text htext
  rw [OnlyRules, hpieces, and_iff_left (sources_bodyLines outcome version)]
  simp only [bodyPieces, List.mem_append, List.mem_flatMap]
  constructor
  · intro h r hr
    exact (hrules r).mp fun p hp => h p (.inr ⟨r, hr, hp⟩)
  · rintro h p (hp | ⟨r, hr, hp⟩)
    · exact hheader p hp
    · exact (hrules r).mpr (h r hr) p hp

/-- **The rules file has nothing but the rules exactly where the names are comments.** The lines of
the body are those of its pieces; all of them that are from no source are blank or comments, and the
others are the sources in order, if and only if every name is a comment, all of it. -/
theorem rules_file_iff :
    (rulesBody outcome version).toList.splitOn '\n'
        = (bodyLines outcome version).map Piece.text ++ [[]] ∧
      (OnlyRules outcome version ↔ ∀ r ∈ outcome.accepted, NameOk r.1) :=
  ⟨splitOn_rulesBody outcome version, onlyRules_iff_names outcome version⟩

/-- A name that brings an action. -/
def killName : String := "audit\n- Action:\n  - RemoteThreadInjection:\n    - kill\n#"

/-- The template is accepted, and the file has an action that no source has. -/
theorem name_injects_action :
    parseTemplateRules plainConfig (templateOf [(killName, remoteThreadRule)])
        = .ok { accepted := [(killName, remoteThreadRule)], errors := [] } ∧
      ¬ OnlyRules { accepted := [(killName, remoteThreadRule)], errors := [] } 1 := by
  refine ⟨by decide +kernel, fun h => ?_⟩
  have hname := (onlyRules_iff_names _ _).mp h _ (List.mem_singleton_self _)
  have hline : "    - kill".toList ∈ (killName.toList.splitOn '\n').dropLast.tail := by
    decide +kernel
  exact absurd (hname.1 _ hline) (by decide)

end Sync

end Control

end WazabiAgent
