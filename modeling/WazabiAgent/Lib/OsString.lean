import Mathlib.Data.List.Basic

/-!
# File names of the operating system

Windows names files by code units that need not be Unicode. An `OsString` is what Rust makes of
such a name: characters, and halves of surrogate pairs that lack the other half. The two views a
program takes of it are `toStr`, which fails on such a half, and `toStringLossy`, which replaces
it.

`fileStem` and `extension` are those of `std::path`, for a name that is one component: the name is
cut at its last dot, a name that begins with its only dot has no extension.

## Main results

* `OsString.splitLast_eq_some_iff` — where the cut is
* `OsString.stem_and_extension_iff` — a stem and an extension that are Unicode determine the name
-/

/-- A character, or half of a surrogate pair. -/
inductive OsUnit
  | scalar (c : Char)
  | surrogate (half : Fin 2048)
  deriving DecidableEq

/-- A file name as Windows has it: characters and unpaired surrogates. -/
abbrev OsString := List OsUnit

namespace OsString

/-! ### Views as text -/

/-- A text as a file name. -/
def ofString (s : String) : OsString := s.toList.map .scalar

/-- The characters, if there is nothing else. -/
def chars : OsString → Option (List Char)
  | [] => some []
  | .scalar c :: s => (chars s).map (c :: ·)
  | .surrogate _ :: _ => none

/-- `OsStr::to_str`. -/
def toStr (s : OsString) : Option String := (chars s).map String.ofList

/-- `OsStr::to_string_lossy`. -/
def toStringLossy (s : OsString) : String :=
  String.ofList (s.map fun
    | .scalar c => c
    | .surrogate _ => '\uFFFD')

theorem chars_eq_some_iff {s : OsString} {cs : List Char} :
    chars s = some cs ↔ s = cs.map .scalar := by
  induction s generalizing cs with
  | nil => cases cs <;> simp [chars]
  | cons u s ih =>
    cases u with
    | surrogate half => cases cs <;> simp [chars]
    | scalar c =>
      cases cs with
      | nil => simp [chars]
      | cons d cs =>
        simp only [chars, Option.map_eq_some_iff, List.cons.injEq, List.map_cons,
          OsUnit.scalar.injEq]
        constructor
        · rintro ⟨cs', h, hc, rfl⟩
          exact ⟨hc, ih.mp h⟩
        · rintro ⟨hc, h⟩
          exact ⟨cs, ih.mpr h, hc, rfl⟩

theorem toStr_eq_some_iff {s : OsString} {t : String} : toStr s = some t ↔ s = ofString t := by
  simp only [toStr, Option.map_eq_some_iff, chars_eq_some_iff, ofString]
  constructor
  · rintro ⟨cs, rfl, rfl⟩
    rw [String.toList_ofList]
  · rintro rfl
    exact ⟨t.toList, rfl, String.ofList_toList⟩

@[simp] theorem toStr_ofString (t : String) : toStr (ofString t) = some t :=
  toStr_eq_some_iff.mpr rfl

@[simp] theorem toStringLossy_ofString (t : String) : toStringLossy (ofString t) = t := by
  simp [toStringLossy, ofString, Function.comp_def]

@[simp] theorem ofString_eq_nil_iff {t : String} : ofString t = [] ↔ t = "" := by
  simp [ofString]

/-! ### Stem and extension -/

section SplitLast

variable {α : Type} [DecidableEq α]

/-- What is before and after the last `d`. -/
def splitLast (d : α) : List α → Option (List α × List α)
  | [] => none
  | x :: xs =>
    match splitLast d xs with
    | some (before, after) => some (x :: before, after)
    | none => if x = d then some ([], xs) else none

theorem splitLast_eq_none_iff {d : α} {xs : List α} : splitLast d xs = none ↔ d ∉ xs := by
  induction xs with
  | nil => simp [splitLast]
  | cons x xs ih =>
    simp only [splitLast, List.mem_cons, not_or]
    cases h : splitLast d xs with
    | some p =>
      have hd : ¬d ∉ xs := fun hd => by simp [ih.mpr hd] at h
      simp [hd]
    | none => simp [ih.mp h, eq_comm]

theorem splitLast_eq_some_iff {d : α} {xs before after : List α} :
    splitLast d xs = some (before, after) ↔ xs = before ++ d :: after ∧ d ∉ after := by
  induction xs generalizing before after with
  | nil => simp [splitLast]
  | cons x xs ih =>
    simp only [splitLast]
    cases h : splitLast d xs with
    | some p =>
      obtain ⟨b, a⟩ := p
      obtain ⟨hxs, ha⟩ := ih.mp h
      cases before with
      | nil =>
        -- the cut is not at the head, a later `d` is known
        refine iff_of_false (by simp) ?_
        rintro ⟨hx, hd⟩
        rw [← (List.cons.inj hx).2, hxs] at hd
        simp at hd
      | cons y before => simp [← ih, h, and_assoc]
    | none =>
      have hd : d ∉ xs := splitLast_eq_none_iff.mp h
      cases before with
      | nil =>
        by_cases hx : x = d
        · simp only [hx, if_true, Option.some.injEq, Prod.mk.injEq, true_and, List.nil_append,
            List.cons.injEq]
          constructor
          · rintro rfl
            exact ⟨rfl, hd⟩
          · exact fun h => h.1
        · simp [hx]
      | cons y before =>
        refine iff_of_false (by split_ifs <;> simp) ?_
        rintro ⟨hx, -⟩
        exact hd (by simp [(List.cons.inj hx).2])

end SplitLast

/-- What is before an extension. -/
def dot : OsUnit := .scalar '.'

/-- `rsplit_file_at_dot` of `std::path`: what is before the last dot, and after it. -/
def rsplitFileAtDot (file : OsString) : Option OsString × Option OsString :=
  if file = [dot, dot] then (some file, none)
  else
    match splitLast dot file with
    | none => (none, some file)
    | some (before, after) => if before = [] then (some file, none) else (some before, some after)

/-- `Path::file_stem` of a path with the file name `file`. -/
def fileStem (file : OsString) : Option OsString :=
  (rsplitFileAtDot file).1.or (rsplitFileAtDot file).2

/-- `Path::extension` of a path with the file name `file`. -/
def extension (file : OsString) : Option OsString :=
  (rsplitFileAtDot file).1.bind fun _ => (rsplitFileAtDot file).2

theorem extension_eq_some_iff {file after : OsString} :
    extension file = some after ↔
      file ≠ [dot, dot] ∧ ∃ before, before ≠ [] ∧ splitLast dot file = some (before, after) := by
  simp only [extension, rsplitFileAtDot]
  split_ifs with h
  · simp [h]
  · cases hs : splitLast dot file with
    | none => simp
    | some p =>
      obtain ⟨b, a⟩ := p
      by_cases hb : b = []
      · simp [hb]
      · simp [hb, h, eq_comm]

theorem fileStem_eq {file before after : OsString} (hf : file ≠ [dot, dot]) (hb : before ≠ [])
    (h : splitLast dot file = some (before, after)) : fileStem file = some before := by
  simp [fileStem, rsplitFileAtDot, hf, hb, h]

/-- **The name behind a stem and an extension.** An absent stem counts as the empty one, so the
stem asked for must not be empty. -/
theorem stem_and_extension_iff {file : OsString} {stem ext : String} (hstem : stem ≠ "")
    (hext : ext ≠ "") (hdot : '.' ∉ ext.toList) :
    (((extension file).bind toStr = some ext) ∧ ((fileStem file).bind toStr).getD "" = stem) ↔
      file = ofString (stem ++ "." ++ ext) := by
  have hfile : ofString (stem ++ "." ++ ext) = ofString stem ++ dot :: ofString ext := by
    simp [ofString, dot, String.toList_append]
  rw [hfile]
  constructor
  · rintro ⟨hx, hs⟩
    obtain ⟨after, hafter, ht⟩ := Option.bind_eq_some_iff.mp hx
    obtain ⟨hne, before, hb, hsplit⟩ := extension_eq_some_iff.mp hafter
    rw [fileStem_eq hne hb hsplit, Option.bind_some] at hs
    have hbefore : toStr before = some stem := by
      cases hbs : toStr before with
      | none => exact absurd (by simpa [hbs] using hs.symm) hstem
      | some b => simpa [hbs] using hs
    rw [(splitLast_eq_some_iff.mp hsplit).1, toStr_eq_some_iff.mp hbefore, toStr_eq_some_iff.mp ht]
  · rintro rfl
    have hb : ofString stem ≠ [] := fun h => hstem (ofString_eq_nil_iff.mp h)
    have ha : ofString ext ≠ [] := fun h => hext (ofString_eq_nil_iff.mp h)
    have hsplit : splitLast dot (ofString stem ++ dot :: ofString ext)
        = some (ofString stem, ofString ext) :=
      splitLast_eq_some_iff.mpr ⟨rfl, by simpa [ofString, dot] using hdot⟩
    have hne : ofString stem ++ dot :: ofString ext ≠ [dot, dot] := by
      intro h
      have := congrArg List.length h
      have h1 := List.length_pos_of_ne_nil hb
      have h2 := List.length_pos_of_ne_nil ha
      simp only [List.length_append, List.length_cons, List.length_nil] at this
      omega
    rw [fileStem_eq hne hb hsplit, extension_eq_some_iff.mpr ⟨hne, _, hb, hsplit⟩]
    simp

example : extension (ofString ".json") = none ∧ fileStem (ofString ".json") = ofString ".json" := by
  decide

end OsString
