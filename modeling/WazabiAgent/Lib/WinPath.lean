import Mathlib.Data.List.Basic

/-!
# Windows paths as text

A path as `std::path` takes it apart on Windows: a drive, separators that make it absolute, and
components. Both separators count, a component that is empty or a single dot does not. Where the
file system finds the file of a path is another matter and not part of this.

A path is put together again with the one separator `\`, which gives an equal path.

## Main definitions

* `WinPath.components`, `WinPath.fileName`, `WinPath.parent` — `Path::components`, `file_name` and
  `parent`

## Main results

* `WinPath.fileName_append` — the name of a file in a directory
-/

namespace WinPath

/-- A separator of Windows paths. -/
def isSep (c : Char) : Bool := c = '\\' || c = '/'

/-- The text between the separators. -/
def split : List Char → List (List Char)
  | [] => [[]]
  | c :: cs =>
    if isSep c then [] :: split cs
    else
      match split cs with
      | seg :: segs => (c :: seg) :: segs
      | [] => [[c]]

/-- The drive, and what comes after it. -/
def cutDrive : List Char → List Char × List Char
  | c :: ':' :: cs => if c.isAlpha then ([c, ':'], cs) else ([], c :: ':' :: cs)
  | cs => ([], cs)

/-- The separators at the front; two of them begin the name of a server. -/
def rootOf : List Char → List Char
  | c :: d :: _ => if isSep c then (if isSep d then ['\\', '\\'] else ['\\']) else []
  | [c] => if isSep c then ['\\'] else []
  | [] => []

/-- A segment that counts: not empty, and not `.`. -/
def isComponent (seg : List Char) : Bool := seg ≠ [] && seg ≠ ['.']

/-- The names along a path. -/
def components (path : List Char) : List (List Char) :=
  (split (cutDrive path).2).filter isComponent

/-- `Path::file_name`. -/
def fileName (path : String) : Option String :=
  match (components path.toList).getLast? with
  | some seg => if seg = ['.', '.'] then none else some (String.ofList seg)
  | none => none

/-- `Path::parent`. -/
def parent (path : String) : Option String :=
  let (drive, rest) := cutDrive path.toList
  let comps := components path.toList
  if comps = [] then none
  else some (String.ofList (drive ++ rootOf rest ++ ['\\'].intercalate comps.dropLast))

example : parent "C:/ProgramData\\plugins\\tool.exe" = some "C:\\ProgramData\\plugins" ∧
    fileName "C:/ProgramData\\plugins\\tool.exe" = some "tool.exe" := by decide

/-! ### Files in a directory -/

theorem split_ne_nil (cs : List Char) : split cs ≠ [] := by
  cases cs with
  | nil => simp [split]
  | cons c cs =>
    simp only [split]
    split_ifs
    · simp
    · split <;> simp

theorem split_of_flat {cs : List Char} (h : ∀ c ∈ cs, isSep c = false) : split cs = [cs] := by
  induction cs with
  | nil => rfl
  | cons c cs ih =>
    obtain ⟨hc, hcs⟩ := List.forall_mem_cons.mp h
    simp [split, hc, ih hcs]

theorem split_append_sep {sep : Char} (hsep : isSep sep = true) (dir name : List Char) :
    split (dir ++ sep :: name) = split dir ++ split name := by
  induction dir with
  | nil => simp [split, hsep]
  | cons c dir ih =>
    simp only [List.cons_append, split]
    split_ifs
    · simp [ih]
    · rw [ih]
      cases hdir : split dir with
      | nil => exact absurd hdir (split_ne_nil dir)
      | cons seg segs => rfl

theorem isAlpha_of_isSep {c : Char} (h : isSep c = true) : c.isAlpha = false := by
  simp only [isSep, Bool.or_eq_true, decide_eq_true_eq] at h
  rcases h with rfl | rfl <;> decide

/-- A drive is found before the separator or not at all. -/
theorem cutDrive_append_sep {sep : Char} (hsep : isSep sep = true) (dir name : List Char) :
    cutDrive (dir ++ sep :: name) = ((cutDrive dir).1, (cutDrive dir).2 ++ sep :: name) := by
  have hcolon : sep ≠ ':' := by
    rintro rfl
    simp [isSep] at hsep
  match dir with
  | [] =>
    cases name with
    | nil => rfl
    | cons d name =>
      by_cases hd : d = ':'
      · subst hd
        simp [cutDrive, isAlpha_of_isSep hsep]
      · simp [cutDrive, hd]
  | [c] => simp [cutDrive, hcolon]
  | c :: d :: dir =>
    by_cases hd : d = ':'
    · subst hd
      by_cases hc : c.isAlpha = true <;> simp [cutDrive, hc]
    · simp [cutDrive, hd]

theorem components_append_sep {sep : Char} (hsep : isSep sep = true) (dir name : List Char) :
    components (dir ++ sep :: name) = components dir ++ (split name).filter isComponent := by
  rw [components, cutDrive_append_sep hsep, split_append_sep hsep, List.filter_append, components]

/-- A name that is one component. -/
structure Flat (name : String) : Prop where
  no_sep : ∀ c ∈ name.toList, isSep c = false
  component : isComponent name.toList = true
  not_up : name.toList ≠ ['.', '.']

theorem fileName_append {sep : Char} (hsep : isSep sep = true) {dir name : String}
    (h : Flat name) : fileName (dir ++ String.ofList [sep] ++ name) = some name := by
  have hcomps : components (dir ++ String.ofList [sep] ++ name).toList
      = components dir.toList ++ [name.toList] := by
    have htext : (dir ++ String.ofList [sep] ++ name).toList
        = dir.toList ++ sep :: name.toList := by
      simp [String.toList_append]
    rw [htext, components_append_sep hsep, split_of_flat h.no_sep]
    simp [h.component]
  simp only [fileName, hcomps, List.getLast?_append, List.getLast?_singleton]
  simp [h.not_up, String.ofList_toList]

theorem isSep_of_mem_split {seg cs : List Char} (h : seg ∈ split cs) :
    ∀ c ∈ seg, isSep c = false := by
  induction cs generalizing seg with
  | nil => simp_all [split]
  | cons d cs ih =>
    simp only [split] at h
    split_ifs at h with hd
    · rcases List.mem_cons.mp h with rfl | h
      · simp
      · exact ih h
    · cases hcs : split cs with
      | nil => exact absurd hcs (split_ne_nil cs)
      | cons head segs =>
        rw [hcs] at h ih
        rcases List.mem_cons.mp h with rfl | h
        · exact List.forall_mem_cons.mpr ⟨by simpa using hd, ih List.mem_cons_self⟩
        · exact ih (List.mem_cons_of_mem head h)

/-- A text that is its own file name is one component. -/
theorem flat_of_fileName {name : String} (h : fileName name = some name) : Flat name := by
  simp only [fileName] at h
  split at h
  case h_2 => cases h
  case h_1 seg hlast =>
    split_ifs at h with hup
    have hseg : seg = name.toList := by
      rw [← Option.some.inj h, String.toList_ofList]
    obtain ⟨hmem, hcomponent⟩ := List.mem_filter.mp (List.mem_of_getLast? hlast)
    subst hseg
    exact ⟨isSep_of_mem_split hmem, hcomponent, hup⟩

end WinPath
