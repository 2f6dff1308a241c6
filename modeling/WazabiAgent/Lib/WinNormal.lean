import WazabiAgent.Lib.Text
import WazabiAgent.Lib.WinPath

/-!
# Where a Windows path leads

Before the file system looks for a file, the path is normalised. Empty segments and single dots
go, a double dot takes the directory before it away. A segment that ends in a single period loses
it, and the end of the path loses all its periods and spaces. After a colon in the last segment
comes the name of a stream; without a name before the colon it is a stream of the directory.

The drive and the root of a path are not part of its target: they stay as they are.

## Main definitions

* `WinPath.normalise` — the target of a path
* `WinPath.dirsOf` — the directory of what is below the path

## Main results

* `normalise_append_sep`, `dirsOf_append_sep` — a name below a directory
-/

namespace WinPath

/-- "If a segment ends in a single period, that period is removed." -/
def dropDot (seg : List Char) : List Char :=
  if seg.getLast? = some '.' ∧ seg.dropLast.getLast? ≠ some '.' then seg.dropLast else seg

/-- The end of a path that does not end in a separator. -/
def trimEnd (seg : List Char) : List Char := seg.rdropWhile fun c => c = '.' || c = ' '

/-- The segment `..`. -/
def isUp (seg : List Char) : Bool := seg = ['.', '.']

/-- A segment that others follow. -/
def enter (dirs : List (List Char)) (seg : List Char) : List (List Char) :=
  if !isComponent seg then dirs
  else if isUp seg then dirs.dropLast
  else dirs ++ [dropDot seg]

/-- A file or directory, or a stream of it. -/
structure Target where
  comps : List (List Char)
  stream : Option (List Char) := none
  deriving DecidableEq

/-- A name in a directory, which it may not add to. -/
def below (dirs : List (List Char)) (name : List Char) : List (List Char) :=
  if name = [] then dirs else dirs ++ [name]

/-- The last segment. -/
def finish (dirs : List (List Char)) (seg : List Char) : Target :=
  if !isComponent seg then { comps := dirs }
  else if isUp seg then { comps := dirs.dropLast }
  else
    match Text.cutAt [':'] (trimEnd seg) with
    | some (name, stream) => { comps := below dirs name, stream := some stream }
    | none => { comps := below dirs (trimEnd seg) }

/-- Where a path leads, when its segments have been followed. -/
def normalise (path : List Char) : Target :=
  let segs := split (cutDrive path).2
  finish (segs.dropLast.foldl enter []) (segs.getLastD [])

/-- What the path is for what is below it. -/
def dirsOf (path : List Char) : List (List Char) := (split (cutDrive path).2).foldl enter []

example : normalise "C:\\plugins\\.\\acme.\\1.0\\tool.exe. .".toList
    = { comps := ["plugins".toList, "acme".toList, "1.0".toList, "tool.exe".toList] } := by
  decide

example : normalise "plugins\\acme\\..\\a:b".toList
    = { comps := ["plugins".toList, ['a']], stream := some ['b'] } := by decide

/-! ### A name below a directory -/

theorem normalise_append_sep {sep : Char} (hsep : isSep sep = true) (dir : List Char)
    {name : List Char} (hname : ∀ c ∈ name, isSep c = false) :
    normalise (dir ++ sep :: name) = finish (dirsOf dir) name := by
  simp only [normalise]
  rw [cutDrive_append_sep hsep, split_append_sep hsep, split_of_flat hname, List.dropLast_concat,
    List.getLastD_concat]
  rfl

theorem flat_of_all {s : List Char} (h : (s.all fun c => !isSep c) = true) :
    ∀ c ∈ s, isSep c = false := by
  intro c hc
  simpa using List.all_eq_true.mp h c hc

theorem dirsOf_append_sep {sep : Char} (hsep : isSep sep = true) (dir : List Char)
    {name : List Char} (hname : ∀ c ∈ name, isSep c = false) :
    dirsOf (dir ++ sep :: name) = enter (dirsOf dir) name := by
  rw [dirsOf, cutDrive_append_sep hsep, split_append_sep hsep, split_of_flat hname,
    List.foldl_concat]
  rfl

theorem dropDot_eq_nil_iff {seg : List Char} : dropDot seg = [] ↔ seg = [] ∨ seg = ['.'] := by
  rw [dropDot]
  split_ifs with h
  · obtain ⟨init, rfl⟩ := List.getLast?_eq_some_iff.mp h.1
    simp
  · refine ⟨.inl, fun hseg => hseg.resolve_right fun hdot => h ?_⟩
    rw [hdot]
    decide

theorem colon_mem_trimEnd_iff {seg : List Char} : ':' ∈ trimEnd seg ↔ ':' ∈ seg := by
  refine ⟨fun h => (List.rdropWhile_prefix _ _).subset h, fun h => ?_⟩
  rw [← @List.rdropWhile_append_rtakeWhile _ (fun c => c = '.' || c = ' ') seg] at h
  rcases List.mem_append.mp h with h | h
  · exact h
  · have hdropped := List.mem_rtakeWhile_imp h
    simp at hdropped

theorem finish_of_no_colon {dirs : List (List Char)} {seg : List Char} (h : ':' ∉ seg) :
    finish dirs seg =
      if !isComponent seg then { comps := dirs }
      else if isUp seg then { comps := dirs.dropLast }
      else { comps := below dirs (trimEnd seg) } := by
  have hcut : Text.cutAt [':'] (trimEnd seg) = none :=
    Text.cutAt_char_eq_none.mpr (mt colon_mem_trimEnd_iff.mp h)
  rw [finish, hcut]

end WinPath
