import Mathlib.Data.List.Infix

/-!
# File trees

A `FileTree` says what is at a location: nothing, a file with its content, or a directory. A
location is a list of names, outermost first, and whatever is below it extends it. Names and
contents are parameters.

The operations are partial, `none` where the file system refuses them on account of what is there.
Other failures are for the user to add.

## Shapes

Whether an operation is refused depends on where there are files and directories, not on what is in
the files. So every operation commutes with `shape`, which forgets the contents.

## Main definitions

* `createDirAll`, `write`, `removeFile`, `rename`, `prune` — what the functions of `std::fs` do
* `shape` — the tree without the contents
* `Below` — a part of another tree
-/

/-- A file or a directory. -/
inductive Node (α : Type)
  | file (content : α)
  | dir
  deriving DecidableEq

/-- What is at a location, content aside. -/
def Node.shape {α : Type} : Node α → Node Unit
  | .file _ => .file ()
  | .dir => .dir

/-- What is at each path, a list of names. -/
abbrev FileTree (ν α : Type) := List ν → Option (Node α)

namespace FileTree

variable {ν α : Type} {t t' u : FileTree ν α} {l l' : List ν}

/-! ### What is there -/

/-- The content of a file. -/
def content (t : FileTree ν α) (l : List ν) : Option α :=
  match t l with
  | some (.file a) => some a
  | _ => none

/-- There is a directory. -/
def isDir (t : FileTree ν α) (l : List ν) : Bool :=
  match t l with
  | some .dir => true
  | _ => false

theorem content_eq_some_iff {a : α} : t.content l = some a ↔ t l = some (.file a) := by
  rw [content]
  split <;> simp_all

theorem isDir_iff : t.isDir l = true ↔ t l = some .dir := by
  rw [isDir]
  split <;> simp_all

theorem isDir_of_content {a : α} (h : t.content l = some a) : t.isDir l = false := by
  simp [isDir, content_eq_some_iff.mp h]

/-- The tree without the contents of its files. -/
def shape (t : FileTree ν α) : FileTree ν Unit := fun l => (t l).map Node.shape

theorem content_shape (t : FileTree ν α) (l : List ν) :
    t.shape.content l = (t.content l).map fun _ => () := by
  cases h : t l with
  | none => simp [shape, content, h]
  | some node => cases node <;> simp [shape, content, h, Node.shape]

@[simp] theorem isDir_shape (t : FileTree ν α) (l : List ν) : t.shape.isDir l = t.isDir l := by
  cases h : t l with
  | none => simp [shape, isDir, h]
  | some node => cases node <;> simp [shape, isDir, h, Node.shape]

/-! ### Operations -/

variable [DecidableEq ν]

/-- Puts something at a path, or takes it away. -/
def set (t : FileTree ν α) (l : List ν) (node : Option (Node α)) : FileTree ν α :=
  fun l' => if l' = l then node else t l'

/-- `create_dir_all`: a file in the way is an obstacle. -/
def createDirAll (t : FileTree ν α) (dir : List ν) : Option (FileTree ν α) :=
  if dir.inits.any fun l => (t.content l).isSome then none
  else some fun l => if l <+: dir then some .dir else t l

/-- `File::create`, and what is written to the file. -/
def write (t : FileTree ν α) (l : List ν) (a : α) : Option (FileTree ν α) :=
  if t.isDir l then none else some (t.set l (some (.file a)))

/-- `remove_file`. -/
def removeFile (t : FileTree ν α) (l : List ν) : Option (FileTree ν α) :=
  if (t.content l).isSome then some (t.set l none) else none

/-- `rename` of a file, which replaces another. -/
def rename (t : FileTree ν α) (src dst : List ν) : Option (FileTree ν α) :=
  match t.content src with
  | some a => if t.isDir dst then none else some ((t.set src none).set dst (some (.file a)))
  | none => none

/-- A directory without what is not kept of it. -/
def prune (t : FileTree ν α) (dir : List ν) (kept : List ν → Bool) : FileTree ν α :=
  fun l => if dir <+: l ∧ kept l = false then none else t l

@[simp] theorem set_self (t : FileTree ν α) (l : List ν) (node : Option (Node α)) :
    t.set l node l = node := if_pos rfl

theorem set_of_ne (t : FileTree ν α) (node : Option (Node α)) (h : l' ≠ l) :
    t.set l node l' = t l' := if_neg h

@[simp] theorem content_set_file (t : FileTree ν α) (l : List ν) (a : α) :
    (t.set l (some (.file a))).content l = some a := by simp [content]

@[simp] theorem content_set_none (t : FileTree ν α) (l : List ν) :
    (t.set l none).content l = none := by simp [content]

theorem content_set_of_ne (t : FileTree ν α) (node : Option (Node α)) (h : l' ≠ l) :
    (t.set l node).content l' = t.content l' := by
  simp only [content, set_of_ne t node h]

theorem prune_all (t : FileTree ν α) (dir : List ν) : (t.prune dir fun _ => true) = t := by
  funext l
  simp [prune]

theorem createDirAll_eq_some_iff {dir : List ν} :
    t.createDirAll dir = some t' ↔
      (∀ l, l <+: dir → t.content l = none) ∧
        t' = fun l => if l <+: dir then some .dir else t l := by
  rw [createDirAll]
  have hany : dir.inits.any (fun l => (t.content l).isSome) = true ↔
      ¬∀ l, l <+: dir → t.content l = none := by
    simp [Option.isSome_iff_ne_none]
  split_ifs with h
  · simp [hany.mp h]
  · have hfree : ∀ l, l <+: dir → t.content l = none := not_not.mp (mt hany.mpr h)
    rw [Option.some.injEq, eq_comm]
    exact ⟨fun h => ⟨hfree, h⟩, fun h => h.2⟩

/-- The files stay. -/
theorem content_createDirAll {dir : List ν} (h : t.createDirAll dir = some t') (l : List ν) :
    t'.content l = t.content l := by
  obtain ⟨hfree, rfl⟩ := createDirAll_eq_some_iff.mp h
  by_cases hl : l <+: dir
  · rw [hfree l hl]
    simp [content, hl]
  · simp [content, hl]

theorem write_eq_some_iff {a : α} :
    t.write l a = some t' ↔ t.isDir l = false ∧ t' = t.set l (some (.file a)) := by
  rw [write]
  split_ifs with h
  · simp [h]
  · simp [h, eq_comm]

theorem removeFile_eq_some_iff :
    t.removeFile l = some t' ↔ (t.content l).isSome = true ∧ t' = t.set l none := by
  rw [removeFile]
  split_ifs with h
  · simp [h, eq_comm]
  · simp [h]

theorem rename_eq_some_iff {src dst : List ν} :
    t.rename src dst = some t' ↔
      ∃ a, t.content src = some a ∧ t.isDir dst = false ∧
        t' = (t.set src none).set dst (some (.file a)) := by
  rw [rename]
  cases t.content src with
  | none => simp
  | some a => cases t.isDir dst <;> simp [eq_comm]

/-- To remove what is about to be replaced makes no difference to a replacement that succeeds. -/
theorem rename_of_removeFile {src dst : List ν} (h : t.removeFile dst = some t')
    (hu : t'.rename src dst = some u) : t.rename src dst = some u := by
  obtain ⟨hdst, rfl⟩ := removeFile_eq_some_iff.mp h
  obtain ⟨a, ha, -, rfl⟩ := rename_eq_some_iff.mp hu
  obtain ⟨b, hb⟩ := Option.isSome_iff_exists.mp hdst
  have hne : src ≠ dst := by
    rintro rfl
    simp at ha
  refine rename_eq_some_iff.mpr ⟨a, by rwa [content_set_of_ne _ _ hne] at ha,
    isDir_of_content hb, funext fun l => ?_⟩
  simp only [set]
  split_ifs <;> rfl

/-! ### Shapes -/

theorem shape_set (t : FileTree ν α) (l : List ν) (node : Option (Node α)) :
    (t.set l node).shape = t.shape.set l (node.map Node.shape) := by
  funext l'
  simp only [shape, set]
  split_ifs <;> rfl

theorem createDirAll_shape (t : FileTree ν α) (dir : List ν) :
    t.shape.createDirAll dir = (t.createDirAll dir).map shape := by
  simp only [createDirAll, content_shape, Option.isSome_map]
  split_ifs with h
  · rfl
  · rw [Option.map_some, Option.some.injEq]
    funext l
    simp only [shape]
    split_ifs <;> rfl

theorem write_shape (t : FileTree ν α) (l : List ν) (a : α) :
    t.shape.write l () = (t.write l a).map shape := by
  simp only [write, isDir_shape]
  split_ifs
  · rfl
  · rw [Option.map_some, shape_set]
    rfl

theorem rename_shape (t : FileTree ν α) (src dst : List ν) :
    t.shape.rename src dst = (t.rename src dst).map shape := by
  simp only [rename, content_shape, isDir_shape]
  cases t.content src with
  | none => rfl
  | some a =>
    simp only [Option.map_some]
    split_ifs
    · rfl
    · rw [Option.map_some, shape_set, shape_set]
      rfl

/-! ### Parts -/

/-- What is in `t` is in `t'` too, and the same. -/
def Below (t t' : FileTree ν α) : Prop := ∀ l node, t l = some node → t' l = some node

omit [DecidableEq ν] in
theorem Below.isDir_eq_false (h : t.Below t') (hl : t'.isDir l = false) : t.isDir l = false := by
  by_contra hdir
  rw [Bool.not_eq_false, isDir_iff] at hdir
  rw [isDir_iff.mpr (h l _ hdir)] at hl
  cases hl

theorem Below.set (h : t.Below t') (l : List ν) (node : Option (Node α)) :
    (t.set l node).Below (t'.set l node) := by
  intro l' node' hl'
  simp only [FileTree.set] at hl' ⊢
  split_ifs at hl' ⊢ with heq
  · exact hl'
  · exact h l' node' hl'

/-- What can be created in a tree can be created in a part of it. The two agree where they did. -/
theorem Below.createDirAll {dir : List ν} {u' : FileTree ν α} (h : t.Below t')
    (hcreate : t'.createDirAll dir = some u') :
    ∃ u, t.createDirAll dir = some u ∧ u.Below u' ∧ ∀ l, t l = t' l → u l = u' l := by
  obtain ⟨hfree', rfl⟩ := createDirAll_eq_some_iff.mp hcreate
  have hfree (l : List ν) (hl : l <+: dir) : t.content l = none := by
    by_contra hsome
    obtain ⟨a, ha⟩ := Option.ne_none_iff_exists'.mp hsome
    have hfile := content_eq_some_iff.mpr (h l _ (content_eq_some_iff.mp ha))
    rw [hfree' l hl] at hfile
    cases hfile
  refine ⟨_, createDirAll_eq_some_iff.mpr ⟨hfree, rfl⟩, fun l node hl => ?_, fun l hl => ?_⟩
  · dsimp only at hl ⊢
    split_ifs at hl ⊢ with hdir
    · exact hl
    · exact h l node hl
  · dsimp only
    rw [hl]

theorem Below.rename {src dst : List ν} {u' : FileTree ν α} (h : t.Below t')
    (hsrc : t src = t' src) (hu : t'.rename src dst = some u') :
    ∃ u, t.rename src dst = some u ∧ u.Below u' ∧ ∀ l, t l = t' l → u l = u' l := by
  obtain ⟨a, ha, hdir, rfl⟩ := rename_eq_some_iff.mp hu
  have ha' : t.content src = some a := by rwa [content, hsrc]
  refine ⟨_, rename_eq_some_iff.mpr ⟨a, ha', h.isDir_eq_false hdir, rfl⟩, (h.set _ _).set _ _,
    fun l hl => ?_⟩
  simp only [FileTree.set, hl]

theorem Below.write {a : α} {u' : FileTree ν α} (h : t.Below t') (hu : t'.write l a = some u') :
    ∃ u, t.write l a = some u ∧ u.Below u' ∧ ∀ l', t l' = t' l' → u l' = u' l' := by
  obtain ⟨hdir, rfl⟩ := write_eq_some_iff.mp hu
  refine ⟨_, write_eq_some_iff.mpr ⟨h.isDir_eq_false hdir, rfl⟩, h.set _ _, fun l' hl' => ?_⟩
  simp only [FileTree.set, hl']

end FileTree
