import Mathlib.Algebra.Ring.Nat
import Mathlib.Data.List.Basic

/-!
# Walking a tree with a stack

A directory tree is walked with a stack of directories still to be opened: what is popped is opened
and drained, its files are visited and its directories pushed. A child may be out of sight, a
directory may be closed, and the walk goes on without them.

Paths are extended by `join`, what the visits build is a parameter, and so are the failures.

## Main definitions

* `DirTree` — a tree of directories, with anything at its leaves
* `TreeWalk.walk` — the loop
* `TreeWalk.Reaches` — a leaf with nothing but open directories in sight above it

## Main results

* `walk_visits` — the walk visits the leaves that can be reached, and no others
-/

/-- A tree with a value at each leaf and names along its branches. -/
inductive DirTree (ν α : Type)
  | leaf (a : α)
  | node (children : List (ν × DirTree ν α))

namespace DirTree

variable {ν α : Type}

mutual

/-- The number of directories. -/
def dirs : DirTree ν α → ℕ
  | leaf _ => 0
  | node children => 1 + dirsIn children

/-- The nodes in these trees. -/
def dirsIn : List (ν × DirTree ν α) → ℕ
  | [] => 0
  | (_, child) :: children => dirs child + dirsIn children

end

end DirTree

namespace TreeWalk

/-- What is in a directory. -/
abbrev Children (ν α : Type) := List (ν × DirTree ν α)

variable {ν α π ρ : Type} (join : π → ν → π) (sees opens : π → Bool) (visit : ρ → π → α → ρ)

/-! ### One directory -/

/-- Visit the leaves and push the directories. -/
def drain (dir : π) : Children ν α → List (π × Children ν α) → ρ → List (π × Children ν α) × ρ
  | [], stack, out => (stack, out)
  | (name, child) :: children, stack, out =>
    if sees (join dir name) then
      match child with
      | .leaf a => drain dir children stack (visit out (join dir name) a)
      | .node sub => drain dir children ((join dir name, sub) :: stack) out
    else drain dir children stack out

/-- The directories in sight. -/
def subdirs (dir : π) (children : Children ν α) : List (π × Children ν α) :=
  children.filterMap fun c =>
    match c.2 with
    | .leaf _ => none
    | .node sub => if sees (join dir c.1) then some (join dir c.1, sub) else none

/-- The leaves in sight. -/
def leaves (dir : π) (children : Children ν α) : List (π × α) :=
  children.filterMap fun c =>
    match c.2 with
    | .leaf a => if sees (join dir c.1) then some (join dir c.1, a) else none
    | .node _ => none

theorem drain_eq (dir : π) (children : Children ν α) (stack : List (π × Children ν α)) (out : ρ) :
    drain join sees visit dir children stack out
      = ((subdirs join sees dir children).reverse ++ stack,
        (leaves join sees dir children).foldl (fun o l => visit o l.1 l.2) out) := by
  induction children generalizing stack out with
  | nil => rfl
  | cons c children ih =>
    obtain ⟨name, child⟩ := c
    cases child with
    | leaf a =>
      simp only [drain, subdirs, leaves, List.filterMap_cons]
      split_ifs with hsees <;> simp [ih, subdirs, leaves]
    | node sub =>
      simp only [drain, subdirs, leaves, List.filterMap_cons]
      split_ifs with hsees <;> simp [ih, subdirs, leaves]

theorem mem_subdirs_iff {dir : π} {children : Children ν α} {d : π × Children ν α} :
    d ∈ subdirs join sees dir children ↔
      ∃ name, (name, DirTree.node d.2) ∈ children ∧ sees (join dir name) ∧ d.1 = join dir name := by
  rw [subdirs, List.mem_filterMap]
  constructor
  · rintro ⟨⟨name, child⟩, hmem, hd⟩
    cases child with
    | leaf a => cases hd
    | node sub =>
      dsimp only at hd
      split_ifs at hd with hsees
      rw [← Option.some.inj hd]
      exact ⟨name, hmem, hsees, rfl⟩
  · rintro ⟨name, hmem, hsees, hd⟩
    refine ⟨_, hmem, ?_⟩
    dsimp only
    rw [if_pos hsees, ← hd]

theorem mem_leaves_iff {dir : π} {children : Children ν α} {l : π × α} :
    l ∈ leaves join sees dir children ↔
      ∃ name, (name, DirTree.leaf l.2) ∈ children ∧ sees (join dir name) ∧ l.1 = join dir name := by
  rw [leaves, List.mem_filterMap]
  constructor
  · rintro ⟨⟨name, child⟩, hmem, hl⟩
    cases child with
    | node sub => cases hl
    | leaf a =>
      dsimp only at hl
      split_ifs at hl with hsees
      rw [← Option.some.inj hl]
      exact ⟨name, hmem, hsees, rfl⟩
  · rintro ⟨name, hmem, hsees, hl⟩
    refine ⟨_, hmem, ?_⟩
    dsimp only
    rw [if_pos hsees, ← hl]

/-! ### The loop -/

/-- The directories that are still to be opened, or below one that is. -/
def weight (stack : List (π × Children ν α)) : ℕ :=
  (stack.map fun d => 1 + DirTree.dirsIn d.2).sum

theorem weight_subdirs_le (dir : π) (children : Children ν α) :
    weight (subdirs join sees dir children) ≤ DirTree.dirsIn children := by
  induction children with
  | nil => exact Nat.le_refl 0
  | cons c children ih =>
    obtain ⟨name, child⟩ := c
    cases child with
    | leaf a =>
      rw [DirTree.dirsIn, DirTree.dirs, Nat.zero_add]
      exact ih
    | node sub =>
      rw [DirTree.dirsIn, DirTree.dirs]
      simp only [subdirs, List.filterMap_cons]
      split_ifs
      · simp only [weight, subdirs, List.map_cons, List.sum_cons] at ih ⊢
        omega
      · simp only [subdirs] at ih ⊢
        omega

/-- Open what is popped and drain it, until the stack is empty. -/
def walk (stack : List (π × Children ν α)) (out : ρ) : ρ :=
  match stack with
  | [] => out
  | (dir, children) :: stack =>
    if opens dir then
      walk (drain join sees visit dir children stack out).1
        (drain join sees visit dir children stack out).2
    else walk stack out
termination_by weight stack
decreasing_by
  · rw [drain_eq]
    have hsub := weight_subdirs_le join sees dir children
    simp only [weight, List.map_append, List.map_reverse, List.sum_append, List.sum_reverse,
      List.map_cons, List.sum_cons] at hsub ⊢
    omega
  · simp only [weight, List.map_cons, List.sum_cons]
    omega

/-! ### What is visited -/

/-- A leaf in sight of the directory, or of an open one below that is in sight. -/
inductive Reaches : π → Children ν α → π × α → Prop
  | leaf {dir : π} {children : Children ν α} {name : ν} {a : α}
      (hmem : (name, DirTree.leaf a) ∈ children) (hsees : sees (join dir name)) :
      Reaches dir children (join dir name, a)
  | node {dir : π} {children sub : Children ν α} {name : ν} {l : π × α}
      (hmem : (name, DirTree.node sub) ∈ children) (hsees : sees (join dir name))
      (hopen : opens (join dir name)) (hbelow : Reaches (join dir name) sub l) :
      Reaches dir children l

variable {join sees opens visit}

theorem reaches_iff {dir : π} {children : Children ν α} {l : π × α} :
    Reaches join sees opens dir children l ↔
      l ∈ leaves join sees dir children ∨
        ∃ d ∈ subdirs join sees dir children, opens d.1 ∧ Reaches join sees opens d.1 d.2 l := by
  constructor
  · intro h
    cases h with
    | leaf hmem hsees => exact .inl ((mem_leaves_iff ..).mpr ⟨_, hmem, hsees, rfl⟩)
    | node hmem hsees hopen hbelow =>
      exact .inr ⟨(_, _), (mem_subdirs_iff ..).mpr ⟨_, hmem, hsees, rfl⟩, hopen, hbelow⟩
  · rintro (hl | ⟨⟨path, sub⟩, hd, hopen, hbelow⟩)
    · obtain ⟨name, hmem, hsees, hpath⟩ := (mem_leaves_iff ..).mp hl
      have hleaf : Reaches join sees opens dir children (join dir name, l.2) := .leaf hmem hsees
      rwa [← hpath] at hleaf
    · obtain ⟨name, hmem, hsees, rfl⟩ := (mem_subdirs_iff ..).mp hd
      exact .node hmem hsees hopen hbelow

theorem Reaches.mono {sees' opens' : π → Bool} (hsees : ∀ path, sees path → sees' path)
    (hopens : ∀ path, opens path → opens' path) {dir : π} {children : Children ν α}
    {l : π × α} (h : Reaches join sees opens dir children l) :
    Reaches join sees' opens' dir children l := by
  induction h with
  | leaf hmem hs => exact .leaf hmem (hsees _ hs)
  | node hmem hs ho _ ih => exact .node hmem (hsees _ hs) (hopens _ ho) ih

variable (join sees opens visit)

/-- **The walk visits what can be reached from its stack.** -/
theorem walk_visits (stack : List (π × Children ν α)) (out : ρ) :
    ∃ ls : List (π × α), walk join sees opens visit stack out
        = ls.foldl (fun o l => visit o l.1 l.2) out ∧
      ∀ l, l ∈ ls ↔ ∃ d ∈ stack, opens d.1 ∧ Reaches join sees opens d.1 d.2 l := by
  induction stack, out using walk.induct join sees opens visit with
  | case1 out => exact ⟨[], by rw [walk]; rfl, by simp⟩
  | case2 out dir children stack hopen ih =>
    obtain ⟨ls, heq, hmem⟩ := ih
    refine ⟨leaves join sees dir children ++ ls, ?_, fun l => ?_⟩
    · rw [walk, if_pos hopen, heq, drain_eq, List.foldl_append]
    · rw [List.mem_append, hmem, drain_eq, List.exists_mem_cons_iff, reaches_iff]
      simp only [List.mem_append, List.mem_reverse, or_and_right, exists_or, hopen, true_and,
        or_assoc]
  | case3 out dir children stack hopen ih =>
    obtain ⟨ls, heq, hmem⟩ := ih
    refine ⟨ls, ?_, fun l => ?_⟩
    · rw [walk, if_neg hopen, heq]
    · rw [hmem, List.exists_mem_cons_iff, or_iff_right fun h => hopen h.1]

end TreeWalk
