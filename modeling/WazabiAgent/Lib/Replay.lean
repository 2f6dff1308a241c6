import Mathlib.Data.List.Basic

/-!
# Replaying the updates of a store

A store has at most one value for each key. Someone who has a view of the store and is told of its
changes replays them, one after the other, on the view.

A change of the store as a whole can be told in any order and with repetitions, as long as every
update says what is under its key afterwards, and no key that has changed is left out.

## Main definitions

* `Replay.replay` — a view after some updates
* `Replay.Tells` — the updates tell of the change from one store to another

## Main results

* `replay_of_tells` — the view of the one becomes that of the other
-/

namespace Replay

variable {κ β : Type*} [DecidableEq κ]

/-- Put down what is under a key, if anything is. -/
def apply (view : κ → Option β) (u : κ × Option β) : κ → Option β := Function.update view u.1 u.2

/-- The view after these updates. -/
def replay (view : κ → Option β) (us : List (κ × Option β)) : κ → Option β := us.foldl apply view

theorem replay_append (view : κ → Option β) (us vs : List (κ × Option β)) :
    replay view (us ++ vs) = replay (replay view us) vs := List.foldl_append

/-- From `old` to `new`. -/
structure Tells (old new : κ → Option β) (us : List (κ × Option β)) : Prop where
  after : ∀ u ∈ us, u.2 = new u.1
  complete : ∀ k, old k ≠ new k → ∃ u ∈ us, u.1 = k

variable {old new : κ → Option β} {us : List (κ × Option β)}

/-- A key of an update has its new value, and any other the one it had. -/
theorem replay_apply (h : ∀ u ∈ us, u.2 = new u.1) (view : κ → Option β) (k : κ) :
    replay view us k = if k ∈ us.map Prod.fst then new k else view k := by
  induction us generalizing view with
  | nil => rfl
  | cons u us ih =>
    obtain ⟨hu, hus⟩ := List.forall_mem_cons.mp h
    show replay (apply view u) us k = _
    rw [ih hus, List.map_cons]
    by_cases hk : k ∈ us.map Prod.fst
    · rw [if_pos hk, if_pos (List.mem_cons_of_mem _ hk)]
    · rw [if_neg hk, apply]
      by_cases heq : k = u.1
      · subst heq
        rw [Function.update_self, if_pos List.mem_cons_self, hu]
      · rw [Function.update_of_ne heq, if_neg (List.not_mem_cons_of_ne_of_not_mem heq hk)]

theorem replay_of_tells (h : Tells old new us) : replay old us = new := by
  funext k
  rw [replay_apply h.after]
  split_ifs with hk
  · rfl
  · by_contra hne
    obtain ⟨u, hu, rfl⟩ := h.complete k hne
    exact hk (List.mem_map_of_mem hu)

end Replay
