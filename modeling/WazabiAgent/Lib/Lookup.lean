import Mathlib.Data.List.Basic
import WazabiAgent.Lib.Program

/-!
# Programs that read a store

A program over `Lookup` asks for the values of keys, one after the other: which key comes next may
depend on the values so far. `eval` is its result on a store that stands still. Where the store
changes between two reads, what the program comes to is that of no single store; `replay` finds it
from a record of the reads.

## Main results

* `replay_snoc` — the record grows at its end
* `eval_of_replay` — a store with all recorded values gives the result of the rest
-/

/-- The one operation: the value of a key. -/
inductive Lookup (K V : Type) : Type → Type
  | get (k : K) : Lookup K V V

namespace Lookup

variable {K V α : Type}

/-- The result on a store that does not change. -/
def eval (store : K → V) : Prog (Lookup K V) α → α
  | .pure a => a
  | .op (.get k) rest => eval store (rest (store k))

variable [DecidableEq K]

/-- What is left of the program after these reads. -/
def replay : List (K × V) → Prog (Lookup K V) α → Option (Prog (Lookup K V) α)
  | [], p => some p
  | (k, v) :: reads, .op (.get k') rest => if k' = k then replay reads (rest v) else none
  | _ :: _, .pure _ => none

theorem replay_snoc {reads : List (K × V)} {p : Prog (Lookup K V) α} {k : K}
    {rest : V → Prog (Lookup K V) α} (h : replay reads p = some (.op (.get k) rest)) (v : V) :
    replay (reads ++ [(k, v)]) p = some (rest v) := by
  induction reads generalizing p with
  | nil =>
    obtain rfl := Option.some.inj h
    simp [replay]
  | cons x reads ih =>
    cases p with
    | pure a => cases h
    | op o rest' =>
      cases o with
      | get k' =>
        rw [replay] at h
        split_ifs at h with hk
        rw [List.cons_append, replay, if_pos hk]
        exact ih h

/-- **Replay on a store.** The reads would have gone the same way on it. -/
theorem eval_of_replay {store : K → V} {reads : List (K × V)} {p q : Prog (Lookup K V) α}
    (h : replay reads p = some q) (hstore : ∀ x ∈ reads, store x.1 = x.2) :
    eval store p = eval store q := by
  induction reads generalizing p with
  | nil => rw [Option.some.inj h]
  | cons x reads ih =>
    cases p with
    | pure a => cases h
    | op o rest =>
      cases o with
      | get k =>
        rw [replay] at h
        split_ifs at h with hk
        have hx : store k = x.2 := by rw [hk]; exact hstore x List.mem_cons_self
        rw [eval, hx]
        exact ih h fun y hy => hstore y (List.mem_cons_of_mem x hy)

end Lookup
