import Mathlib.Data.List.Nodup
import WazabiAgent.Lib.Transition

/-!
# Taking turns

Several parties use resources that only one of them may have at a time. What they do is a log of
events: a party begins its turn at a resource, acts on it, and finishes its turn. `Turns.step` reads
the log for one resource and remembers who has it; a log is in order if it can be read to its end
for every resource.

A mutex around a set of claimed resources is one way to keep such a log in order, an owned handle
is another.

## Main definitions

* `Turns.Orderly` — the log is in order, and who has which resource at its end

## Main results

* `Orderly.begins`, `Orderly.act`, `Orderly.finishes` — how a log goes on in order
* `Orderly.party_of_begin` — within a turn nobody else acts, or begins another
-/

namespace Turns

open LabelledStep

variable {ι κ : Type*}

/-- What a party does in its turn. -/
inductive Event (ι κ : Type*)
  | begin (i : ι) (k : κ)
  | act (i : ι) (k : κ)
  | finish (i : ι) (k : κ)
  deriving DecidableEq

/-- The event is about this resource. -/
def Event.key : Event ι κ → κ
  | .begin _ k | .act _ k | .finish _ k => k

/-- The party whose event it is. -/
def Event.party : Event ι κ → ι
  | .begin i _ | .act i _ | .finish i _ => i

variable [DecidableEq ι] [DecidableEq κ]

/-- Who has the resource `k` after an event; `none` if the event is out of order. -/
def step (k : κ) (h : Option ι) : Event ι κ → Option (Option ι)
  | .begin i j => if j = k then (if h = none then some (some i) else none) else some h
  | .act i j => if j = k then (if h = some i then some h else none) else some h
  | .finish i j => if j = k then (if h = some i then some none else none) else some h

theorem step_of_ne {k : κ} {e : Event ι κ} (h : e.key ≠ k) (o : Option ι) :
    step k o e = some o := by
  cases e <;> exact if_neg h

/-- The log is in order, and at its end `holder` has the resources. -/
def Orderly (log : List (Event ι κ)) (holder : κ → Option ι) : Prop :=
  ∀ k, run (step k) none log = some (holder k)

theorem orderly_nil : Orderly ([] : List (Event ι κ)) fun _ => none := fun _ => rfl

variable {log more : List (Event ι κ)} {holder : κ → Option ι} {i j : ι} {k : κ}

theorem run_of_ne {k : κ} (h : ∀ e ∈ more, e.key ≠ k) (o : Option ι) :
    run (step k) o more = some o := by
  induction more with
  | nil => rfl
  | cons e more ih =>
    rw [run_cons, step_of_ne (h e List.mem_cons_self), Option.bind_some]
    exact ih fun e' he' => h e' (List.mem_cons_of_mem _ he')

/-! ### How a log goes on -/

theorem Orderly.append {holder' : κ → Option ι} (h : Orderly log holder)
    (hm : ∀ k, run (step k) (holder k) more = some (holder' k)) :
    Orderly (log ++ more) holder' := by
  intro k
  rw [run_append_of_run (h k)]
  exact hm k

/-- Events for different resources do not disturb each other. -/
theorem run_map {k : κ} {ks : List κ} (hnd : ks.Nodup) (ev : κ → Event ι κ)
    (hkey : ∀ k, (ev k).key = k) (o : Option ι) :
    run (step k) o (ks.map ev) = if k ∈ ks then step k o (ev k) else some o := by
  split_ifs with hk
  · obtain ⟨as, bs, rfl⟩ := List.append_of_mem hk
    have hne : ∀ k' ∈ as ++ bs, k' ≠ k := fun k' hk' heq =>
      (List.nodup_middle.mp hnd).notMem (heq ▸ hk')
    rw [List.map_append, List.map_cons, run_append_of_run (run_of_ne (o := o) ?_), run_cons]
    · cases hs : step k o (ev k) with
      | none => rfl
      | some o' =>
        refine run_of_ne (fun e he => ?_) o'
        obtain ⟨k', hk', rfl⟩ := List.mem_map.mp he
        rw [hkey]
        exact hne k' (List.mem_append_right _ hk')
    · intro e he
      obtain ⟨k', hk', rfl⟩ := List.mem_map.mp he
      rw [hkey]
      exact hne k' (List.mem_append_left _ hk')
  · refine run_of_ne (fun e he => ?_) o
    obtain ⟨k', hk', rfl⟩ := List.mem_map.mp he
    rw [hkey]
    rintro rfl
    exact hk hk'

/-- A party begins its turn at several resources that nobody has. -/
theorem Orderly.begins (h : Orderly log holder) (i : ι) {ks : List κ} (hnd : ks.Nodup)
    (hfree : ∀ k ∈ ks, holder k = none) :
    Orderly (log ++ ks.map (.begin i)) fun k => if k ∈ ks then some i else holder k := by
  refine h.append fun k => ?_
  rw [run_map hnd (.begin i) (fun _ => rfl)]
  split_ifs with hk
  · simp [step, hfree k hk]
  · rfl

/-- A party acts on a resource that it has. -/
theorem Orderly.act (h : Orderly log holder) (hk : holder k = some i) :
    Orderly (log ++ [.act i k]) holder := by
  refine h.append fun k' => ?_
  rw [run_cons, step]
  split_ifs with heq hne
  · rfl
  · exact absurd (heq ▸ hk) hne
  · rfl

/-- A party finishes its turn at several resources that it has. -/
theorem Orderly.finishes (h : Orderly log holder) (i : ι) {ks : List κ} (hnd : ks.Nodup)
    (hhas : ∀ k ∈ ks, holder k = some i) :
    Orderly (log ++ ks.map (.finish i)) fun k => if k ∈ ks then none else holder k := by
  refine h.append fun k => ?_
  rw [run_map hnd (.finish i) (fun _ => rfl)]
  split_ifs with hk
  · simp [step, hhas k hk]
  · rfl

/-! ### What order means -/

/-- As long as a turn is not finished its party has the resource. -/
theorem run_of_no_finish {o : Option ι} (h : run (step k) (some i) more = some o)
    (hf : ∀ j, .finish j k ∉ more) : o = some i ∧ ∀ e ∈ more, e.key = k → e.party = i := by
  induction more with
  | nil => exact ⟨(Option.some.inj h).symm, by simp⟩
  | cons e more ih =>
    obtain ⟨u, hu, hrun⟩ := run_cons_iff.mp h
    have hstay : u = some i ∧ (e.key = k → e.party = i) := by
      cases e with
      | begin j k' =>
        by_cases hk : k' = k
        · simp [step, hk] at hu
        · exact ⟨by simpa [step, hk] using hu.symm, fun heq => absurd heq hk⟩
      | act j k' =>
        simp only [step] at hu
        split_ifs at hu with hk hj
        · exact ⟨(Option.some.inj hu).symm, fun _ => (Option.some.inj hj).symm⟩
        · exact ⟨(Option.some.inj hu).symm, fun heq => absurd heq hk⟩
      | finish j k' =>
        by_cases hk : k' = k
        · exact absurd (hk ▸ List.mem_cons_self) (hf j)
        · exact ⟨by simpa [step, hk] using hu.symm, fun heq => absurd heq hk⟩
    obtain ⟨rfl, hparty⟩ := hstay
    obtain ⟨ho, hrest⟩ := ih hrun fun j hj => hf j (List.mem_cons_of_mem _ hj)
    refine ⟨ho, fun e' he' => ?_⟩
    rcases List.mem_cons.mp he' with rfl | he'
    · exact hparty
    · exact hrest e' he'

/-- **Within a turn nobody else acts**: what follows the beginning of a turn, up to its end, is the
doing of the party whose turn it is. -/
theorem Orderly.party_of_begin {before between after : List (Event ι κ)} {e : Event ι κ}
    (h : Orderly (before ++ .begin i k :: between ++ e :: after) holder) (he : e.key = k)
    (hf : ∀ j, .finish j k ∉ between) : e.party = i ∧ ∀ j, e ≠ .begin j k := by
  have hrun := h k
  rw [List.append_assoc, run_append, Option.bind_eq_some_iff] at hrun
  obtain ⟨o, -, hrun⟩ := hrun
  rw [List.cons_append, run_cons_iff] at hrun
  obtain ⟨u, hu, hrun⟩ := hrun
  obtain rfl : some i = u := by
    simp only [step, if_true] at hu
    split_ifs at hu
    exact Option.some.inj hu
  obtain ⟨v, hv, hrun⟩ := Option.bind_eq_some_iff.mp ((run_append _ _ _).symm.trans hrun)
  obtain ⟨rfl, -⟩ := run_of_no_finish hv hf
  obtain ⟨w, hw, -⟩ := run_cons_iff.mp hrun
  subst he
  cases e with
  | begin j k => simp [step, Event.key] at hw
  | act j k =>
    simp only [step, Event.key, if_true] at hw
    split_ifs at hw with hj
    exact ⟨(Option.some.inj hj).symm, nofun⟩
  | finish j k =>
    simp only [step, Event.key, if_true] at hw
    split_ifs at hw with hj
    exact ⟨(Option.some.inj hj).symm, nofun⟩

end Turns
