import Mathlib.Data.List.Basic
import Mathlib.Logic.Function.Basic

/-!
# A process that writes to pipes, and a parent that waits for its end

A process works for some time, writes, works on, and ends. A pipe takes a finite number of items,
and a write to a pipe that is full waits until there is room. Time is what the process spends
working: while it waits for room that nobody makes, it gets no further.

The parent polls. It asks whether the process has ended, looks at the clock if it has not, and
sleeps. Between any two of these some time may pass that is not the parent's to decide.

## Main definitions

* `PipedProcess.State.run` — the process, left alone for some time
* `Watchdog.wait` — the loop that polls until the process has ended or the time is over
* `Watchdog.SeesEnd` — no turn of the loop finds the time over before the end is seen

## Main results

* `ended_run_iff` — with nobody reading, a process ends if the pipes hold all that it writes
* `exited_iff` — the loop sees the end of such a process, and of no other
-/

/-- What a process does next. -/
inductive PipedProcess.Act (σ β : Type)
  | work (time : ℕ)
  | write (pipe : σ) (item : β)

namespace PipedProcess

variable {σ β : Type} [DecidableEq σ]

/-- What the process has still to do, and what is in its pipes. -/
structure State (σ β : Type) where
  todo : List (Act σ β)
  pipes : σ → List β

/-- The pipes are empty. -/
def start (acts : List (Act σ β)) : State σ β := ⟨acts, fun _ => []⟩

/-- The process has nothing left to do. -/
def State.ended (s : State σ β) : Bool := s.todo.isEmpty

/-- All that is written to a pipe. -/
def output (i : σ) : List (Act σ β) → List β
  | [] => []
  | .work _ :: acts => output i acts
  | .write j b :: acts => if j = i then b :: output i acts else output i acts

/-- The time that the process works. -/
def duration : List (Act σ β) → ℕ
  | [] => 0
  | .work time :: acts => time + duration acts
  | .write _ _ :: acts => duration acts

/-- Whether a pipe that holds `n` items takes another. One that a reader keeps empty has no
capacity to speak of. -/
def hasRoom (capacity : Option ℕ) (n : ℕ) : Bool := capacity.all (n < ·)

/-- Runs the process for a time, or until a pipe is full. -/
def runFor (capacity : Option ℕ) : ℕ → List (Act σ β) → (σ → List β) → State σ β
  | _, [], pipes => ⟨[], pipes⟩
  | t, .work time :: todo, pipes =>
    if time ≤ t then runFor capacity (t - time) todo pipes
    else ⟨.work (time - t) :: todo, pipes⟩
  | t, .write i b :: todo, pipes =>
    if hasRoom capacity (pipes i).length then
      runFor capacity t todo (Function.update pipes i (pipes i ++ [b]))
    else ⟨.write i b :: todo, pipes⟩

/-- The process after some time in which nobody takes anything out of the pipes. -/
def State.run (capacity : Option ℕ) (t : ℕ) (s : State σ β) : State σ β :=
  runFor capacity t s.todo s.pipes

/-! ### Left alone -/

theorem runFor_add (capacity : Option ℕ) (a b : ℕ) (todo : List (Act σ β)) (pipes : σ → List β) :
    runFor capacity (a + b) todo pipes = (runFor capacity a todo pipes).run capacity b := by
  induction todo generalizing a pipes with
  | nil => rfl
  | cons act todo ih =>
    cases act with
    | work time =>
      simp only [runFor]
      by_cases ha : time ≤ a
      · rw [if_pos ha, if_pos (by omega), ← ih, Nat.sub_add_comm ha]
      · rw [if_neg ha, State.run, runFor]
        by_cases hb : time ≤ a + b
        · rw [if_pos hb, if_pos (by omega), show b - (time - a) = a + b - time by omega]
        · rw [if_neg hb, if_neg (by omega), show time - a - b = time - (a + b) by omega]
    | write i b' =>
      simp only [runFor]
      split_ifs with hroom
      · exact ih a _
      · rw [State.run, runFor, if_neg hroom]

theorem run_add (capacity : Option ℕ) (a b : ℕ) (s : State σ β) :
    s.run capacity (a + b) = (s.run capacity a).run capacity b :=
  runFor_add capacity a b s.todo s.pipes

/-- If its output is read, a process ends when its work is done. -/
theorem ended_runFor_read (t : ℕ) (todo : List (Act σ β)) (pipes : σ → List β) :
    (runFor none t todo pipes).ended = true ↔ duration todo ≤ t := by
  induction todo generalizing t pipes with
  | nil => simp [runFor, duration, State.ended]
  | cons act todo ih =>
    cases act with
    | work time =>
      simp only [runFor, duration]
      split_ifs with ht
      · rw [ih]
        omega
      · exact iff_of_false (by simp [State.ended]) (by omega)
    | write i b =>
      simp only [runFor, duration]
      rw [if_pos (by rfl), ih]

theorem ended_runFor_iff {capacity t : ℕ} {todo : List (Act σ β)} {pipes : σ → List β}
    (hpipes : ∀ i, (pipes i).length ≤ capacity) :
    (runFor (some capacity) t todo pipes).ended = true ↔
      duration todo ≤ t ∧ ∀ i, (pipes i).length + (output i todo).length ≤ capacity := by
  induction todo generalizing t pipes with
  | nil => simpa [runFor, duration, output, State.ended] using hpipes
  | cons act todo ih =>
    cases act with
    | work time =>
      simp only [runFor, duration, output]
      split_ifs with ht
      · rw [ih hpipes]
        exact and_congr_left fun _ => by omega
      · exact iff_of_false (by simp [State.ended]) (by omega)
    | write j b =>
      simp only [runFor, duration]
      split_ifs with hroom
      · have hlt : (pipes j).length < capacity := by simpa [hasRoom] using hroom
        rw [ih]
        · refine and_congr_right fun _ => forall_congr' fun i => ?_
          by_cases hi : i = j
          · subst hi
            simp only [Function.update_self, output, List.length_append, List.length_cons]
            simp only [List.length_nil, if_true, List.length_cons]
            omega
          · rw [Function.update_of_ne hi, output, if_neg (Ne.symm hi)]
        · intro i
          by_cases hi : i = j
          · subst hi
            rw [Function.update_self, List.length_append]
            exact hlt
          · rw [Function.update_of_ne hi]
            exact hpipes i
      · refine iff_of_false (by simp [State.ended]) fun h => hroom ?_
        have hj := h.2 j
        simp only [output, if_true, List.length_cons] at hj
        simpa [hasRoom] using (by omega : (pipes j).length < capacity)

theorem pipes_runFor_of_ended {capacity : Option ℕ} {t : ℕ} {todo : List (Act σ β)}
    {pipes : σ → List β} (h : (runFor capacity t todo pipes).ended = true) (i : σ) :
    (runFor capacity t todo pipes).pipes i = pipes i ++ output i todo := by
  induction todo generalizing t pipes with
  | nil => simp [runFor, output]
  | cons act todo ih =>
    cases act with
    | work time =>
      simp only [runFor, output] at h ⊢
      split_ifs at h ⊢
      · exact ih h
      · simp [State.ended] at h
    | write j b =>
      simp only [runFor] at h ⊢
      split_ifs at h ⊢
      · rw [ih h]
        by_cases hi : j = i
        · subst hi
          simp [output]
        · rw [Function.update_of_ne (Ne.symm hi), output, if_neg hi]
      · simp [State.ended] at h

variable {acts : List (Act σ β)} {capacity t : ℕ}

/-- **With nobody reading**, a process ends if there is room for all that it writes. -/
theorem ended_run_iff :
    ((start acts).run (some capacity) t).ended = true ↔
      duration acts ≤ t ∧ ∀ i, (output i acts).length ≤ capacity := by
  rw [State.run, start, ended_runFor_iff (by simp)]
  simp

/-- What it leaves in the pipes. -/
theorem pipes_of_ended (h : ((start acts).run (some capacity) t).ended = true) (i : σ) :
    ((start acts).run (some capacity) t).pipes i = output i acts := by
  rw [State.run, pipes_runFor_of_ended h]
  exact List.nil_append _

end PipedProcess

/-! ### The parent -/

/-- A loop that polls for an end, with a pause between the turns. -/
structure Watchdog where
  timeout : ℕ
  pause : ℕ
  pause_pos : 0 < pause

namespace Watchdog

open PipedProcess

variable {σ β : Type} [DecidableEq σ]

/-- What the parent does not decide about a turn: the time that passes before it asks, from there to
the look at the clock, before a kill, and in the sleep beyond the pause; and whether asking
fails. -/
structure Poll where
  ask : ℕ := 0
  check : ℕ := 0
  kill : ℕ := 0
  oversleep : ℕ := 0
  error : Option String := none

/-- How the loop ends, at which time, and the process at that time. -/
inductive WaitEnd (σ β : Type)
  | exited (now : ℕ) (s : State σ β)
  | timedOut (now : ℕ) (s : State σ β)
  | failed (error : String)

/-- The loop, from its `n`-th turn. -/
def wait (w : Watchdog) (capacity : Option ℕ) (polls : ℕ → Poll) (n now : ℕ) (s : State σ β) :
    WaitEnd σ β :=
  match (polls n).error with
  | some e => .failed e
  | none =>
    if (s.run capacity (polls n).ask).ended then
      .exited (now + (polls n).ask) (s.run capacity (polls n).ask)
    else if w.timeout ≤ now + (polls n).ask + (polls n).check then
      .timedOut (now + (polls n).ask + (polls n).check + (polls n).kill)
        (s.run capacity ((polls n).ask + (polls n).check + (polls n).kill))
    else
      wait w capacity polls (n + 1)
        (now + ((polls n).ask + (polls n).check + (w.pause + (polls n).oversleep)))
        (s.run capacity ((polls n).ask + (polls n).check + (w.pause + (polls n).oversleep)))
termination_by w.timeout - now
decreasing_by
  have := w.pause_pos
  omega

variable (w : Watchdog) (polls : ℕ → Poll)

/-- When a turn begins. -/
def clock : ℕ → ℕ
  | 0 => 0
  | n + 1 => clock n + ((polls n).ask + (polls n).check + (w.pause + (polls n).oversleep))

/-- When a turn asks. -/
def asked (n : ℕ) : ℕ := w.clock polls n + (polls n).ask

/-- When a turn looks at the clock. -/
def checked (n : ℕ) : ℕ := w.asked polls n + (polls n).check

/-- Of the turns up to the first that asks after `d`, none fails, and none that asks before `d`
finds the time over. -/
def SeesEnd (d : ℕ) : Prop :=
  ∀ n, (∀ m < n, w.asked polls m < d) →
    (polls n).error = none ∧ (w.asked polls n < d → w.checked polls n < w.timeout)

variable {w polls} {acts : List (Act σ β)} {capacity : ℕ}

/-- The process as it is at the beginning of a turn. -/
def AtTurn (w : Watchdog) (polls : ℕ → Poll) (capacity : ℕ) (acts : List (Act σ β)) (n : ℕ)
    (s : State σ β) : Prop :=
  ∀ t, s.run (some capacity) t = (start acts).run (some capacity) (w.clock polls n + t)

theorem atTurn_zero : AtTurn w polls capacity acts 0 (start acts) := by
  intro t
  rw [clock, Nat.zero_add]

theorem atTurn_run (n : ℕ) :
    AtTurn w polls capacity acts n ((start acts).run (some capacity) (w.clock polls n)) := by
  intro t
  rw [run_add]

/-- How the loop goes on from there. -/
theorem wait_atTurn {n : ℕ} {s : State σ β} (hs : AtTurn w polls capacity acts n s) :
    w.wait (some capacity) polls n (w.clock polls n) s =
      match (polls n).error with
      | some e => .failed e
      | none =>
        if ((start acts).run (some capacity) (w.asked polls n)).ended then
          .exited (w.asked polls n) ((start acts).run (some capacity) (w.asked polls n))
        else if w.timeout ≤ w.checked polls n then
          .timedOut (w.checked polls n + (polls n).kill)
            ((start acts).run (some capacity) (w.checked polls n + (polls n).kill))
        else
          w.wait (some capacity) polls (n + 1) (w.clock polls (n + 1))
            ((start acts).run (some capacity) (w.clock polls (n + 1))) := by
  rw [wait]
  simp only [hs _, asked, checked, clock, Nat.add_assoc]

theorem clock_lt_of_checked {n : ℕ} (h : ¬w.timeout ≤ w.checked polls n) :
    w.timeout - w.clock polls (n + 1) < w.timeout - w.clock polls n := by
  have hpause := w.pause_pos
  rw [checked, asked] at h
  rw [clock]
  omega

/-- An end that is seen is one, and no turn before it went wrong. -/
theorem sound_of_exited {n now : ℕ} {s₀ s : State σ β} (hs₀ : AtTurn w polls capacity acts n s₀)
    (h : w.wait (some capacity) polls n (w.clock polls n) s₀ = .exited now s) :
    s = (start acts).run (some capacity) now ∧ s.ended = true ∧
      ∀ k, n ≤ k → (∀ m, n ≤ m → m < k → w.asked polls m < duration acts) →
        (polls k).error = none ∧
          (w.asked polls k < duration acts → w.checked polls k < w.timeout) := by
  induction hleft : w.timeout - w.clock polls n using Nat.strongRecOn generalizing n s₀ with
  | _ left ih =>
    rw [wait_atTurn hs₀] at h
    cases herror : (polls n).error with
    | some e =>
      rw [herror] at h
      cases h
    | none =>
      rw [herror] at h
      dsimp only at h
      split_ifs at h with hended hover
      · obtain ⟨rfl, rfl⟩ := WaitEnd.exited.inj h
        refine ⟨rfl, hended, fun k hk hbefore => ?_⟩
        have hdone : duration acts ≤ w.asked polls n := (ended_run_iff.mp hended).1
        rcases Nat.eq_or_lt_of_le hk with rfl | hlt
        · exact ⟨herror, fun hasked => by omega⟩
        · have hasked := hbefore n (Nat.le_refl n) hlt
          omega
      · obtain ⟨hs, hsended, hturns⟩ :=
          ih _ (hleft ▸ clock_lt_of_checked hover) (atTurn_run _) h rfl
        refine ⟨hs, hsended, fun k hk hbefore => ?_⟩
        rcases Nat.eq_or_lt_of_le hk with rfl | hlt
        · exact ⟨herror, fun _ => by omega⟩
        · exact hturns k hlt fun m hm => hbefore m (by omega)

theorem exited_of_seesEnd (hfits : ∀ i, (output i acts).length ≤ capacity)
    (hsees : w.SeesEnd polls (duration acts)) {n : ℕ}
    (hbefore : ∀ m < n, w.asked polls m < duration acts) {s₀ : State σ β}
    (hs₀ : AtTurn w polls capacity acts n s₀) :
    ∃ now s, w.wait (some capacity) polls n (w.clock polls n) s₀ = .exited now s := by
  induction hleft : w.timeout - w.clock polls n using Nat.strongRecOn generalizing n s₀ with
  | _ left ih =>
    obtain ⟨herror, hclock⟩ := hsees n hbefore
    rw [wait_atTurn hs₀, herror]
    dsimp only
    split_ifs with hended hover
    · exact ⟨_, _, rfl⟩
    · have hasked : w.asked polls n < duration acts := by
        by_contra hdone
        exact hended (ended_run_iff.mpr ⟨by omega, hfits⟩)
      have hchecked := hclock hasked
      omega
    · refine ih _ (hleft ▸ clock_lt_of_checked hover) (fun m hm => ?_) (atTurn_run _) rfl
      rcases Nat.lt_succ_iff_lt_or_eq.mp hm with hlt | rfl
      · exact hbefore m hlt
      · by_contra hdone
        exact hended (ended_run_iff.mpr ⟨by omega, hfits⟩)

/-- **What the loop sees.** The end of a process is seen if the pipes hold all of its output and no
turn finds the time over before, and otherwise it is not. -/
theorem exited_iff :
    (∃ now s, w.wait (some capacity) polls 0 0 (start acts) = .exited now s) ↔
      (∀ i, (output i acts).length ≤ capacity) ∧ w.SeesEnd polls (duration acts) := by
  constructor
  · rintro ⟨now, s, h⟩
    obtain ⟨rfl, hended, hturns⟩ := sound_of_exited atTurn_zero h
    exact ⟨(ended_run_iff.mp hended).2, fun n hn => hturns n (by omega) fun m _ hm => hn m hm⟩
  · rintro ⟨hfits, hsees⟩
    exact exited_of_seesEnd hfits hsees (fun m hm => absurd hm (Nat.not_lt_zero m)) atTurn_zero

/-- A parent that looks at the clock as soon as it has asked misses no end within the timeout. -/
theorem seesEnd_of_check_eq_zero {d : ℕ} (herror : ∀ n, (polls n).error = none)
    (hcheck : ∀ n, (polls n).check = 0) (hd : d ≤ w.timeout) : w.SeesEnd polls d := by
  intro n _
  refine ⟨herror n, fun hasked => ?_⟩
  rw [checked, hcheck]
  omega

/-- The loop ends in one of two ways if asking does not fail. -/
theorem exited_or_timedOut (herror : ∀ n, (polls n).error = none) (capacity : Option ℕ)
    (n now : ℕ) (s : State σ β) :
    (∃ now' s', w.wait capacity polls n now s = .exited now' s') ∨
      ∃ now' s', w.wait capacity polls n now s = .timedOut now' s' := by
  induction hleft : w.timeout - now using Nat.strongRecOn generalizing n now s with
  | _ left ih =>
    rw [wait, herror]
    dsimp only
    split_ifs with hended hover
    · exact .inl ⟨_, _, rfl⟩
    · exact .inr ⟨_, _, rfl⟩
    · have hpause := w.pause_pos
      exact ih _ (by omega) _ _ _ rfl

/-- A process that writes more than the pipes hold is killed. -/
theorem timedOut_of_overflow (herror : ∀ n, (polls n).error = none) {i : σ}
    (hi : capacity < (output i acts).length) :
    ∃ now s, w.wait (some capacity) polls 0 0 (start acts) = .timedOut now s := by
  rcases @exited_or_timedOut _ _ _ w _ herror (some capacity) 0 0 (start acts) with
    hexited | hkilled
  · have hfits := (exited_iff.mp hexited).1 i
    omega
  · exact hkilled

/-- What is left in the pipes when the end is seen. -/
theorem pipes_of_exited {now : ℕ} {s : State σ β}
    (h : w.wait (some capacity) polls 0 0 (start acts) = .exited now s) (i : σ) :
    s.pipes i = output i acts := by
  obtain ⟨rfl, hended, -⟩ := sound_of_exited atTurn_zero h
  exact pipes_of_ended hended i

end Watchdog
