import WazabiAgent.Lib.Ownership

/-!
# Programs whose operations are relations

What an operation does is a relation here: between the world before it, its answer, and the world
after it. There may be many answers, or none, as for an operation that never returns. `Ensures` is
the precondition calculus for such operations, which also says of every operation that the program
comes to that it meets `G`.

## Main definitions

* `Runs` — the runs of a program, finished or not
* `Ensures` — the precondition of a program
* `Settles` — what it is for

## Main results

* `ensures_bind`, `ensures_untilSome` — sequences, and loops with a measure that outlasts the bound
* `Ensures.settles` — what `Ensures` promises holds of every run, and every run can be finished
-/

namespace Prog

variable {F : Type → Type} {W α β : Type}

/-- `E o w b w'`: in the world `w`, the operation may answer `b` and leave `w'`. -/
abbrev Effect (F : Type → Type) (W : Type) := {β : Type} → F β → W → β → W → Prop

/-- The program can come from the one to the other. -/
inductive Runs (E : Effect F W) : Prog F α → W → Prog F α → W → Prop
  | refl (p : Prog F α) (w : W) : Runs @E p w p w
  | step {β : Type} {o : F β} {k : β → Prog F α} {w w' v : W} {b : β} {q : Prog F α}
      (h : E o w b w') (hr : Runs @E (k b) w' q v) : Runs @E (.op o k) w q v

/-- Every operation that the program comes to meets `G`, and its end meets `Q`. -/
def Ensures (E : Effect F W) (G : {β : Type} → F β → Prop) :
    Prog F α → (α → W → Prop) → W → Prop
  | .pure a, Q, w => Q a w
  | .op o k, Q, w => G o ∧ ∀ b w', E o w b w' → Ensures E G (k b) Q w'

variable {E : Effect F W} {G : {β : Type} → F β → Prop} {Q Q' : α → W → Prop} {p q : Prog F α}
  {w v : W}

theorem ensures_mono (h : Ensures E G p Q w) (hQ : ∀ a v, Q a v → Q' a v) :
    Ensures E G p Q' w := by
  induction p generalizing w with
  | pure a => exact hQ a w h
  | op o k ih => exact ⟨h.1, fun b w' hb => ih b (h.2 b w' hb)⟩

theorem ensures_bind {f : α → Prog F β} {Q : β → W → Prop} :
    Ensures E G (p >>= f) Q w ↔ Ensures E G p (fun a v => Ensures E G (f a) Q v) w := by
  induction p generalizing w with
  | pure a => exact Iff.rfl
  | op o k ih => exact and_congr_right fun _ => forall₃_congr fun b w' _ => ih b

theorem ensures_call {o : F β} {f : β → Prog F α} (hG : G o)
    (hf : ∀ b w', E o w b w' → Ensures E G (f b) Q w') : Ensures E G (call o >>= f) Q w :=
  ⟨hG, hf⟩

/-- **The rule for loops.** `I` is the invariant at the head of each turn. A turn without a result
brings the measure down, so that the bound is not reached. -/
theorem ensures_untilSome {stuck : F Empty} {body : Prog F (Option α)} {I : W → Prop}
    {μ : W → ℕ} {n : ℕ} (hI : I w) (hn : μ w < n)
    (hbody : ∀ u, I u →
      Ensures E G body (fun r v => r.elim (I v ∧ μ v < μ u) fun a => Q a v) u) :
    Ensures E G (untilSome stuck body n) Q w := by
  induction n generalizing w with
  | zero => exact absurd hn (Nat.not_lt_zero _)
  | succ n ih =>
    refine ensures_bind.mpr (ensures_mono (hbody w hI) fun r v hr => ?_)
    cases r with
    | none => exact ih hr.1 (Nat.lt_of_lt_of_le hr.2 (Nat.le_of_lt_succ hn))
    | some a => exact hr

theorem Ensures.of_runs (h : Ensures E G p Q w) (hr : Runs E p w q v) : Ensures E G q Q v := by
  induction hr with
  | refl p w => exact h
  | step hE _ ih => exact ih (h.2 _ _ hE)

/-- Where every operation that meets `G` may return, every run may come to its end. -/
theorem Ensures.exists_run (hE : ∀ {β : Type} (o : F β) (w : W), G o → ∃ b w', E o w b w')
    (h : Ensures E G p Q w) : ∃ a v, Runs E p w (.pure a) v := by
  induction p generalizing w with
  | pure a => exact ⟨a, w, .refl _ w⟩
  | op o k ih =>
    obtain ⟨b, w', hb⟩ := hE o w h.1
    obtain ⟨a, v, hr⟩ := ih b (h.2 b w' hb)
    exact ⟨a, v, .step hb hr⟩

/-- Every run of the program may come to its end, and where it has, the result meets `Q`. -/
def Settles (E : Effect F W) (p : Prog F α) (Q : α → W → Prop) (w : W) : Prop :=
  ∀ q v, Runs E p w q v → (∃ a u, Runs E q v (.pure a) u) ∧ ∀ a, q = .pure a → Q a v

theorem Ensures.settles (hE : ∀ {β : Type} (o : F β) (w : W), G o → ∃ b w', E o w b w')
    (h : Ensures E G p Q w) : Settles E p Q w := by
  intro q v hr
  refine ⟨(h.of_runs hr).exists_run hE, ?_⟩
  rintro a rfl
  exact h.of_runs hr

end Prog
