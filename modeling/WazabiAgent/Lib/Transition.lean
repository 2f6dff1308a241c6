import Mathlib.Data.List.Basic

/-!
# Runs of a labelled, partial step function

A system is given by one function `step : σ → ℓ → Option σ`. A label names who moves and carries
everything the environment decides in that move, so the function is deterministic and a finite
run is a list of labels; `none` says that the move is not enabled. Everything below is about the
states such a run passes through.

## Two forms of the invariant rule

`invariant_of_run` needs every step to preserve the invariant. `invariant_of_along` needs it only
of the steps that meet a condition, and takes as hypothesis that the whole run meets it. The
condition speaks of the state *before* the step and of the label, never of what the step does.

## Main definitions

* `LabelledStep.run` — the state a list of labels leads to, if all of them are enabled
* `LabelledStep.Along` — every step of the run meets a condition
* `LabelledStep.Reachable` — the states of all runs
* `LabelledStep.emitted` — what the steps of a run emit

## Main results

* `run_append`, `run_snoc_iff` — runs split at any point
* `invariant_of_run`, `invariant_of_along` — the invariant rules
* `Along.of_invariant` — what follows from an invariant holds along the run
* `forall_split_iff_along_of` — the rule as an equivalence, when only the condition keeps the
  invariant
* `along_iff_of_reachable` — two conditions that agree on reachable states agree along runs
* `along_iff_forall_split` — a condition along a run, read at each of its prefixes
* `invariant_of_emitted` — the invariant rule for a state and what was emitted on the way to it
-/

namespace LabelledStep

variable {σ ℓ : Type*} {step : σ → ℓ → Option σ}

/-- Take the labels in order, each of which has to be enabled. -/
def run (step : σ → ℓ → Option σ) : σ → List ℓ → Option σ
  | s, [] => some s
  | s, l :: ls => (step s l).bind fun t => run step t ls

@[simp] theorem run_nil (s : σ) : run step s [] = some s := rfl

theorem run_cons (s : σ) (l : ℓ) (ls : List ℓ) :
    run step s (l :: ls) = (step s l).bind fun t => run step t ls := rfl

theorem run_cons_iff {s u : σ} {l : ℓ} {ls : List ℓ} :
    run step s (l :: ls) = some u ↔ ∃ t, step s l = some t ∧ run step t ls = some u := by
  rw [run_cons, Option.bind_eq_some_iff]

/-- A run over a concatenation is two runs in sequence. -/
theorem run_append (s : σ) (ls ms : List ℓ) :
    run step s (ls ++ ms) = (run step s ls).bind fun t => run step t ms := by
  induction ls generalizing s with
  | nil => rfl
  | cons l ls ih =>
    rw [List.cons_append, run_cons, run_cons]
    cases h : step s l with
    | none => rfl
    | some t => simpa using ih t

theorem run_append_of_run {s t : σ} {ls ms : List ℓ} (h : run step s ls = some t) :
    run step s (ls ++ ms) = run step t ms := by
  rw [run_append, h, Option.bind_some]

theorem run_snoc_iff {s u : σ} {l : ℓ} {ls : List ℓ} :
    run step s (ls ++ [l]) = some u ↔ ∃ t, run step s ls = some t ∧ step t l = some u := by
  rw [run_append, Option.bind_eq_some_iff]
  simp [run_cons]

/-- Where every move is enabled, every list of labels is a run. -/
theorem exists_run (htotal : ∀ s l, (step s l).isSome) (s : σ) (ls : List ℓ) :
    ∃ t, run step s ls = some t := by
  induction ls generalizing s with
  | nil => exact ⟨s, rfl⟩
  | cons l ls ih =>
    obtain ⟨t, ht⟩ := Option.isSome_iff_exists.mp (htotal s l)
    obtain ⟨u, hu⟩ := ih t
    exact ⟨u, run_cons_iff.mpr ⟨t, ht, hu⟩⟩

/-! ### Invariants -/

/-- **The invariant rule.** What every enabled step preserves holds at the end of every run. -/
theorem invariant_of_run {I : σ → Prop} (hstep : ∀ s l t, I s → step s l = some t → I t)
    {s t : σ} {ls : List ℓ} (hs : I s) (hr : run step s ls = some t) : I t := by
  induction ls generalizing s with
  | nil =>
    obtain rfl : s = t := by simpa using hr
    exact hs
  | cons l ls ih =>
    obtain ⟨u, hu, hr⟩ := run_cons_iff.mp hr
    exact ih (hstep s l u hs hu) hr

/-- Every step of the run meets `P`, read at the state the step is taken from. -/
def Along (step : σ → ℓ → Option σ) (P : σ → ℓ → Prop) : σ → List ℓ → Prop
  | _, [] => True
  | s, l :: ls => P s l ∧ ∀ t, step s l = some t → Along step P t ls

@[simp] theorem along_nil (P : σ → ℓ → Prop) (s : σ) : Along step P s [] := trivial

theorem along_cons {P : σ → ℓ → Prop} {s t : σ} {l : ℓ} {ls : List ℓ} (h : step s l = some t) :
    Along step P s (l :: ls) ↔ P s l ∧ Along step P t ls := by
  refine and_congr_right fun _ => ⟨fun ha => ha t h, fun ha u hu => ?_⟩
  obtain rfl : t = u := Option.some.inj (h.symm.trans hu)
  exact ha

/-- Along a concrete run a decidable condition can be evaluated. -/
instance decidableAlong {P : σ → ℓ → Prop} [∀ s l, Decidable (P s l)] :
    ∀ (s : σ) (ls : List ℓ), Decidable (Along step P s ls)
  | _, [] => isTrue trivial
  | s, l :: ls =>
    match h : step s l with
    | none => decidable_of_iff (P s l) (by simp [Along, h])
    | some t =>
      have := decidableAlong (P := P) t ls
      decidable_of_iff (P s l ∧ Along step P t ls) (along_cons h).symm

theorem Along.mono {P Q : σ → ℓ → Prop} (hPQ : ∀ s l, P s l → Q s l) :
    ∀ {ls : List ℓ} {s : σ}, Along step P s ls → Along step Q s ls
  | [], _, _ => trivial
  | _ :: _, s, h => ⟨hPQ s _ h.1, fun t ht => (h.2 t ht).mono hPQ⟩

theorem Along.and {P Q : σ → ℓ → Prop} :
    ∀ {ls : List ℓ} {s : σ}, Along step P s ls → Along step Q s ls →
      Along step (fun s l => P s l ∧ Q s l) s ls
  | [], _, _, _ => trivial
  | _ :: _, _, hP, hQ => ⟨⟨hP.1, hQ.1⟩, fun t ht => (hP.2 t ht).and (hQ.2 t ht)⟩

theorem along_of_forall {P : σ → ℓ → Prop} (h : ∀ s l, P s l) :
    ∀ (s : σ) (ls : List ℓ), Along step P s ls
  | _, [] => trivial
  | s, l :: ls => ⟨h s l, fun t _ => along_of_forall h t ls⟩

theorem along_of_forall_mem {P : ℓ → Prop} {ls : List ℓ} (h : ∀ l ∈ ls, P l) (s : σ) :
    Along step (fun _ l => P l) s ls := by
  induction ls generalizing s with
  | nil => trivial
  | cons l ls ih =>
    exact ⟨h l List.mem_cons_self, fun t _ => ih (fun l' hl => h l' (List.mem_cons_of_mem _ hl)) t⟩

/-- **The conditional invariant rule.** A step has to preserve the invariant only where it meets
`P`, and every step of the run does. -/
theorem invariant_of_along {I : σ → Prop} {P : σ → ℓ → Prop}
    (hstep : ∀ s l t, I s → P s l → step s l = some t → I t)
    {s t : σ} {ls : List ℓ} (hs : I s) (ha : Along step P s ls) (hr : run step s ls = some t) :
    I t := by
  induction ls generalizing s with
  | nil =>
    obtain rfl : s = t := by simpa using hr
    exact hs
  | cons l ls ih =>
    obtain ⟨u, hu, hr⟩ := run_cons_iff.mp hr
    exact ih (hstep s l u hs ha.1 hu) (ha.2 u hu) hr

/-- A condition that follows from an invariant holds along the run. -/
theorem Along.of_invariant {I : σ → Prop} {P Q : σ → ℓ → Prop}
    (hstep : ∀ s l t, I s → P s l → step s l = some t → I t) (hQ : ∀ s l, I s → P s l → Q s l) :
    ∀ {ls : List ℓ} {s : σ}, I s → Along step P s ls → Along step Q s ls
  | [], _, _, _ => trivial
  | l :: _, s, hs, ha => ⟨hQ s l hs ha.1, fun t ht =>
      (ha.2 t ht).of_invariant hstep hQ (hstep s l t hs ha.1 ht)⟩

/-! ### Reachable states -/

/-- `t` is the end of some run from `s`. -/
def Reachable (step : σ → ℓ → Option σ) (s t : σ) : Prop := ∃ ls, run step s ls = some t

theorem Reachable.refl (s : σ) : Reachable step s s := ⟨[], rfl⟩

theorem Reachable.tail {s t u : σ} {l : ℓ} (h : Reachable step s t) (hl : step t l = some u) :
    Reachable step s u := by
  obtain ⟨ls, hls⟩ := h
  exact ⟨ls ++ [l], run_snoc_iff.mpr ⟨t, hls, hl⟩⟩

theorem Reachable.trans {s t u : σ} (h₁ : Reachable step s t) (h₂ : Reachable step t u) :
    Reachable step s u := by
  obtain ⟨ls, hls⟩ := h₁
  obtain ⟨ms, hms⟩ := h₂
  exact ⟨ls ++ ms, by rw [run_append_of_run hls, hms]⟩

theorem Reachable.invariant {I : σ → Prop} (hstep : ∀ s l t, I s → step s l = some t → I t)
    {s t : σ} (hs : I s) (h : Reachable step s t) : I t := by
  obtain ⟨ls, hls⟩ := h
  exact invariant_of_run hstep hs hls

/-- A condition along an enabled run is the condition at each step of it: wherever a prefix of
the run ends and the next label is taken. -/
theorem along_iff_forall_split {P : σ → ℓ → Prop} {s u : σ} {ls : List ℓ}
    (hr : run step s ls = some u) :
    Along step P s ls ↔
      ∀ ms l rest t, ls = ms ++ l :: rest → run step s ms = some t → P t l := by
  induction ls generalizing s with
  | nil => simp
  | cons l ls ih =>
    obtain ⟨t, ht, hr⟩ := run_cons_iff.mp hr
    rw [along_cons ht, ih hr]
    constructor
    · rintro ⟨hl, hrest⟩ ms m rest v hsplit hv
      cases ms with
      | nil =>
        obtain ⟨rfl, -⟩ : l = m ∧ ls = rest := by simpa using hsplit
        obtain rfl : s = v := by simpa using hv
        exact hl
      | cons m' ms =>
        obtain ⟨rfl, hls⟩ : l = m' ∧ ls = ms ++ m :: rest := by simpa using hsplit
        rw [run_cons, ht, Option.bind_some] at hv
        exact hrest ms m rest v hls hv
    · refine fun h => ⟨h [] l ls s rfl rfl, fun ms m rest v hls hv => ?_⟩
      exact h (l :: ms) m rest v (by rw [hls, List.cons_append]) (by rw [run_cons, ht]; exact hv)

/-- What holds at every point of a run holds at its start and at every point of the rest. -/
theorem forall_split_cons {I : σ → Prop} {s t : σ} {l : ℓ} {ls : List ℓ} (h : step s l = some t) :
    (∀ ms rest u, l :: ls = ms ++ rest → run step s ms = some u → I u) ↔
      I s ∧ ∀ ms rest u, ls = ms ++ rest → run step t ms = some u → I u := by
  constructor
  · intro hI
    refine ⟨hI [] (l :: ls) s rfl rfl, fun ms rest u hsplit hu => ?_⟩
    refine hI (l :: ms) rest u (by rw [hsplit, List.cons_append]) ?_
    rw [run_cons, h]
    exact hu
  · rintro ⟨hs, hrest⟩ ms rest u hsplit hu
    cases ms with
    | nil =>
      obtain rfl : s = u := by simpa using hu
      exact hs
    | cons m ms =>
      obtain ⟨rfl, hls⟩ : l = m ∧ ls = ms ++ rest := by simpa using hsplit
      rw [run_cons, h, Option.bind_some] at hu
      exact hrest ms rest u hls hu

/-- **The invariant rule as an equivalence.** In a run whose steps meet `A`, which keeps `K`: a
step keeps `I` if it meets `P`, and only then. Then `I` holds at every point of the run exactly
when each step of it meets `P`. -/
theorem forall_split_iff_along_of {I K : σ → Prop} {A P : σ → ℓ → Prop} {s u : σ} {ls : List ℓ}
    (hs : I s) (hK : K s) (hA : Along step A s ls)
    (hkept : ∀ t l v, K t → A t l → step t l = some v → K v)
    (hkeep : ∀ t l v, K t → A t l → I t → P t l → step t l = some v → I v)
    (honly : ∀ t l v, K t → A t l → I t → step t l = some v → I v → P t l)
    (hr : run step s ls = some u) :
    (∀ ms rest t, ls = ms ++ rest → run step s ms = some t → I t) ↔ Along step P s ls := by
  induction ls generalizing s with
  | nil =>
    refine iff_of_true (fun ms rest t hsplit ht => ?_) trivial
    obtain ⟨rfl, -⟩ : ms = [] ∧ rest = [] := by simpa using hsplit
    obtain rfl : s = t := by simpa using ht
    exact hs
  | cons l ls ih =>
    obtain ⟨t, ht, hr⟩ := run_cons_iff.mp hr
    obtain ⟨hl, hA⟩ := (along_cons ht).mp hA
    have hK' := hkept s l t hK hl ht
    rw [forall_split_cons ht, along_cons ht]
    constructor
    · rintro ⟨-, hrest⟩
      have ht' : I t := hrest [] ls t rfl rfl
      exact ⟨honly s l t hK hl hs ht ht', (ih ht' hK' hA hr).mp hrest⟩
    · rintro ⟨hP, hrest⟩
      have ht' : I t := hkeep s l t hK hl hs hP ht
      exact ⟨hs, (ih ht' hK' hA hr).mpr hrest⟩

/-- The same without a condition on the run. -/
theorem forall_split_iff_along {I : σ → Prop} {P : σ → ℓ → Prop} {s u : σ} {ls : List ℓ}
    (hs : I s)
    (hkeep : ∀ t l v, Reachable step s t → I t → P t l → step t l = some v → I v)
    (honly : ∀ t l v, Reachable step s t → I t → step t l = some v → I v → P t l)
    (hr : run step s ls = some u) :
    (∀ ms rest t, ls = ms ++ rest → run step s ms = some t → I t) ↔ Along step P s ls :=
  forall_split_iff_along_of hs (.refl s) (along_of_forall (fun _ _ => trivial) s ls)
    (fun _ _ _ hK _ hst => hK.tail hst)
    (fun t l v hK _ hI hP hst => hkeep t l v hK hI hP hst)
    (fun t l v hK _ hI hst hv => honly t l v hK hI hst hv) hr

/-- Two conditions that agree at the reachable states agree along every run. -/
theorem along_iff_of_reachable {P Q : σ → ℓ → Prop} {s : σ}
    (h : ∀ t, Reachable step s t → ∀ l, P t l ↔ Q t l) (ls : List ℓ) :
    Along step P s ls ↔ Along step Q s ls := by
  induction ls generalizing s with
  | nil => simp
  | cons l ls ih =>
    refine and_congr (h s (.refl s) l) (forall_congr' fun t => forall_congr' fun ht => ih ?_)
    exact fun u hu => h u ((Reachable.refl s).tail ht |>.trans hu)

/-! ### What a run emits -/

section

variable {ρ : Type*} {emit : σ → ℓ → List ρ}

/-- What the steps of a run emit, in order. -/
def emitted (step : σ → ℓ → Option σ) (emit : σ → ℓ → List ρ) : σ → List ℓ → List ρ
  | _, [] => []
  | s, l :: ls => emit s l ++ (step s l).elim [] fun t => emitted step emit t ls

theorem emitted_cons {s t : σ} {l : ℓ} {ls : List ℓ} (h : step s l = some t) :
    emitted step emit s (l :: ls) = emit s l ++ emitted step emit t ls := by
  rw [emitted, h]
  rfl

/-- **The invariant rule with a history.** The invariant relates the state to what was emitted
before it. -/
theorem invariant_of_emitted {I : σ → List ρ → Prop} {P : σ → ℓ → Prop}
    (hstep : ∀ s es l t, I s es → P s l → step s l = some t → I t (es ++ emit s l))
    {s t : σ} {es : List ρ} {ls : List ℓ} (hs : I s es) (ha : Along step P s ls)
    (hr : run step s ls = some t) : I t (es ++ emitted step emit s ls) := by
  induction ls generalizing s es with
  | nil =>
    obtain rfl : s = t := by simpa using hr
    simpa [emitted] using hs
  | cons l ls ih =>
    obtain ⟨u, hu, hr⟩ := run_cons_iff.mp hr
    rw [emitted_cons hu, ← List.append_assoc]
    exact ih (hstep s es l u hs ha.1 hu) (ha.2 u hu) hr

end

end LabelledStep
