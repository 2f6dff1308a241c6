import Mathlib.Logic.Relation
import Mathlib.Order.Defs.Unbundled

/-!
# Programs over fallible operations

A sequential program that talks to its environment: `Prog F α` is a tree of operations from a
family `F`, where `F β` are the operations that answer with a `β`. What an operation does is not
part of the tree. A *handler* `eff` gives it: from the world and one choice of the environment
(did it succeed, what did a failure leave behind, what did the other side answer) it computes the
answer and the next world.

## Interruption

`exec` consumes one choice per operation. When the choices run out before the program ends, the
program was cut there, and `exec` returns the world of that moment. Quantifying over lists of
choices is therefore quantifying over every environment and every crash point at once, and the
intermediate worlds of a run are the end worlds of its prefixes.

`complete` is the other reading: one choice that answers every operation. It serves programs
that perform each operation at most once, where a choice is a table of answers.

`next` performs a single operation. It is what a system does that interleaves the program with
other parties.

## The precondition calculus

`wp A R J p Q w` says: started in `w`, whatever the environment chooses within `A` and whatever
the other parties do within `R` between two operations, the world meets `J` before each operation
and `Q` of the result at the end. It is a structural recursion on the program, so on a concrete
program it unfolds, and `wp_bind` and `wp_mono` let a procedure be used through one lemma about
it. A program that is alone has `R := Eq`.

## Guards

`wpAt` is the same calculus with an assertion `G` before each operation that may speak of the
operation: what is known when the program comes to it. `Chain` says which operation comes right
after which, whatever the world.

## Main results

* `wp_op_of_stable` — the rule for one operation: an assertion that the others cannot disturb
* `wp_bind`, `wp_mono` — composition and weakening
* `wp_sound` — what `wp` promises holds of every `exec`
* `wp_next`, `wp_rely` — and it is kept by single steps, of the program and of the others
* `wpAt_op_of_stable`, `wpAt_bind`, `wpAt_guard` — the same rules with guards
* `exec_logged` — a record of the run can be kept beside it
* `reaches_iff_exec`, `Reaches.bind` — the finished runs, and how they compose
* `wp_beside` — what `wp` promises holds of every run beside others
-/

/-- Programs over the operations `F`. -/
inductive Prog (F : Type → Type) (α : Type) : Type 1
  | pure (a : α) : Prog F α
  | op {β : Type} (o : F β) (k : β → Prog F α) : Prog F α

namespace Prog

variable {F : Type → Type} {α β W C : Type}

/-- Sequencing: graft the rest of the program onto every leaf. -/
def bind : Prog F α → (α → Prog F β) → Prog F β
  | .pure a, f => f a
  | .op o k, f => .op o fun b => (k b).bind f

instance : Monad (Prog F) where
  pure := .pure
  bind := .bind

/-- A single operation. -/
def call (o : F β) : Prog F β := .op o .pure

@[simp] theorem pure_eq (a : α) : (Pure.pure a : Prog F α) = .pure a := rfl

@[simp] theorem pure_bind (a : α) (f : α → Prog F β) : (Prog.pure a >>= f) = f a := rfl

@[simp] theorem op_bind {γ : Type} (o : F γ) (k : γ → Prog F α) (f : α → Prog F β) :
    (Prog.op o k >>= f) = .op o fun c => k c >>= f := rfl

@[simp] theorem call_bind (o : F α) (f : α → Prog F β) : (call o >>= f) = .op o f := rfl

/-- Every operation the program can come to meets `φ`. -/
def All (φ : {β : Type} → F β → Prop) : Prog F α → Prop
  | .pure _ => True
  | .op o k => φ o ∧ ∀ b, All φ (k b)

theorem All.mono {φ ψ : {β : Type} → F β → Prop} {p : Prog F α} (hp : All φ p)
    (h : ∀ {β : Type} (o : F β), φ o → ψ o) : All ψ p := by
  induction p with
  | pure a => trivial
  | op o k ih => exact ⟨h o hp.1, fun b => ih b (hp.2 b)⟩

theorem All.bind {φ : {β : Type} → F β → Prop} {p : Prog F α} {f : α → Prog F β}
    (hp : All φ p) (hf : ∀ a, All φ (f a)) : All φ (p >>= f) := by
  induction p with
  | pure a => exact hf a
  | op o k ih => exact ⟨hp.1, fun b => ih b (hp.2 b)⟩

/-! ### Execution -/

/-- What the operations do, given a choice of the environment. -/
abbrev Handler (F : Type → Type) (W C : Type) := {β : Type} → F β → W → C → β × W

variable (eff : Handler F W C)

/-- Run the program on a list of choices. The result is `none` when it was cut. -/
def exec : Prog F α → W → List C → Option α × W
  | .pure a, w, _ => (some a, w)
  | .op _ _, w, [] => (none, w)
  | .op o k, w, c :: cs => exec (k (eff o w c).1) (eff o w c).2 cs

/-- Run the program to its end, every operation reading its answer off the same choice. -/
def complete : Prog F α → W → C → α × W
  | .pure a, w, _ => (a, w)
  | .op o k, w, c => complete (k (eff o w c).1) (eff o w c).2 c

@[simp] theorem exec_pure (a : α) (w : W) (cs : List C) :
    exec eff (Prog.pure a : Prog F α) w cs = (some a, w) := by
  cases cs <;> rfl

@[simp] theorem exec_op_nil (o : F β) (k : β → Prog F α) (w : W) :
    exec eff (Prog.op o k) w [] = (none, w) := rfl

@[simp] theorem exec_op_cons (o : F β) (k : β → Prog F α) (w : W) (c : C) (cs : List C) :
    exec eff (Prog.op o k) w (c :: cs) = exec eff (k (eff o w c).1) (eff o w c).2 cs := rfl

@[simp] theorem complete_pure (a : α) (w : W) (c : C) :
    complete eff (Prog.pure a : Prog F α) w c = (a, w) := rfl

@[simp] theorem complete_op (o : F β) (k : β → Prog F α) (w : W) (c : C) :
    complete eff (Prog.op o k) w c = complete eff (k (eff o w c).1) (eff o w c).2 c := rfl

theorem complete_bind (p : Prog F α) (f : α → Prog F β) (w : W) (c : C) :
    complete eff (p >>= f) w c
      = complete eff (f (complete eff p w c).1) (complete eff p w c).2 c := by
  induction p generalizing w with
  | pure a => rfl
  | op o k ih => exact ih _ _

/-- What every operation of the program preserves, the program preserves. -/
theorem complete_of_all {φ : {β : Type} → F β → Prop} {I : W → Prop} {p : Prog F α}
    (hp : All φ p) {c : C} (h : ∀ {β : Type} (o : F β) w, φ o → I w → I (eff o w c).2) {w : W}
    (hw : I w) : I (complete eff p w c).2 := by
  induction p generalizing w with
  | pure a => exact hw
  | op o k ih => exact ih _ (hp.2 _) (h o w hp.1 hw)

/-- The program, as one over more operations. -/
def embed {G : Type → Type} (i : {β : Type} → F β → G β) : Prog F α → Prog G α
  | .pure a => .pure a
  | .op o k => .op (i o) fun b => (k b).embed i

/-- It runs as before where the operations are performed as before. -/
theorem complete_embed {G : Type → Type} {C' : Type} {i : {β : Type} → F β → G β} {f : C' → C}
    {eff' : Handler G W C'} (h : ∀ {β : Type} (o : F β) w c, eff' (i o) w c = eff o w (f c))
    (p : Prog F α) (w : W) (c : C') :
    complete eff' (p.embed i) w c = complete eff p w (f c) := by
  induction p generalizing w with
  | pure a => rfl
  | op o k ih =>
    simp only [embed, complete_op, h]
    exact ih _ _

/-! ### Preconditions -/

/-- `Allowed A p w cs`: every choice of the run is one the environment may make. -/
def Allowed (A : {β : Type} → F β → W → C → Prop) : Prog F α → W → List C → Prop
  | .pure _, _, _ => True
  | .op _ _, _, [] => True
  | .op o k, w, c :: cs => A o w c ∧ Allowed A (k (eff o w c).1) (eff o w c).2 cs

variable {eff} {A : {β : Type} → F β → W → C → Prop} {R : W → W → Prop} {J : W → Prop}

/-- The precondition of `p` for the postcondition `Q`, in an environment that chooses within `A`,
beside others that act within `R`, with `J` wherever `p` can be cut. -/
def wp (eff : Handler F W C) (A : {β : Type} → F β → W → C → Prop) (R : W → W → Prop)
    (J : W → Prop) : Prog F α → (α → W → Prop) → W → Prop
  | .pure a, Q, w => ∀ w', R w w' → Q a w'
  | .op o k, Q, w =>
    ∀ w', R w w' → J w' ∧ ∀ c, A o w' c → wp eff A R J (k (eff o w' c).1) Q (eff o w' c).2

/-- **The rule for one operation.** `P` holds before it, the others do not disturb `P`, and from
every world with `P` the rest of the program is fine whatever the operation answers. -/
theorem wp_op_of_stable {o : F β} {k : β → Prog F α} {Q : α → W → Prop} {P : W → Prop} {w : W}
    (hw : P w) (hR : ∀ v v', P v → R v v' → P v') (hJ : ∀ v, P v → J v)
    (hk : ∀ v c, P v → A o v c → wp eff A R J (k (eff o v c).1) Q (eff o v c).2) :
    wp eff A R J (.op o k) Q w := by
  intro w' hww'
  have hP : P w' := hR w w' hw hww'
  exact ⟨hJ w' hP, fun c hc => hk w' c hP hc⟩

theorem wp_mono {p : Prog F α} {Q Q' : α → W → Prop} (hQ : ∀ a w, Q a w → Q' a w) {w : W}
    (h : wp eff A R J p Q w) : wp eff A R J p Q' w := by
  induction p generalizing w with
  | pure a => exact fun w' hw' => hQ a w' (h w' hw')
  | op o k ih =>
    intro w' hw'
    obtain ⟨hJ, hk⟩ := h w' hw'
    exact ⟨hJ, fun c hc => ih _ (hk c hc)⟩

/-- A weaker assertion at the cut points. -/
theorem wp_mono_cut {J' : W → Prop} (hJ : ∀ w, J w → J' w) {p : Prog F α} {Q : α → W → Prop} {w : W}
    (h : wp eff A R J p Q w) : wp eff A R J' p Q w := by
  induction p generalizing w with
  | pure a => exact h
  | op o k ih =>
    intro w' hw'
    obtain ⟨hcut, hk⟩ := h w' hw'
    exact ⟨hJ w' hcut, fun c hc => ih _ (hk c hc)⟩

/-- What the others do is already accounted for. -/
theorem wp_rely [IsTrans W R] {p : Prog F α} {Q : α → W → Prop} {w w' : W}
    (h : wp eff A R J p Q w) (hw : R w w') : wp eff A R J p Q w' := by
  cases p with
  | pure a => exact fun v hv => h v (trans_of R hw hv)
  | op o k => exact fun v hv => h v (trans_of R hw hv)

/-- **Composition.** The precondition of a sequence is that of its first part, for the
precondition of the second as postcondition. -/
theorem wp_bind [IsPreorder W R] {p : Prog F α} {f : α → Prog F β} {Q : β → W → Prop} {w : W} :
    wp eff A R J (p >>= f) Q w ↔ wp eff A R J p (fun a w' => wp eff A R J (f a) Q w') w := by
  induction p generalizing w with
  | pure a => exact ⟨fun h w' hw' => wp_rely h hw', fun h => h w (refl_of R w)⟩
  | op o k ih =>
    exact forall₂_congr fun w' _ => and_congr_right fun _ => forall₂_congr fun c _ => ih _

/-- Where nothing is asked of the cut points or of the result, there is nothing to prove. -/
theorem wp_trivial (p : Prog F α) (w : W) :
    wp eff A R (fun _ => True) p (fun _ _ => True) w := by
  induction p generalizing w with
  | pure a => exact fun _ _ => trivial
  | op o k ih => exact fun w' _ => ⟨trivial, fun c _ => ih _ _⟩

/-- An invariant of every operation that the program can come to is one of the program. -/
theorem wp_of_all {φ : {β : Type} → F β → Prop} {I : W → Prop} {p : Prog F α}
    (hp : All φ p) (hR : ∀ w w', I w → R w w' → I w') (hJ : ∀ w, I w → J w)
    (hI : ∀ {β : Type} (o : F β) (w : W) (c : C), φ o → A o w c → I w → I (eff o w c).2) {w : W}
    (hw : I w) : wp eff A R J p (fun _ => I) w := by
  induction p generalizing w with
  | pure a => exact fun w' h => hR w w' hw h
  | op o k ih =>
    intro w' h
    have hw' : I w' := hR w w' hw h
    exact ⟨hJ w' hw', fun c hc => ih _ (hp.2 _) (hI o w' c hp.1 hc hw')⟩

/-! ### Single steps -/

/-- Perform the first operation of the program, if it has one. -/
def next (eff : Handler F W C) : Prog F α → W → C → Option (Prog F α × W)
  | .pure _, _, _ => none
  | .op o k, w, c => some (k (eff o w c).1, (eff o w c).2)

theorem wp_next [Std.Refl R] {o : F β} {k : β → Prog F α} {Q : α → W → Prop} {w : W} {c : C}
    (h : wp eff A R J (.op o k) Q w) (hc : A o w c) :
    wp eff A R J (k (eff o w c).1) Q (eff o w c).2 :=
  (h w (refl_of R w)).2 c hc

theorem wp_cut [Std.Refl R] {o : F β} {k : β → Prog F α} {Q : α → W → Prop} {w : W}
    (h : wp eff A R J (.op o k) Q w) : J w :=
  (h w (refl_of R w)).1

theorem wp_result [Std.Refl R] {a : α} {Q : α → W → Prop} {w : W}
    (h : wp eff A R J (.pure a) Q w) : Q a w :=
  h w (refl_of R w)

/-! ### Programs that are alone -/

@[simp] theorem wp_alone_pure (a : α) (Q : α → W → Prop) (w : W) :
    wp eff A Eq J (Prog.pure a : Prog F α) Q w ↔ Q a w := by
  simp [wp]

theorem wp_alone_op (o : F β) (k : β → Prog F α) (Q : α → W → Prop) (w : W) :
    wp eff A Eq J (.op o k) Q w ↔
      J w ∧ ∀ c, A o w c → wp eff A Eq J (k (eff o w c).1) Q (eff o w c).2 := by
  simp [wp]

theorem wp_alone_call {o : F α} {Q : α → W → Prop} {w : W} (hJ : J w)
    (h : ∀ c, A o w c → Q (eff o w c).1 (eff o w c).2) : wp eff A Eq J (call o) Q w :=
  (wp_alone_op o .pure Q w).mpr ⟨hJ, fun c hc => (wp_alone_pure _ Q _).mpr (h c hc)⟩

/-- **Soundness.** A cut run ends in `J`, a finished one in `Q`. -/
theorem wp_sound [Std.Refl R] {p : Prog F α} {Q : α → W → Prop} {w : W} {cs : List C}
    (h : wp eff A R J p Q w) (ha : Allowed eff A p w cs) :
    (∀ a, (exec eff p w cs).1 = some a → Q a (exec eff p w cs).2) ∧
      ((exec eff p w cs).1 = none → J (exec eff p w cs).2) := by
  induction p generalizing w cs with
  | pure a => simpa using wp_result h
  | op o k ih =>
    cases cs with
    | nil => simpa using wp_cut h
    | cons c cs => exact ih _ (wp_next h ha.1) ha.2

/-- Where the environment may do anything, every list of choices is allowed. -/
theorem allowed_of_forall (hA : ∀ {β : Type} (o : F β) (w : W) (c : C), A o w c) (p : Prog F α)
    (w : W) (cs : List C) : Allowed eff A p w cs := by
  induction p generalizing w cs with
  | pure a => trivial
  | op o k ih =>
    cases cs with
    | nil => trivial
    | cons c cs => exact ⟨hA o w c, ih _ _ _⟩

/-- An assertion of the cut points that the end meets too holds wherever the run stops. -/
theorem wp_exec [Std.Refl R] {p : Prog F α} {w : W}
    (h : wp eff (fun _ _ _ => True) R J p (fun _ => J) w) (cs : List C) :
    J (exec eff p w cs).2 := by
  obtain ⟨hdone, hcut⟩ := wp_sound h (allowed_of_forall (fun _ _ _ => trivial) p w cs)
  cases hr : (exec eff p w cs).1 with
  | none => exact hcut hr
  | some a => exact hdone a hr

/-! ### Guards -/

/-- `wp`, with `G` of each operation the program comes to. -/
def wpAt (eff : Handler F W C) (A : {β : Type} → F β → W → C → Prop) (R : W → W → Prop)
    (G : {β : Type} → F β → W → Prop) : Prog F α → (α → W → Prop) → W → Prop
  | .pure a, Q, w => ∀ w', R w w' → Q a w'
  | .op o k, Q, w =>
    ∀ w', R w w' → G o w' ∧ ∀ c, A o w' c → wpAt eff A R G (k (eff o w' c).1) Q (eff o w' c).2

variable {G : {β : Type} → F β → W → Prop}

theorem wpAt_op_of_stable {o : F β} {k : β → Prog F α} {Q : α → W → Prop} {P : W → Prop} {w : W}
    (hw : P w) (hR : ∀ v v', P v → R v v' → P v') (hG : ∀ v, P v → G o v)
    (hk : ∀ v c, P v → A o v c → wpAt eff A R G (k (eff o v c).1) Q (eff o v c).2) :
    wpAt eff A R G (.op o k) Q w := by
  intro w' hww'
  have hP : P w' := hR w w' hw hww'
  exact ⟨hG w' hP, fun c hc => hk w' c hP hc⟩

theorem wpAt_mono {p : Prog F α} {Q Q' : α → W → Prop} (hQ : ∀ a w, Q a w → Q' a w) {w : W}
    (h : wpAt eff A R G p Q w) : wpAt eff A R G p Q' w := by
  induction p generalizing w with
  | pure a => exact fun w' hw' => hQ a w' (h w' hw')
  | op o k ih =>
    intro w' hw'
    obtain ⟨hG, hk⟩ := h w' hw'
    exact ⟨hG, fun c hc => ih _ (hk c hc)⟩

theorem wpAt_rely [IsTrans W R] {p : Prog F α} {Q : α → W → Prop} {w w' : W}
    (h : wpAt eff A R G p Q w) (hw : R w w') : wpAt eff A R G p Q w' := by
  cases p with
  | pure a => exact fun v hv => h v (trans_of R hw hv)
  | op o k => exact fun v hv => h v (trans_of R hw hv)

theorem wpAt_bind [IsPreorder W R] {p : Prog F α} {f : α → Prog F β} {Q : β → W → Prop} {w : W} :
    wpAt eff A R G (p >>= f) Q w ↔ wpAt eff A R G p (fun a w' => wpAt eff A R G (f a) Q w') w := by
  induction p generalizing w with
  | pure a => exact ⟨fun h w' hw' => wpAt_rely h hw', fun h => h w (refl_of R w)⟩
  | op o k ih =>
    exact forall₂_congr fun w' _ => and_congr_right fun _ => forall₂_congr fun c _ => ih _

/-- The invariant rule: every operation that the program can come to keeps `I`, which is enough
for its guard. -/
theorem wpAt_of_all {φ : {β : Type} → F β → Prop} {I : W → Prop} {p : Prog F α}
    (hp : All φ p) (hR : ∀ w w', I w → R w w' → I w')
    (hG : ∀ {β : Type} (o : F β) (w : W), φ o → I w → G o w)
    (hI : ∀ {β : Type} (o : F β) (w : W) (c : C), φ o → A o w c → I w → I (eff o w c).2) {w : W}
    (hw : I w) : wpAt eff A R G p (fun _ => I) w := by
  induction p generalizing w with
  | pure a => exact fun w' h => hR w w' hw h
  | op o k ih =>
    intro w' h
    have hw' : I w' := hR w w' hw h
    exact ⟨hG o w' hp.1 hw', fun c hc => ih _ (hp.2 _) (hI o w' c hp.1 hc hw')⟩

theorem wpAt_next [Std.Refl R] {o : F β} {k : β → Prog F α} {Q : α → W → Prop} {w : W} {c : C}
    (h : wpAt eff A R G (.op o k) Q w) (hc : A o w c) :
    wpAt eff A R G (k (eff o w c).1) Q (eff o w c).2 :=
  (h w (refl_of R w)).2 c hc

/-- What is known of the operation the program is at. -/
theorem wpAt_guard [Std.Refl R] {o : F β} {k : β → Prog F α} {Q : α → W → Prop} {w : W}
    (h : wpAt eff A R G (.op o k) Q w) : G o w :=
  (h w (refl_of R w)).1

/-- A single operation of a program that is alone. -/
theorem wpAt_call {o : F α} {Q : α → W → Prop} {w : W} (hG : G o w)
    (h : ∀ c, A o w c → Q (eff o w c).1 (eff o w c).2) : wpAt eff A Eq G (call o) Q w := by
  intro w' hw'
  obtain rfl := hw'
  refine ⟨hG, fun c hc v hv => ?_⟩
  obtain rfl := hv
  exact h c hc

/-- A guard that only looks at the operation is met if every operation meets it. -/
theorem wpAt_of_wp {φ : {β : Type} → F β → Prop} {p : Prog F α} {Q : α → W → Prop} {w : W}
    (hp : All φ p) (hG : ∀ {β : Type} (o : F β) (w : W), φ o → G o w) (h : wp eff A R J p Q w) :
    wpAt eff A R G p Q w := by
  induction p generalizing w with
  | pure a => exact h
  | op o k ih =>
    intro w' hw'
    exact ⟨hG o w' hp.1, fun c hc => ih _ (hp.2 _) ((h w' hw').2 c hc)⟩

/-- What every operation keeps if its guard is met holds wherever the program is cut. -/
theorem wp_of_wpAt {φ : {β : Type} → F β → Prop} {I : W → Prop} {p : Prog F α}
    {Q : α → W → Prop} (hp : All φ p) (hR : ∀ w w', I w → R w w' → I w')
    (hI : ∀ {β : Type} (o : F β) (w : W) (c : C), φ o → G o w → I w → I (eff o w c).2) {w : W}
    (h : wpAt eff A R G p Q w) (hw : I w) : wp eff A R I p (fun _ => I) w := by
  induction p generalizing w with
  | pure a => exact fun w' h => hR w w' hw h
  | op o k ih =>
    intro w' hww'
    have hw' : I w' := hR w w' hw hww'
    obtain ⟨hG, hk⟩ := h w' hww'
    exact ⟨hw', fun c hc => ih _ (hp.2 _) (hk c hc) (hI o w' c hp.1 hG hw')⟩

/-! ### What comes next -/

/-- The program begins with an operation that meets `φ`. -/
def First (φ : {β : Type} → F β → Prop) : Prog F α → Prop
  | .pure _ => False
  | .op o _ => φ o

theorem First.bind {φ : {β : Type} → F β → Prop} {p : Prog F α} (h : First φ p)
    (f : α → Prog F β) : First φ (p >>= f) := by
  cases p with
  | pure a => exact h.elim
  | op o k => exact h

theorem First.mono {φ ψ : {β : Type} → F β → Prop} {p : Prog F α} (hp : First φ p)
    (h : ∀ {β : Type} (o : F β), φ o → ψ o) : First ψ p := by
  cases p with
  | pure a => exact hp
  | op o k => exact h o hp

/-- Where an answer `asks` for it, the next operation `follows`. -/
def Chain (asks : {β : Type} → F β → β → Prop) (follows : {β γ : Type} → F β → F γ → Prop) :
    Prog F α → Prop
  | .pure _ => True
  | .op o k => ∀ b, (asks o b → First (follows o) (k b)) ∧ Chain asks follows (k b)

theorem Chain.bind {asks : {β : Type} → F β → β → Prop}
    {follows : {β γ : Type} → F β → F γ → Prop} {p : Prog F α} {f : α → Prog F β}
    (hp : Chain asks follows p) (hf : ∀ a, Chain asks follows (f a)) :
    Chain asks follows (p >>= f) := by
  induction p with
  | pure a => exact hf a
  | op o k ih => exact fun b => ⟨fun h => ((hp b).1 h).bind f, ih b (hp b).2⟩

/-! ### Results -/

/-- Whatever the program is answered within `B`, its result meets `Q`. -/
def Yields (B : {β : Type} → F β → β → Prop) (Q : α → Prop) : Prog F α → Prop
  | .pure a => Q a
  | .op o k => ∀ b, B o b → Yields B Q (k b)

variable {B : {β : Type} → F β → β → Prop}

theorem yields_trivial (p : Prog F α) : Yields B (fun _ => True) p := by
  induction p with
  | pure a => trivial
  | op o k ih => exact fun b _ => ih b

theorem Yields.bind {p : Prog F α} {f : α → Prog F β} {Q : α → Prop} {Q' : β → Prop}
    (hp : Yields B Q p) (hf : ∀ a, Q a → Yields B Q' (f a)) : Yields B Q' (p >>= f) := by
  induction p with
  | pure a => exact hf a hp
  | op o k ih => exact fun b hb => ih b (hp b hb)

/-! ### Records -/

/-- The same operations, with a record of what `see` tells of each of them. -/
def logged {ε : Type} (eff : Handler F W C) (see : {β : Type} → F β → C → β → Option ε) :
    Handler F (W × List ε) C :=
  fun {_} o s c =>
    ((eff o s.1 c).1, (eff o s.1 c).2, s.2 ++ (see o c (eff o s.1 c).1).toList)

/-- The record makes no difference to the run. -/
theorem exec_logged {ε : Type} (eff : Handler F W C)
    (see : {β : Type} → F β → C → β → Option ε) (p : Prog F α) (w : W) (es : List ε) (cs : List C) :
    (exec (logged eff see) p (w, es) cs).1 = (exec eff p w cs).1 ∧
      (exec (logged eff see) p (w, es) cs).2.1 = (exec eff p w cs).2 := by
  induction p generalizing w es cs with
  | pure a => simp
  | op o k ih =>
    cases cs with
    | nil => exact ⟨rfl, rfl⟩
    | cons c cs => exact ih _ _ _ _

/-! ### Errors -/

variable {ε : Type}

/-- Go on with the value, or end with the error: the operator `?`. -/
def andThen (p : Prog F (Except ε α)) (f : α → Prog F (Except ε β)) : Prog F (Except ε β) :=
  p >>= fun r =>
    match r with
    | .ok a => f a
    | .error e => .pure (.error e)

theorem wp_andThen {p : Prog F (Except ε α)} {f : α → Prog F (Except ε β)}
    {Q : Except ε β → W → Prop} {w : W} :
    wp eff A Eq J (p.andThen f) Q w ↔
      wp eff A Eq J p (fun r w' =>
        match r with
        | .ok a => wp eff A Eq J (f a) Q w'
        | .error e => Q (.error e) w') w := by
  have : IsPreorder W Eq := {}
  rw [andThen, wp_bind]
  refine iff_of_eq (congrFun (congrArg _ (funext fun r => funext fun w' => ?_)) w)
  cases r with
  | ok a => rfl
  | error e => exact propext (wp_alone_pure (.error e) Q w')

/-- Another text for the error. -/
def mapError {ε' : Type} (f : ε → ε') (p : Prog F (Except ε α)) : Prog F (Except ε' α) :=
  p >>= fun r => .pure (r.mapError f)

theorem wp_mapError {ε' : Type} {f : ε → ε'} {p : Prog F (Except ε α)}
    {Q : Except ε' α → W → Prop} {w : W} :
    wp eff A Eq J (p.mapError f) Q w ↔ wp eff A Eq J p (fun r w' => Q (r.mapError f) w') w := by
  have : IsPreorder W Eq := {}
  rw [mapError, wp_bind]
  simp only [wp_alone_pure]

theorem wpAt_andThen {p : Prog F (Except ε α)} {f : α → Prog F (Except ε β)}
    {Q : Except ε β → W → Prop} {w : W} :
    wpAt eff A Eq G (p.andThen f) Q w ↔
      wpAt eff A Eq G p (fun r w' =>
        match r with
        | .ok a => wpAt eff A Eq G (f a) Q w'
        | .error e => Q (.error e) w') w := by
  have : IsPreorder W Eq := {}
  rw [andThen, wpAt_bind]
  refine iff_of_eq (congrFun (congrArg _ (funext fun r => funext fun w' => ?_)) w)
  cases r with
  | ok a => rfl
  | error e => exact propext ⟨fun h => h w' rfl, fun h _ hw => hw ▸ h⟩

theorem wpAt_mapError {ε' : Type} {f : ε → ε'} {p : Prog F (Except ε α)}
    {Q : Except ε' α → W → Prop} {w : W} :
    wpAt eff A Eq G (p.mapError f) Q w ↔
      wpAt eff A Eq G p (fun r w' => Q (r.mapError f) w') w := by
  have : IsPreorder W Eq := {}
  rw [mapError, wpAt_bind]
  refine iff_of_eq (congrFun (congrArg _ (funext fun r => funext fun w' => ?_)) w)
  exact propext ⟨fun h => h w' rfl, fun h _ hw => hw ▸ h⟩

theorem complete_andThen (p : Prog F (Except ε α)) (f : α → Prog F (Except ε β)) (w : W) (c : C) :
    complete eff (p.andThen f) w c =
      match complete eff p w c with
      | (.ok a, w') => complete eff (f a) w' c
      | (.error e, w') => (.error e, w') := by
  rw [andThen, complete_bind]
  rcases complete eff p w c with ⟨r | r, w'⟩ <;> rfl

theorem complete_mapError {ε' : Type} (f : ε → ε') (p : Prog F (Except ε α)) (w : W) (c : C) :
    complete eff (p.mapError f) w c
      = ((complete eff p w c).1.mapError f, (complete eff p w c).2) := by
  rw [mapError, complete_bind]
  rfl

@[simp] theorem complete_call (o : F α) (w : W) (c : C) :
    complete eff (call o) w c = eff o w c := rfl

theorem All.call {φ : {β : Type} → F β → Prop} {o : F β} (h : φ o) : All φ (Prog.call (F := F) o) :=
  ⟨h, fun _ => trivial⟩

theorem All.andThen {φ : {β : Type} → F β → Prop} {p : Prog F (Except ε α)}
    {f : α → Prog F (Except ε β)} (hp : All φ p) (hf : ∀ a, All φ (f a)) : All φ (p.andThen f) := by
  refine hp.bind fun r => ?_
  cases r with
  | ok a => exact hf a
  | error e => trivial

theorem All.mapError {φ : {β : Type} → F β → Prop} {ε' : Type} {f : ε → ε'}
    {p : Prog F (Except ε α)} (hp : All φ p) : All φ (p.mapError f) :=
  hp.bind fun _ => trivial

/-! ### Finished runs -/

/-- Some choices of the environment lead from here to this end. -/
inductive Reaches (eff : Handler F W C) : Prog F α → W → α → W → Prop
  | pure (a : α) (w : W) : Reaches @eff (.pure a) w a w
  | op {γ : Type} {o : F γ} {k : γ → Prog F α} {w w' : W} {a : α} (c : C)
    (h : Reaches @eff (k (eff o w c).1) (eff o w c).2 a w') : Reaches @eff (.op o k) w a w'

/-- The first operation of a run. -/
theorem reaches_op {γ : Type} {o : F γ} {k : γ → Prog F α} {w w' : W} {a : α}
    (h : Reaches eff (.op o k) w a w') : ∃ c, Reaches eff (k (eff o w c).1) (eff o w c).2 a w' := by
  cases h with
  | op c h => exact ⟨c, h⟩

theorem reaches_iff_exec {p : Prog F α} {w w' : W} {a : α} :
    Reaches eff p w a w' ↔ ∃ cs, exec eff p w cs = (some a, w') := by
  constructor
  · intro h
    induction h with
    | pure a w => exact ⟨[], rfl⟩
    | op c _ ih =>
      obtain ⟨cs, hcs⟩ := ih
      exact ⟨c :: cs, hcs⟩
  · rintro ⟨cs, hcs⟩
    induction p generalizing w cs with
    | pure b =>
      rw [exec_pure] at hcs
      obtain ⟨hb, rfl⟩ := Prod.mk.inj hcs
      exact Option.some.inj hb ▸ .pure b w
    | op o k ih =>
      cases cs with
      | nil => exact absurd (Prod.mk.inj hcs).1 (by simp)
      | cons c cs => exact .op c (ih _ cs hcs)

theorem Reaches.bind {p : Prog F α} {f : α → Prog F β} {w w' w'' : W} {a : α} {b : β}
    (hp : Reaches eff p w a w') (hf : Reaches eff (f a) w' b w'') :
    Reaches eff (p >>= f) w b w'' := by
  induction hp with
  | pure a w => exact hf
  | op c _ ih => exact .op c (ih hf)

theorem Reaches.andThen {p : Prog F (Except ε α)} {f : α → Prog F (Except ε β)} {w w' w'' : W}
    {a : α} {r : Except ε β} (hp : Reaches eff p w (.ok a) w') (hf : Reaches eff (f a) w' r w'') :
    Reaches eff (p.andThen f) w r w'' := hp.bind hf

/-- An error ends the run. -/
theorem Reaches.andThen_error {p : Prog F (Except ε α)} {f : α → Prog F (Except ε β)} {w w' : W}
    {e : ε} (hp : Reaches eff p w (.error e) w') : Reaches eff (p.andThen f) w (.error e) w' :=
  hp.bind (.pure _ _)

theorem reaches_call (o : F α) (w : W) (c : C) :
    Reaches eff (call o) w (eff o w c).1 (eff o w c).2 := .op c (.pure _ _)

theorem Reaches.mapError {ε' : Type} {f : ε → ε'} {p : Prog F (Except ε α)} {w w' : W}
    {r : Except ε α} (hp : Reaches eff p w r w') : Reaches eff (p.mapError f) w (r.mapError f) w' :=
  hp.bind (.pure _ _)

theorem wpAt_reaches [Std.Refl R] {p : Prog F α} {Q : α → W → Prop} {w w' : W} {a : α}
    (h : wpAt eff (fun _ _ _ => True) R G p Q w) (hr : Reaches eff p w a w') : Q a w' := by
  induction hr with
  | pure a w => exact h w (refl_of R w)
  | op c _ ih => exact ih (wpAt_next h trivial)

theorem wp_reaches [Std.Refl R] {p : Prog F α} {Q : α → W → Prop} {w w' : W} {a : α}
    (h : wp eff (fun _ _ _ => True) R J p Q w) (hr : Reaches eff p w a w') : Q a w' := by
  induction hr with
  | pure a w => exact wp_result h
  | op c _ ih => exact ih (wp_next h trivial)

/-! ### Runs beside others -/

/-- A run of the program, with what the others do before and after each of its operations. It ends
with a result or, with none, before an operation. -/
inductive Beside (eff : Handler F W C) (R : W → W → Prop) :
    Prog F α → W → Option α → W → Prop
  | cut {γ : Type} (o : F γ) (k : γ → Prog F α) {w w' : W} (h : R w w') :
      Beside @eff R (.op o k) w none w'
  | pure (a : α) {w w' : W} (h : R w w') : Beside @eff R (.pure a) w (some a) w'
  | op {γ : Type} {o : F γ} {k : γ → Prog F α} {w v w' : W} {r : Option α} (c : C) (h : R w v)
      (hrest : Beside @eff R (k (eff o v c).1) (eff o v c).2 r w') : Beside @eff R (.op o k) w r w'

/-- A finished run without others. -/
theorem Beside.of_complete [Std.Refl R] (p : Prog F α) (w : W) (c : C) :
    Beside eff R p w (some (complete eff p w c).1) (complete eff p w c).2 := by
  induction p generalizing w with
  | pure a => exact .pure a (refl_of R w)
  | op o k ih => exact .op c (refl_of R w) (ih _ _)

/-- **Soundness beside others.** -/
theorem wp_beside {p : Prog F α} {Q : α → W → Prop} {w w' : W} {r : Option α}
    (h : wp eff (fun _ _ _ => True) R J p Q w) (hr : Beside eff R p w r w') :
    r.elim (J w') fun a => Q a w' := by
  induction hr with
  | cut o k hR => exact (h _ hR).1
  | pure a hR => exact h _ hR
  | op c hR _ ih => exact ih ((h _ hR).2 c trivial)

end Prog
