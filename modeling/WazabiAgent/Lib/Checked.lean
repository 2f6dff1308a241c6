import Mathlib.Data.List.Basic

/-!
# Arrays with checked indices

Reading and writing an array of fixed length, and counting loops over it. An index out of range, a
slice that is none, or a difference below zero is `none`.

## Main results

* `forRange_some` — a loop whose every turn keeps an invariant runs to its end, and keeps it
* `set_append`, `copyFromSlice_append`, `fill_append` — writing behind a part that is kept
-/

namespace Checked

variable {α β : Type}

/-- `n - m`. -/
def sub (n m : ℕ) : Option ℕ := if m ≤ n then some (n - m) else none

/-- `a[i] = x`. -/
def set (a : List α) (i : ℕ) (x : α) : Option (List α) :=
  if i < a.length then some (a.set i x) else none

/-- `&a[lo..hi]`. -/
def slice (a : List α) (lo hi : ℕ) : Option (List α) :=
  if lo ≤ hi ∧ hi ≤ a.length then some ((a.drop lo).take (hi - lo)) else none

/-- `a[lo..hi].copy_from_slice(b)`. -/
def copyFromSlice (a : List α) (lo hi : ℕ) (b : List α) : Option (List α) :=
  if lo ≤ hi ∧ hi ≤ a.length ∧ b.length = hi - lo then some (a.take lo ++ b ++ a.drop hi) else none

/-- The turns `i`, `i + 1`, … of a loop, as many as the second argument says. -/
def forCount (f : ℕ → β → Option β) : ℕ → ℕ → β → Option β
  | _, 0, b => some b
  | i, n + 1, b => (f i b).bind (forCount f (i + 1) n)

/-- `for i in lo..hi`. -/
def forRange (lo hi : ℕ) (b : β) (f : ℕ → β → Option β) : Option β := forCount f lo (hi - lo) b

/-- `for b in &mut a[lo..hi] { *b = x; }`. -/
def fill (a : List α) (lo hi : ℕ) (x : α) : Option (List α) :=
  if lo ≤ hi ∧ hi ≤ a.length then some (a.take lo ++ List.replicate (hi - lo) x ++ a.drop hi)
  else none

theorem sub_of_le {n m : ℕ} (h : m ≤ n) : sub n m = some (n - m) := if_pos h

theorem set_of_lt {a : List α} {i : ℕ} (h : i < a.length) (x : α) : set a i x = some (a.set i x) :=
  if_pos h

theorem slice_of_le {a : List α} {lo hi : ℕ} (h : lo ≤ hi) (hhi : hi ≤ a.length) :
    slice a lo hi = some ((a.drop lo).take (hi - lo)) := if_pos ⟨h, hhi⟩

/-- What is written begins where the part that is kept ends. -/
theorem copyFromSlice_append {kept b rest : List α} {lo hi : ℕ} (hlo : lo = kept.length)
    (hhi : hi = kept.length + b.length) (hrest : b.length ≤ rest.length) :
    copyFromSlice (kept ++ rest) lo hi b = some (kept ++ b ++ rest.drop b.length) := by
  subst hlo hhi
  have hlen : kept.length + b.length ≤ (kept ++ rest).length := by
    rw [List.length_append]
    omega
  rw [copyFromSlice, if_pos ⟨by omega, hlen, by omega⟩, List.take_left, ← List.drop_drop,
    List.drop_left]

theorem fill_append {kept rest : List α} {lo hi n : ℕ} (hlo : lo = kept.length)
    (hhi : hi = kept.length + n) (hrest : n ≤ rest.length) (x : α) :
    fill (kept ++ rest) lo hi x = some (kept ++ List.replicate n x ++ rest.drop n) := by
  subst hlo hhi
  have hlen : kept.length + n ≤ (kept ++ rest).length := by
    rw [List.length_append]
    omega
  rw [fill, if_pos ⟨by omega, hlen⟩, List.take_left, ← List.drop_drop, List.drop_left,
    Nat.add_sub_cancel_left]

theorem set_append {kept rest : List α} {y : α} (x : α) :
    set (kept ++ y :: rest) kept.length x = some (kept ++ x :: rest) := by
  have hlt : kept.length < (kept ++ y :: rest).length := by
    rw [List.length_append, List.length_cons]
    omega
  rw [set_of_lt hlt, List.set_append_right _ _ (Nat.le_refl _), Nat.sub_self, List.set_cons_zero]

theorem forCount_some {P : ℕ → β → Prop} {f : ℕ → β → Option β} {i n : ℕ}
    (hstep : ∀ j b, i ≤ j → j < i + n → P j b → ∃ b', f j b = some b' ∧ P (j + 1) b') {b : β}
    (h : P i b) : ∃ b', forCount f i n b = some b' ∧ P (i + n) b' := by
  induction n generalizing i b with
  | zero => exact ⟨b, rfl, h⟩
  | succ n ih =>
    obtain ⟨b₁, hf, h₁⟩ := hstep i b (by omega) (by omega) h
    have hlater : ∀ j b, i + 1 ≤ j → j < i + 1 + n → P j b → ∃ b', f j b = some b' ∧ P (j + 1) b' :=
      fun j b hi hn => hstep j b (by omega) (by omega)
    obtain ⟨b₂, hrun, h₂⟩ := ih hlater h₁
    refine ⟨b₂, ?_, ?_⟩
    · rw [forCount, hf]
      exact hrun
    · rwa [show i + (n + 1) = i + 1 + n by omega]

/-- **The loop rule.** -/
theorem forRange_some (P : ℕ → β → Prop) {f : ℕ → β → Option β} {lo hi : ℕ} (hle : lo ≤ hi) {b : β}
    (h : P lo b)
    (hstep : ∀ i b, lo ≤ i → i < hi → P i b → ∃ b', f i b = some b' ∧ P (i + 1) b') :
    ∃ b', forRange lo hi b f = some b' ∧ P hi b' := by
  have hturn : ∀ i b, lo ≤ i → i < lo + (hi - lo) → P i b → ∃ b', f i b = some b' ∧ P (i + 1) b' :=
    fun i b hlo hhi => hstep i b hlo (by omega)
  obtain ⟨b', hrun, hend⟩ := forCount_some hturn h
  exact ⟨b', hrun, by rwa [Nat.add_sub_cancel' hle] at hend⟩

end Checked
