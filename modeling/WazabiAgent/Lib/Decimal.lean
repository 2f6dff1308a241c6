import Mathlib.Data.String.Basic

/-!
# Decimal numbers compared as text

Names that contain numbers are often compared as strings. Written without padding, two numbers
followed by a character below the digits compare like this: if one has fewer digits, it is
compared with the same number of leading digits of the other, and on a tie it comes first. So the
order of the texts is the order of the numbers only where the numbers have the same width, or
happen to agree with it.

## Main definitions

* `Decimal.width`, `Decimal.leading` — the number of digits, and a number cut down to its leading
  ones
* `Decimal.TextLe` — the order of the texts, for numbers in order

## Main results

* `Decimal.toDigits_eq_append` — the leading digits are a prefix
* `Decimal.text_lt_iff` — the comparison of the texts
-/

namespace Decimal

/-- The number of digits. -/
def width (n : ℕ) : ℕ := (Nat.toDigits 10 n).length

/-- The number without its last `k` digits. -/
def leading : ℕ → ℕ → ℕ
  | n, 0 => n
  | n, k + 1 => leading (n / 10) k

/-- The number `a`, which is not larger than `b`, is not larger than the leading digits of `b`
either, as many as `a` has. -/
def TextLe (a b : ℕ) : Prop := a ≤ leading b (width b - width a)

instance (a b : ℕ) : Decidable (TextLe a b) := inferInstanceAs (Decidable (_ ≤ _))

/-! ### Digits -/

theorem width_of_lt {n : ℕ} (h : n < 10) : width n = 1 := by
  rw [width, Nat.toDigits_of_lt_base h]
  rfl

theorem width_of_le {n : ℕ} (h : 10 ≤ n) : width n = width (n / 10) + 1 := by
  rw [width, Nat.toDigits_of_base_le (by decide) h, List.length_append]
  rfl

theorem width_pos (n : ℕ) : 0 < width n := by
  by_cases h : n < 10
  · rw [width_of_lt h]
    decide
  · rw [width_of_le (by omega)]
    omega

theorem width_mono {a b : ℕ} (h : a ≤ b) : width a ≤ width b := by
  induction b using Nat.strong_induction_on generalizing a with
  | _ b ih =>
    by_cases ha : a < 10
    · rw [width_of_lt ha]
      exact width_pos b
    · rw [width_of_le (n := a) (by omega), width_of_le (n := b) (by omega)]
      have := ih (b / 10) (by omega) (a := a / 10) (by omega)
      omega

theorem digitChar_lt_iff {a b : ℕ} (ha : a < 10) (hb : b < 10) :
    Nat.digitChar a < Nat.digitChar b ↔ a < b := by
  have key : ∀ c d : Char, c < d ↔ c.toNat < d.toNat := fun _ _ => Iff.rfl
  rw [key, Nat.toNat_digitChar_of_lt_ten ha, Nat.toNat_digitChar_of_lt_ten hb]
  omega

/-- The leading digits come first. -/
theorem toDigits_eq_append {n k : ℕ} (h : k < width n) : ∃ rest : List Char,
    Nat.toDigits 10 n = Nat.toDigits 10 (leading n k) ++ rest ∧ rest.length = k ∧
      ∀ d ∈ rest, d.isDigit = true := by
  induction k generalizing n with
  | zero => exact ⟨[], by simp [leading], rfl, by simp⟩
  | succ k ih =>
    have hn : 10 ≤ n := by
      by_contra hn
      rw [width_of_lt (by omega)] at h
      omega
    rw [width_of_le hn] at h
    obtain ⟨rest, hrest, hlen, hdigit⟩ := ih (n := n / 10) (by omega)
    have hmod : n % 10 < 10 := Nat.mod_lt n (by decide)
    refine ⟨rest ++ [Nat.digitChar (n % 10)], ?_, by simp [hlen], ?_⟩
    · rw [Nat.toDigits_of_base_le (by decide) hn, hrest, List.append_assoc]
      rfl
    · intro d hd
      rcases List.mem_append.mp hd with hd | hd
      · exact hdigit d hd
      · obtain rfl := List.mem_singleton.mp hd
        refine Nat.isDigit_of_mem_toDigits (b := 10) (n := n % 10) (by decide) (by decide) ?_
        rw [Nat.toDigits_of_lt_base hmod]
        exact List.mem_singleton.mpr rfl

theorem width_leading {n k : ℕ} (h : k < width n) : width (leading n k) = width n - k := by
  obtain ⟨rest, hrest, hlen, -⟩ := toDigits_eq_append h
  have := congrArg List.length hrest
  rw [List.length_append, hlen] at this
  simp only [width]
  omega

/-! ### Comparison -/

/-- Prefixes of the same length are compared first. -/
theorem append_lt_append_iff {l₁ l₂ s t : List Char} (h : l₁.length = l₂.length) :
    l₁ ++ s < l₂ ++ t ↔ l₁ < l₂ ∨ l₁ = l₂ ∧ s < t := by
  induction l₁ generalizing l₂ with
  | nil =>
    obtain rfl := List.eq_nil_of_length_eq_zero h.symm
    simp
  | cons a l₁ ih =>
    cases l₂ with
    | nil => simp at h
    | cons b l₂ =>
      have hlen : l₁.length = l₂.length := by simpa using h
      rw [List.cons_append, List.cons_append, List.cons_lt_cons_iff, List.cons_lt_cons_iff, ih hlen,
        List.cons.injEq]
      tauto

/-- Numbers of the same width compare like their texts. -/
theorem toDigits_lt_iff {a b : ℕ} (h : width a = width b) :
    Nat.toDigits 10 a < Nat.toDigits 10 b ↔ a < b := by
  induction b using Nat.strong_induction_on generalizing a with
  | _ b ih =>
    by_cases ha : a < 10
    · have hb : b < 10 := by
        by_contra hb
        rw [width_of_lt ha, width_of_le (n := b) (by omega)] at h
        have := width_pos (b / 10)
        omega
      rw [Nat.toDigits_of_lt_base ha, Nat.toDigits_of_lt_base hb, List.cons_lt_cons_iff,
        digitChar_lt_iff ha hb]
      simp
    · have hb : 10 ≤ b := by
        by_contra hb
        rw [width_of_lt (n := b) (by omega), width_of_le (n := a) (by omega)] at h
        have := width_pos (a / 10)
        omega
      have hw : width (a / 10) = width (b / 10) := by
        rw [width_of_le (n := a) (by omega), width_of_le hb] at h
        omega
      rw [Nat.toDigits_of_base_le (by decide) (show 10 ≤ a by omega),
        Nat.toDigits_of_base_le (by decide) hb, append_lt_append_iff hw,
        ih (b / 10) (by omega) hw, List.cons_lt_cons_iff,
        digitChar_lt_iff (Nat.mod_lt a (by decide)) (Nat.mod_lt b (by decide))]
      have hinj : Nat.toDigits 10 (a / 10) = Nat.toDigits 10 (b / 10) ↔ a / 10 = b / 10 :=
        ⟨fun h => by simpa using congrArg (fun ds => Nat.ofDigitChars 10 ds 0) h,
          fun h => by rw [h]⟩
      rw [hinj]
      simp only [List.not_lt_nil, and_false, or_false]
      omega

/-- **The comparison of the texts.** Two numbers in order, each followed by a character that comes
before the digits. -/
theorem text_lt_iff {a b : ℕ} (hab : a ≤ b) {c : Char} (hc : c < '0') (s t : List Char) :
    Nat.toDigits 10 a ++ c :: s < Nat.toDigits 10 b ++ c :: t ↔
      a = b ∧ s < t ∨ a < b ∧ TextLe a b := by
  have hw : width a ≤ width b := width_mono hab
  have hk : width b - width a < width b := by
    have := width_pos a
    omega
  obtain ⟨rest, hrest, hlen, hdigit⟩ := toDigits_eq_append hk
  have hlead : width a = width (leading b (width b - width a)) := by
    rw [width_leading hk]
    omega
  rw [hrest, List.append_assoc, append_lt_append_iff hlead, toDigits_lt_iff hlead]
  have hinj : Nat.toDigits 10 a = Nat.toDigits 10 (leading b (width b - width a)) ↔
      a = leading b (width b - width a) :=
    ⟨fun h => by simpa using congrArg (fun ds => Nat.ofDigitChars 10 ds 0) h, fun h => by rw [← h]⟩
  rw [hinj, TextLe]
  cases rest with
  | nil =>
    -- the same width
    have hzero : width b - width a = 0 := hlen.symm
    rw [hzero]
    simp only [leading, List.nil_append, List.cons_lt_cons_iff, lt_irrefl, false_or, true_and]
    constructor
    · rintro (hlt | heq)
      · exact .inr ⟨hlt, hlt.le⟩
      · exact .inl heq
    · rintro (heq | hlt)
      · exact .inr heq
      · exact .inl hlt.1
  | cons d rest =>
    have hd : c < d := by
      have := hdigit d List.mem_cons_self
      simp only [Char.isDigit, Bool.and_eq_true, decide_eq_true_eq] at this
      exact lt_of_lt_of_le hc this.1
    have hne : a ≠ b := by
      rintro rfl
      simp at hlen
    simp only [List.cons_append, List.cons_lt_cons_iff, hd, true_or, and_true, hne, false_and,
      false_or]
    omega

example : ¬ TextLe 9 10 ∧ TextLe 1 10 := by decide +kernel

/-! ### Numbers of fixed width -/

/-- The last digits of a number. -/
def fixed : ℕ → ℕ → List Char
  | 0, _ => []
  | w + 1, n => fixed w (n / 10) ++ [Nat.digitChar (n % 10)]

@[simp] theorem length_fixed (w n : ℕ) : (fixed w n).length = w := by
  induction w generalizing n with
  | zero => rfl
  | succ w ih => rw [fixed, List.length_append, ih, List.length_singleton]

theorem fixed_zero (w : ℕ) : fixed w 0 = List.replicate w '0' := by
  induction w with
  | zero => rfl
  | succ w ih =>
    rw [fixed, Nat.zero_div, ih, List.replicate_succ']
    rfl

/-- A number that is filled up with zeros. -/
theorem leftpad_toDigits {w n : ℕ} (h : n < 10 ^ (w + 1)) :
    List.leftpad (w + 1) '0' (Nat.toDigits 10 n) = fixed (w + 1) n := by
  induction w generalizing n with
  | zero =>
    have hlt : n < 10 := by simpa using h
    rw [Nat.toDigits_of_lt_base hlt, fixed, Nat.mod_eq_of_lt hlt]
    rfl
  | succ w ih =>
    rw [fixed]
    by_cases hn : n < 10
    · rw [Nat.toDigits_of_lt_base hn, Nat.div_eq_of_lt hn, fixed_zero, Nat.mod_eq_of_lt hn]
      rfl
    · have hdiv : n / 10 < 10 ^ (w + 1) := by
        rw [Nat.pow_succ] at h
        omega
      rw [Nat.toDigits_of_base_le (by decide) (by omega), ← ih hdiv]
      simp only [List.leftpad, List.length_append, List.length_singleton, List.append_assoc]
      rw [Nat.add_sub_add_right]

theorem isDigit_of_mem_fixed {w n : ℕ} {d : Char} (h : d ∈ fixed w n) : d.isDigit = true := by
  induction w generalizing n with
  | zero => exact absurd h List.not_mem_nil
  | succ w ih =>
    rcases List.mem_append.mp h with h | h
    · exact ih h
    · obtain rfl := List.mem_singleton.mp h
      have hmod : n % 10 < 10 := Nat.mod_lt n (by decide)
      refine Nat.isDigit_of_mem_toDigits (b := 10) (n := n % 10) (by decide) (by decide) ?_
      rw [Nat.toDigits_of_lt_base hmod]
      exact List.mem_singleton.mpr rfl

theorem ofDigitChars_fixed {w n : ℕ} (h : n < 10 ^ w) : Nat.ofDigitChars 10 (fixed w n) 0 = n := by
  induction w generalizing n with
  | zero =>
    obtain rfl : n = 0 := by simpa using h
    rfl
  | succ w ih =>
    rw [Nat.pow_succ] at h
    rw [fixed, Nat.ofDigitChars_append, ih (by omega),
      Nat.ofDigitChars_cons_digitChar_of_lt_ten (Nat.mod_lt n (by decide)), Nat.ofDigitChars_nil]
    omega

theorem digitChar_inj {a b : ℕ} (ha : a < 10) (hb : b < 10) :
    Nat.digitChar a = Nat.digitChar b ↔ a = b := by
  refine ⟨fun h => ?_, fun h => by rw [h]⟩
  have hnat := congrArg Char.toNat h
  rw [Nat.toNat_digitChar_of_lt_ten ha, Nat.toNat_digitChar_of_lt_ten hb] at hnat
  omega

/-- Numbers of the same width compare like their texts, and then what follows them. -/
theorem fixed_append_lt_iff {w a b : ℕ} (ha : a < 10 ^ w) (hb : b < 10 ^ w) (s t : List Char) :
    fixed w a ++ s < fixed w b ++ t ↔ a < b ∨ a = b ∧ s < t := by
  induction w generalizing a b s t with
  | zero =>
    obtain rfl : a = 0 := by simpa using ha
    obtain rfl : b = 0 := by simpa using hb
    simp [fixed]
  | succ w ih =>
    rw [Nat.pow_succ] at ha hb
    have ha' : a % 10 < 10 := Nat.mod_lt a (by decide)
    have hb' : b % 10 < 10 := Nat.mod_lt b (by decide)
    rw [fixed, fixed, List.append_assoc, List.append_assoc, ih (by omega) (by omega),
      List.singleton_append, List.singleton_append, List.cons_lt_cons_iff, digitChar_lt_iff ha' hb',
      digitChar_inj ha' hb']
    by_cases hst : s < t
    · simp only [hst, and_true]
      omega
    · simp only [hst, and_false, or_false]
      omega

end Decimal
