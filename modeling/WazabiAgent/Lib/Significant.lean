import Mathlib.Algebra.Order.Ring.Nat
import Mathlib.Data.Nat.Log
import Mathlib.Data.String.Basic
import Mathlib.Tactic.SplitIfs

/-!
# Numbers with a limited number of digits

A format that keeps `p` digits of base `b` has a natural number only if nothing but zeros follows
its `p` leading digits. Any other number is rounded to the nearest one that the format has, and to
the even one of two that are equally near. A binary64 has 53 binary digits.

Written in decimal, such a number needs not all of its digits: it is enough to write so many that
the format, rounding, finds it again.

## Main definitions

* `Significant.roundTo` — the nearest multiple
* `Significant.Representable`, `Significant.round` — the numbers of a format, and rounding to them
* `Significant.shortest` — the fewest digits of another base
* `Binary64.ofNat`, `Binary64.ofInteger` — the double nearest to a natural number, and the one that
  its digits are read as
* `Binary64.text` — how a double is written

## Main results

* `Significant.round_nearest` — no number of the format is nearer
* `Significant.round_eq_self_iff` — rounding changes the numbers that the format does not have
* `Binary64.exists_mark` — no double is written like an integer
-/

namespace Significant

variable {b p u n m : ℕ}

/-! ### Multiples -/

/-- The multiple of `u` nearest to `n`; of two, the even one. -/
def roundTo (u n : ℕ) : ℕ :=
  if 2 * (n % u) < u ∨ 2 * (n % u) = u ∧ n / u % 2 = 0 then n / u * u else (n / u + 1) * u

theorem dvd_roundTo (u n : ℕ) : u ∣ roundTo u n := by
  rw [roundTo]
  split_ifs
  · exact Nat.dvd_mul_left u _
  · exact Nat.dvd_mul_left u _

/-- How far apart two numbers are. -/
def gap (m n : ℕ) : ℕ := (m - n) + (n - m)

/-- No multiple is nearer. -/
theorem gap_roundTo_le (hu : 0 < u) (h : u ∣ m) : gap (roundTo u n) n ≤ gap m n := by
  obtain ⟨k, rfl⟩ := h
  rw [Nat.mul_comm]
  have hn : n / u * u + n % u = n := Nat.div_add_mod' n u
  have hlt : n % u < u := Nat.mod_lt n hu
  have hsucc : (n / u + 1) * u = n / u * u + u := Nat.succ_mul _ _
  -- the multiple is one of the two around `n`, or further away
  have hk : k * u ≤ n / u * u ∨ n / u * u + u ≤ k * u := by
    rcases Nat.lt_or_ge (n / u) k with hk | hk
    · exact .inr (hsucc ▸ Nat.mul_le_mul_right u hk)
    · exact .inl (Nat.mul_le_mul_right u hk)
  rw [roundTo, gap, gap]
  split_ifs with h
  · omega
  · omega

theorem roundTo_eq_self_iff (hu : 0 < u) : roundTo u n = n ↔ u ∣ n := by
  constructor
  · intro h
    rw [← h]
    exact dvd_roundTo u n
  · intro h
    have hgap : gap (roundTo u n) n ≤ gap n n := gap_roundTo_le hu h
    simp only [gap] at hgap
    omega

/-! ### Formats -/

/-- The weight of the last of the `p` leading digits. -/
def weight (b p n : ℕ) : ℕ := b ^ (Nat.log b n + 1 - p)

/-- The numbers that `p` digits are enough for. -/
def Representable (b p n : ℕ) : Prop := weight b p n ∣ n

instance (b p n : ℕ) : Decidable (Representable b p n) := inferInstanceAs (Decidable (_ ∣ _))

/-- The nearest number with `p` digits. -/
def round (b p n : ℕ) : ℕ := roundTo (weight b p n) n

theorem weight_pos (hb : 1 < b) : 0 < weight b p n := Nat.pow_pos (by omega)

theorem round_eq_self_iff (hb : 1 < b) : round b p n = n ↔ Representable b p n :=
  roundTo_eq_self_iff (weight_pos hb)

/-- The power below `n` is among the numbers with `p` digits. -/
theorem weight_dvd_pow (hp : 0 < p) : weight b p n ∣ b ^ Nat.log b n :=
  Nat.pow_dvd_pow b (by omega)

/-- No number with `p` digits is nearer. -/
theorem round_nearest (hb : 1 < b) (hp : 0 < p) (h : Representable b p m) :
    gap (round b p n) n ≤ gap m n := by
  rcases Nat.lt_or_ge (Nat.log b m) (Nat.log b n) with hlog | hlog
  · -- what is shorter than `n` is below the power of its first digit
    have hn : n ≠ 0 := by
      rintro rfl
      simp at hlog
    have hm : m < b ^ Nat.log b n := Nat.lt_pow_of_log_lt hb hlog
    have hle : b ^ Nat.log b n ≤ n := Nat.pow_log_le_self b hn
    have hgap : gap (round b p n) n ≤ gap (b ^ Nat.log b n) n := 
      gap_roundTo_le (weight_pos hb) (weight_dvd_pow hp)
    simp only [gap] at hgap ⊢
    omega
  · have hdvd : weight b p n ∣ weight b p m := Nat.pow_dvd_pow b (by omega)
    exact gap_roundTo_le (weight_pos hb) (hdvd.trans h)

/-- A number with `p` digits is rounded to one. -/
theorem representable_round (hb : 1 < b) (hp : 0 < p) (n : ℕ) :
    Representable b p (round b p n) := by
  have hdvd : weight b p n ∣ round b p n := dvd_roundTo _ n
  have hhigh : round b p n ≤ b ^ (Nat.log b n + 1) := by
    have hn : n < b ^ (Nat.log b n + 1) := Nat.lt_pow_succ_log_self hb n
    have hpow : weight b p n ∣ b ^ (Nat.log b n + 1) := Nat.pow_dvd_pow b (by omega)
    have hgap : gap (round b p n) n ≤ gap (b ^ (Nat.log b n + 1)) n :=
      gap_roundTo_le (weight_pos hb) hpow
    simp only [gap] at hgap
    omega
  rcases Nat.lt_or_eq_of_le hhigh with hlt | heq
  · have hlog : Nat.log b (round b p n) ≤ Nat.log b n :=
      Nat.le_of_lt_succ (Nat.log_lt_of_lt_pow' (Nat.succ_ne_zero _) hlt)
    exact (Nat.pow_dvd_pow b (by omega)).trans hdvd
  · -- the digits have become one digit and zeros
    rw [Representable, weight, heq, Nat.log_pow hb]
    exact Nat.pow_dvd_pow b (by omega)

/-! ### Fewest digits -/

/-- The next number with `p` digits. -/
def above (b p n : ℕ) : ℕ := (n / weight b p n + 1) * weight b p n

/-- The candidates with one digit of base `b'`, two, and so on up to `most`, the first of which the
format takes for `n`. Next to a power of `b` the format is finer below than above, so that the
nearest candidate can miss where the one above does not. If there is none, all digits are
written. -/
def shortest (b p b' most n : ℕ) : ℕ :=
  (((List.range' 1 most).flatMap fun q => [round b' q n, above b' q n]).find? fun c =>
    round b p c = n).getD n

end Significant

namespace Binary64

open Significant

/-- The double nearest to a natural number. -/
def ofNat (n : ℕ) : ℕ := round 2 53 n

/-- The double that an integer is read as: as many leading digits as 64 bits hold are read exactly,
and then multiplied by a power of ten. -/
def ofInteger (n : ℕ) : ℕ :=
  let more := if n < 2 ^ 64 then 0 else Nat.log 10 (n / 2 ^ 64) + 1
  ofNat (ofNat (n / 10 ^ more) * ofNat (10 ^ more))

/-- A double that is a natural number: up to 16 digits with a point behind them, more digits with an
exponent. -/
def text (x : ℕ) : String :=
  let digits := Nat.toDigits 10 (shortest 2 53 10 17 x)
  if digits.length ≤ 16 then String.ofList (digits ++ ['.', '0'])
  else
    let exponent := 'e' :: '+' :: Nat.toDigits 10 (digits.length - 1)
    match (digits.reverse.dropWhile (· = '0')).reverse with
    | [] => String.ofList exponent
    | [d] => String.ofList (d :: exponent)
    | d :: ds => String.ofList (d :: '.' :: (ds ++ exponent))

example : text (ofInteger 18446744073709551617) = "1.8446744073709552e+19" := by decide +kernel

/-- A point or an exponent shows that it is no integer. -/
theorem exists_mark (x : ℕ) : ∃ c ∈ (text x).toList, c = '.' ∨ c = 'e' := by
  rw [text]
  dsimp only
  split_ifs
  · exact ⟨'.', by simp, .inl rfl⟩
  · split
    · exact ⟨'e', by simp, .inr rfl⟩
    · exact ⟨'e', by simp, .inr rfl⟩
    · exact ⟨'.', by simp, .inl rfl⟩

theorem representable_ofNat (n : ℕ) : Representable 2 53 (ofNat n) :=
  representable_round (by decide) (by decide) n

theorem representable_ofInteger (n : ℕ) : Representable 2 53 (ofInteger n) := by
  rw [ofInteger]
  exact representable_ofNat _

/-- What 64 bits hold is rounded once. -/
theorem ofInteger_of_lt {n : ℕ} (h : n < 2 ^ 64) : ofInteger n = ofNat n := by
  have hone : ofNat (10 ^ 0) = 1 := by decide
  have htwice : ofNat (ofNat n) = ofNat n :=
    (round_eq_self_iff (by decide)).mpr (representable_ofNat n)
  rw [ofInteger, if_pos h, hone, pow_zero, Nat.div_one, Nat.mul_one, htwice]

theorem ofNat_nearest {x : ℕ} (h : Representable 2 53 x) (n : ℕ) :
    gap (ofNat n) n ≤ gap x n := round_nearest (by decide) (by decide) h

/-- Of a number of 64 digits the last eleven have to be zeros. -/
theorem ofNat_eq_self_iff {n : ℕ} (hlow : 2 ^ 63 ≤ n) (hhigh : n < 2 ^ 64) :
    ofNat n = n ↔ 2048 ∣ n := by
  have hlog : Nat.log 2 n = 63 := (Nat.log_eq_iff (.inl (by decide))).mpr ⟨hlow, hhigh⟩
  have hweight : 2 ^ (63 + 1 - 53) = 2048 := rfl
  rw [ofNat, round_eq_self_iff (by decide), Representable, weight, hlog, hweight]

end Binary64
