import Mathlib.Algebra.Ring.Nat
import Mathlib.Data.Nat.NthRoot.Defs
import Mathlib.Data.Nat.Prime.Basic
import WazabiAgent.Lib.Binary

/-!
# SHA-256

The secure hash standard FIPS 180-4, as it defines SHA-256 of a message of whole bytes: a word has
32 bits and is added modulo `2 ^ 32`, a block has 16 words, and a hash value 8.

## Main definitions

* `Fips180.pad` — the padded message, a multiple of 64 bytes
* `Fips180.hashValue` — the intermediate hash values
* `Fips180.sha256` — the message digest

## Main results

* `hashValue_append` — the hash value of the first blocks does not depend on what follows them
-/

namespace Fips180

open Binary

/-! ### Words -/

/-- The word of four bytes, the highest first. -/
def word (bytes : List UInt8) : UInt32 := UInt32.ofNat (fromLeBytes bytes.reverse)

/-- The bytes of a word, the highest first. -/
def wordBytes (w : UInt32) : List UInt8 := (toLeBytes 4 w.toNat).reverse

/-- `ROTR`. -/
def rotr (n : ℕ) (x : UInt32) : UInt32 := ⟨x.toBitVec >>> n ||| x.toBitVec <<< (32 - n)⟩

/-- `SHR`. -/
def shr (n : ℕ) (x : UInt32) : UInt32 := ⟨x.toBitVec >>> n⟩

/-- The choice function: where `x` has a one, the bit of `y`, else that of `z`. -/
def ch (x y z : UInt32) : UInt32 := (x &&& y) ^^^ (~~~x &&& z)

/-- The majority function. -/
def maj (x y z : UInt32) : UInt32 := (x &&& y) ^^^ (x &&& z) ^^^ (y &&& z)

/-- `Σ₀`. -/
def bigSigma0 (x : UInt32) : UInt32 := rotr 2 x ^^^ rotr 13 x ^^^ rotr 22 x

/-- `Σ₁`. -/
def bigSigma1 (x : UInt32) : UInt32 := rotr 6 x ^^^ rotr 11 x ^^^ rotr 25 x

/-- `σ₀`. -/
def sigma0 (x : UInt32) : UInt32 := rotr 7 x ^^^ rotr 18 x ^^^ shr 3 x

/-- `σ₁`. -/
def sigma1 (x : UInt32) : UInt32 := rotr 17 x ^^^ rotr 19 x ^^^ shr 10 x

/-! ### Constants -/

/-- The 64 primes up to 311. -/
def primes : List ℕ := (List.range 312).filter (Nat.Prime ·)

/-- The first 32 bits of the fractional part of a root. -/
def rootBits (degree n : ℕ) : UInt32 := UInt32.ofNat (Nat.nthRoot degree (n * 2 ^ (32 * degree)))

/-- The constants of the rounds, from the cube roots of the primes. -/
def constants : List UInt32 := primes.map (rootBits 3)

/-! ### Compression -/

/-- A hash value, and the working variables. -/
structure Words8 where
  (a b c d e f g h : UInt32)

namespace Words8

/-- The words in order. -/
def toList (v : Words8) : List UInt32 := [v.a, v.b, v.c, v.d, v.e, v.f, v.g, v.h]

/-- The sums of the words in order. -/
def add (v w : Words8) : Words8 :=
  ⟨v.a + w.a, v.b + w.b, v.c + w.c, v.d + w.d, v.e + w.e, v.f + w.f, v.g + w.g, v.h + w.h⟩

theorem add_comm (v w : Words8) : v.add w = w.add v := by
  simp only [add, UInt32.add_comm]

end Words8

/-- The first hash value, from the square roots of the first eight primes. -/
def initial : Words8 :=
  ⟨rootBits 2 2, rootBits 2 3, rootBits 2 5, rootBits 2 7, rootBits 2 11, rootBits 2 13,
    rootBits 2 17, rootBits 2 19⟩

/-- The message schedule of a block. -/
def schedule (m : List UInt32) (t : ℕ) : UInt32 :=
  if t < 16 then m.getD t 0
  else
    sigma1 (schedule m (t - 2)) + schedule m (t - 7) + sigma0 (schedule m (t - 15))
      + schedule m (t - 16)
termination_by t

/-- One round, with its constant and its word of the schedule. -/
def round (k w : UInt32) (v : Words8) : Words8 :=
  let t1 := v.h + bigSigma1 v.e + ch v.e v.f v.g + k + w
  let t2 := bigSigma0 v.a + maj v.a v.b v.c
  ⟨t1 + t2, v.a, v.b, v.c, v.d + t1, v.e, v.f, v.g⟩

/-- The working variables after the rounds `0`, …, `n - 1`. -/
def rounds (m : List UInt32) (v : Words8) : ℕ → Words8
  | 0 => v
  | n + 1 => round (constants.getD n 0) (schedule m n) (rounds m v n)

/-- The next hash value, from the words of a block. -/
def compress (m : List UInt32) (v : Words8) : Words8 := (rounds m v 64).add v

/-! ### Messages -/

/-- So many bytes of zeros that the length, in eight bytes, ends a block. -/
def zeros (length : ℕ) : ℕ := (119 - length % 64) % 64

/-- The message with its padding, a whole number of blocks. -/
def pad (msg : List UInt8) : List UInt8 :=
  msg ++ 0x80 :: (List.replicate (zeros msg.length) 0 ++ (toLeBytes 8 (8 * msg.length)).reverse)

/-- A block of a message, counted from zero. -/
def block (msg : List UInt8) (i : ℕ) : List UInt8 := (msg.drop (64 * i)).take 64

/-- The words of a block. -/
def words (bytes : List UInt8) : List UInt32 :=
  (List.range 16).map fun t => word ((bytes.drop (4 * t)).take 4)

/-- The hash value of the first `n` blocks. -/
def hashValue (msg : List UInt8) : ℕ → Words8
  | 0 => initial
  | n + 1 => compress (words (block msg n)) (hashValue msg n)

/-- The digest of a message. -/
def sha256 (msg : List UInt8) : List UInt8 :=
  (hashValue (pad msg) ((pad msg).length / 64)).toList.flatMap wordBytes

/-! ### The constants, computed -/

/-- Trial division by the numbers up to 17. -/
def isPrime (n : ℕ) : Bool :=
  2 ≤ n && (List.range 18).all fun m => m < 2 || n ≤ m || n % m != 0

theorem isPrime_iff {n : ℕ} (h : n < 18 * 18) : isPrime n = true ↔ n.Prime := by
  simp only [isPrime, Bool.and_eq_true, decide_eq_true_eq, List.all_eq_true, List.mem_range,
    Bool.or_eq_true, bne_iff_ne, ne_eq]
  constructor
  · rintro ⟨htwo, htrial⟩
    rw [Nat.prime_def_le_sqrt]
    refine ⟨htwo, fun m hm hle hdvd => ?_⟩
    have hsq : m * m ≤ n := Nat.le_sqrt.mp hle
    have hlt : m < 18 := by
      by_contra hge
      have hbig : 18 * 18 ≤ m * m := Nat.mul_le_mul (by omega) (by omega)
      omega
    have hself : m < n := by
      have hdouble : 2 * m ≤ m * m := Nat.mul_le_mul_right m hm
      omega
    rcases htrial m hlt with (hsmall | hbig) | hrem
    · omega
    · omega
    · exact hrem (Nat.mod_eq_zero_of_dvd hdvd)
  · intro hp
    refine ⟨hp.two_le, fun m _ => ?_⟩
    by_cases hsmall : m < 2
    · exact .inl (.inl hsmall)
    by_cases hbig : n ≤ m
    · exact .inl (.inr hbig)
    refine .inr fun hrem => ?_
    rcases hp.eq_one_or_self_of_dvd m (Nat.dvd_of_mod_eq_zero hrem) with hone | hself <;> omega

theorem primes_eq : primes = (List.range 312).filter isPrime := by
  refine List.filter_congr fun n hn => ?_
  have hlt : n < 18 * 18 := by
    have := List.mem_range.mp hn
    omega
  rw [Bool.eq_iff_iff, isPrime_iff hlt, decide_eq_true_iff]

/-! ### Blocks -/

theorem schedule_of_lt {m : List UInt32} {t : ℕ} (h : t < 16) : schedule m t = m.getD t 0 := by
  rw [schedule, if_pos h]

theorem schedule_of_ge {m : List UInt32} {t : ℕ} (h : 16 ≤ t) :
    schedule m t
      = sigma1 (schedule m (t - 2)) + schedule m (t - 7) + sigma0 (schedule m (t - 15))
        + schedule m (t - 16) := by
  rw [schedule, if_neg (by omega)]

theorem block_append {msg : List UInt8} {i : ℕ} (h : 64 * (i + 1) ≤ msg.length)
    (rest : List UInt8) : block (msg ++ rest) i = block msg i := by
  have hdrop : 64 ≤ (msg.drop (64 * i)).length := by
    rw [List.length_drop]
    omega
  rw [block, List.drop_append_of_le_length (by omega), List.take_append_of_le_length hdrop, block]

/-- A block that follows whole blocks. -/
theorem block_of_append {done b rest : List UInt8} {i : ℕ} (hdone : done.length = 64 * i)
    (hb : b.length = 64) : block (done ++ (b ++ rest)) i = b := by
  rw [block, ← hdone, List.drop_left, ← hb, List.take_left]

/-- What follows the first blocks does not change their hash value. -/
theorem hashValue_append {msg : List UInt8} {n : ℕ} (h : 64 * n ≤ msg.length)
    (rest : List UInt8) : hashValue (msg ++ rest) n = hashValue msg n := by
  induction n with
  | zero => rfl
  | succ n ih => rw [hashValue, hashValue, block_append h, ih (by omega)]

/-- The blocks of a message, and one more. -/
theorem hashValue_block {done b : List UInt8} {n : ℕ} (hdone : done.length = 64 * n)
    (hb : b.length = 64) (rest : List UInt8) :
    hashValue (done ++ (b ++ rest)) (n + 1) = compress (words b) (hashValue done n) := by
  rw [hashValue, block_of_append hdone hb, hashValue_append (by omega)]

end Fips180
