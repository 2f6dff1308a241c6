import Mathlib.Algebra.Ring.Int.Defs
import Mathlib.Algebra.Ring.Nat
import Mathlib.Data.List.Basic

/-!
# Packed binary records

Reading a packed record field after field, numbers in little-endian order, and texts in UTF-16.
A `Reader` does not check for the end of its bytes: a caller compares lengths first. How many bytes
it takes is its `Width`, and what it makes of the bytes of a value is `Reads`. Both are composed
field by field.

FNV-1a, the digest of bytes in 64 bits.

## Main results

* `Width.bind`, `Reads.bind` — records from their fields
* `utf16Lossy_encodeUtf16` — a text survives UTF-16
-/

namespace Binary

/-- `from_le_bytes`, for any width. -/
def fromLeBytes (bytes : List UInt8) : ℕ := bytes.foldr (fun b n => b.toNat + 256 * n) 0

/-- `to_le_bytes`, in a given width. -/
def toLeBytes : ℕ → ℕ → List UInt8
  | 0, _ => []
  | w + 1, n => UInt8.ofNat n :: toLeBytes w (n / 256)

@[simp] theorem length_toLeBytes (w n : ℕ) : (toLeBytes w n).length = w := by
  induction w generalizing n with
  | zero => rfl
  | succ w ih => rw [toLeBytes, List.length_cons, ih]

theorem fromLeBytes_toLeBytes {w n : ℕ} (h : n < 256 ^ w) : fromLeBytes (toLeBytes w n) = n := by
  induction w generalizing n with
  | zero =>
    obtain rfl : n = 0 := by simpa using h
    rfl
  | succ w ih =>
    have hdiv : n / 256 < 256 ^ w := Nat.div_lt_of_lt_mul (by rwa [Nat.pow_succ'] at h)
    have hrest : fromLeBytes (toLeBytes w (n / 256)) = n / 256 := ih hdiv
    rw [toLeBytes, fromLeBytes, List.foldr_cons, ← fromLeBytes, hrest, UInt8.toNat_ofNat']
    exact Nat.mod_add_div n 256

/-- Two's complement of the given modulus. -/
def toSigned (modulus n : ℕ) : Int := if n < modulus / 2 then n else n - modulus

/-- The number that stands for `i` in two's complement. -/
def ofSigned (modulus : ℕ) (i : Int) : ℕ := (i % modulus).toNat

theorem ofSigned_lt {modulus : ℕ} (h : 0 < modulus) (i : Int) : ofSigned modulus i < modulus := by
  have hlt : i % modulus < modulus := Int.emod_lt_of_pos i (by omega)
  have hnn : 0 ≤ i % modulus := Int.emod_nonneg i (by omega)
  rw [ofSigned]
  omega

theorem toSigned_ofSigned {half : ℕ} {i : Int} (hlow : -half ≤ i) (hhigh : i < half) :
    toSigned (2 * half) (ofSigned (2 * half) i) = i := by
  have hhalf : 2 * half / 2 = half := by omega
  rw [toSigned]
  rw [hhalf]
  by_cases hneg : i < 0
  · have hmod : i % (2 * half : ℕ) = i + (2 * half : ℕ) := by
      rw [← Int.add_emod_right, Int.emod_eq_of_lt (by omega) (by omega)]
    have hval : (ofSigned (2 * half) i : Int) = i + (2 * half : ℕ) := by
      rw [ofSigned]
      omega
    rw [if_neg (by omega)]
    omega
  · have hmod : i % (2 * half : ℕ) = i := Int.emod_eq_of_lt (by omega) (by omega)
    have hval : (ofSigned (2 * half) i : Int) = i := by
      rw [ofSigned]
      omega
    rw [if_pos (by omega)]
    exact hval

/-- A reader of bytes from the front of a list. -/
abbrev Reader (α : Type) := StateM (List UInt8) α

namespace Reader

/-- The next `n` bytes, or what is left of them. -/
def bytes (n : ℕ) : Reader (List UInt8) := fun buf => (buf.take n, buf.drop n)

/-- An unsigned number of two bytes. -/
def u16 : Reader ℕ := fromLeBytes <$> bytes 2

/-- An unsigned number of four bytes. -/
def u32 : Reader ℕ := fromLeBytes <$> bytes 4

/-- An unsigned number of eight bytes. -/
def u64 : Reader ℕ := fromLeBytes <$> bytes 8

/-- A signed number of four bytes. -/
def i32 : Reader Int := toSigned UInt32.size <$> u32

/-- A signed number of eight bytes. -/
def i64 : Reader Int := toSigned UInt64.size <$> u64

/-- `[u16; n]`. -/
def u16s : ℕ → Reader (List ℕ)
  | 0 => pure []
  | n + 1 => do
    let x ← u16
    let xs ← u16s n
    return x :: xs

variable {α β : Type} {n m : ℕ} {r : Reader α} {f : α → Reader β}

/-! #### Widths -/

/-- The reader takes `n` bytes, and looks at no others. -/
def Width (n : ℕ) (r : Reader α) : Prop :=
  ∀ buf, r.run buf = ((r.run (buf.take n)).1, buf.drop n)

theorem width_pure (a : α) : Width 0 (pure a : Reader α) := fun _ => rfl

theorem width_bytes (n : ℕ) : Width n (bytes n) := by
  intro buf
  change (buf.take n, buf.drop n) = ((buf.take n).take n, buf.drop n)
  rw [List.take_take, Nat.min_self]

theorem Width.bind (hr : Width n r) (hf : ∀ a, Width m (f a)) : Width (n + m) (r >>= f) := by
  intro buf
  have hstep (b : List UInt8) : (r >>= f).run b = (f (r.run b).1).run (r.run b).2 := rfl
  have htake : ((r.run (buf.take (n + m))).1, (r.run (buf.take (n + m))).2)
      = ((r.run (buf.take n)).1, (buf.drop n).take m) := by
    rw [hr (buf.take (n + m)), List.take_take, Nat.min_eq_left (Nat.le_add_right n m),
      List.drop_take, Nat.add_sub_cancel_left]
  rw [hstep, hstep, (Prod.mk.inj htake).1, (Prod.mk.inj htake).2, hr buf, hf _ (buf.drop n),
    List.drop_drop]

theorem Width.of_eq (hr : Width n r) (h : n = m) : Width m r := h ▸ hr

theorem Width.map (hr : Width n r) (g : α → β) : Width n (g <$> r) := by
  rw [map_eq_pure_bind]
  exact hr.bind fun a => width_pure (g a)

theorem width_u16 : Width 2 u16 := (width_bytes 2).map _

theorem width_u32 : Width 4 u32 := (width_bytes 4).map _

theorem width_u64 : Width 8 u64 := (width_bytes 8).map _

theorem width_i32 : Width 4 i32 := width_u32.map _

theorem width_i64 : Width 8 i64 := width_u64.map _

theorem width_u16s (n : ℕ) : Width (2 * n) (u16s n) := by
  induction n with
  | zero => exact width_pure []
  | succ n ih =>
    rw [Nat.mul_succ, Nat.add_comm]
    exact width_u16.bind fun x => ih.map _

/-! #### Reading what was written -/

/-- The reader makes `a` of the bytes `bs`, whatever follows them. -/
def Reads (r : Reader α) (bs : List UInt8) (a : α) : Prop := ∀ rest, r.run (bs ++ rest) = (a, rest)

theorem reads_pure (a : α) : Reads (pure a) [] a := fun _ => rfl

theorem Reads.bind {a : α} {b : β} {bs cs : List UInt8} (hr : Reads r bs a)
    (hf : Reads (f a) cs b) : Reads (r >>= f) (bs ++ cs) b := by
  intro rest
  have hstep : (r >>= f).run (bs ++ cs ++ rest)
      = (f (r.run (bs ++ cs ++ rest)).1).run (r.run (bs ++ cs ++ rest)).2 := rfl
  rw [hstep, List.append_assoc, hr (cs ++ rest)]
  exact hf rest

theorem Reads.map {a : α} {bs : List UInt8} (hr : Reads r bs a) (g : α → β) :
    Reads (g <$> r) bs (g a) := by
  rw [map_eq_pure_bind, ← List.append_nil bs]
  exact hr.bind (reads_pure (g a))

/-- A reader of a fixed width reads values of that width. -/
theorem Reads.length_eq {a : α} {bs : List UInt8} (hr : Reads r bs a) (hw : Width n r) :
    bs.length = n := by
  -- what is left behind the first `n` bytes is what is left behind `bs`
  have hrest : (bs ++ List.replicate n 0).drop n = List.replicate n 0 :=
    (Prod.mk.inj ((hw _).symm.trans (hr _))).2
  have hlen := congrArg List.length hrest
  rw [List.length_drop, List.length_append, List.length_replicate] at hlen
  omega

theorem reads_bytes (bs : List UInt8) : Reads (bytes bs.length) bs bs := by
  intro rest
  change ((bs ++ rest).take bs.length, (bs ++ rest).drop bs.length) = (bs, rest)
  rw [List.take_left, List.drop_left]

/-- A number in little-endian order. -/
theorem reads_le {w n : ℕ} (h : n < 256 ^ w) :
    Reads (fromLeBytes <$> bytes w) (toLeBytes w n) n := by
  have hread := (reads_bytes (toLeBytes w n)).map fromLeBytes
  rwa [length_toLeBytes, fromLeBytes_toLeBytes h] at hread

theorem reads_u16 {n : ℕ} (h : n < 2 ^ 16) : Reads u16 (toLeBytes 2 n) n := reads_le h

theorem reads_u32 {n : ℕ} (h : n < 2 ^ 32) : Reads u32 (toLeBytes 4 n) n := reads_le h

theorem reads_u64 {n : ℕ} (h : n < 2 ^ 64) : Reads u64 (toLeBytes 8 n) n := reads_le h

theorem reads_i32 {i : Int} (hlow : -2 ^ 31 ≤ i) (hhigh : i < 2 ^ 31) :
    Reads i32 (toLeBytes 4 (ofSigned (2 ^ 32) i)) i := by
  have hread := (reads_u32 (ofSigned_lt (by decide) i)).map (toSigned (2 ^ 32))
  rwa [show (2 : ℕ) ^ 32 = 2 * 2 ^ 31 by decide, toSigned_ofSigned hlow hhigh] at hread

theorem reads_i64 {i : Int} (hlow : -2 ^ 63 ≤ i) (hhigh : i < 2 ^ 63) :
    Reads i64 (toLeBytes 8 (ofSigned (2 ^ 64) i)) i := by
  have hread := (reads_u64 (ofSigned_lt (by decide) i)).map (toSigned (2 ^ 64))
  rwa [show (2 : ℕ) ^ 64 = 2 * 2 ^ 63 by decide, toSigned_ofSigned hlow hhigh] at hread

theorem reads_u16s {xs : List ℕ} (h : ∀ x ∈ xs, x < 2 ^ 16) :
    Reads (u16s xs.length) (xs.flatMap (toLeBytes 2)) xs := by
  induction xs with
  | nil => exact reads_pure []
  | cons x xs ih =>
    have hx := reads_u16 (h x List.mem_cons_self)
    exact hx.bind ((ih fun y hy => h y (List.mem_cons_of_mem x hy)).map (x :: ·))

end Reader

/-- A packed struct: how its fields are read, and how many bytes they take. -/
structure Packed (α : Type) where
  size : ℕ
  read : Reader α
  width : Reader.Width size read

/-- `char::REPLACEMENT_CHARACTER`. -/
def replacement : Char := '\uFFFD'

/-- `String::from_utf16_lossy`: half of a surrogate pair that lacks the other half is replaced. -/
def utf16Lossy : List ℕ → List Char
  | [] => []
  | [u] => [if 0xD800 ≤ u ∧ u < 0xE000 then replacement else Char.ofNat u]
  | u :: v :: rest =>
    if 0xD800 ≤ u ∧ u < 0xDC00 ∧ 0xDC00 ≤ v ∧ v < 0xE000 then
      Char.ofNat (0x10000 + (u - 0xD800) * 0x400 + (v - 0xDC00)) :: utf16Lossy rest
    else if 0xD800 ≤ u ∧ u < 0xE000 then replacement :: utf16Lossy (v :: rest)
    else Char.ofNat u :: utf16Lossy (v :: rest)

example : utf16Lossy [0x41, 0xD83D, 0xDE00, 0xD800] = ['A', '😀', replacement] := by decide

/-- `char::encode_utf16`. -/
def encodeUtf16Char (c : Char) : List ℕ :=
  if c.toNat < 0x10000 then [c.toNat]
  else [0xD800 + (c.toNat - 0x10000) / 0x400, 0xDC00 + (c.toNat - 0x10000) % 0x400]

/-- The UTF-16 units of a text. -/
def encodeUtf16 (cs : List Char) : List ℕ := cs.flatMap encodeUtf16Char

theorem toNat_lt (c : Char) : c.toNat < 0x110000 := by
  have hvalid : c.toNat < 0xD800 ∨ 0xDFFF < c.toNat ∧ c.toNat < 0x110000 := c.valid
  omega

theorem lt_of_mem_encodeUtf16 {u : ℕ} {cs : List Char} (h : u ∈ encodeUtf16 cs) : u < 2 ^ 16 := by
  obtain ⟨c, -, hu⟩ := List.mem_flatMap.mp h
  have hmax := toNat_lt c
  unfold encodeUtf16Char at hu
  split_ifs at hu with hbmp
  · rw [List.mem_singleton] at hu
    omega
  · rcases List.mem_pair.mp hu with hu | hu
    · omega
    · omega

theorem utf16Lossy_cons {u : ℕ} (h : ¬ (0xD800 ≤ u ∧ u < 0xE000)) (rest : List ℕ) :
    utf16Lossy (u :: rest) = Char.ofNat u :: utf16Lossy rest := by
  cases rest with
  | nil => simp only [utf16Lossy, if_neg h]
  | cons v rest => rw [utf16Lossy, if_neg (by omega), if_neg h]

theorem utf16Lossy_pair {hi lo : ℕ} (hhi : hi < 0x400) (hlo : lo < 0x400) (rest : List ℕ) :
    utf16Lossy ((0xD800 + hi) :: (0xDC00 + lo) :: rest)
      = Char.ofNat (0x10000 + hi * 0x400 + lo) :: utf16Lossy rest := by
  rw [utf16Lossy, if_pos (by omega), Nat.add_sub_cancel_left, Nat.add_sub_cancel_left]

theorem not_surrogate (c : Char) : ¬ (0xD800 ≤ c.toNat ∧ c.toNat < 0xE000) := by
  have hvalid : c.toNat < 0xD800 ∨ 0xDFFF < c.toNat ∧ c.toNat < 0x110000 := c.valid
  omega

theorem utf16Lossy_encodeUtf16Char (c : Char) (rest : List ℕ) :
    utf16Lossy (encodeUtf16Char c ++ rest) = c :: utf16Lossy rest := by
  unfold encodeUtf16Char
  split_ifs with hbmp
  · rw [List.singleton_append, utf16Lossy_cons (not_surrogate c), Char.ofNat_toNat]
  · have hmax := toNat_lt c
    have hpair : 0x10000 + (c.toNat - 0x10000) / 0x400 * 0x400 + (c.toNat - 0x10000) % 0x400
        = c.toNat := by omega
    rw [List.cons_append, List.singleton_append, utf16Lossy_pair (by omega) (by omega), hpair,
      Char.ofNat_toNat]

/-- A text survives UTF-16. -/
theorem utf16Lossy_encodeUtf16 (cs : List Char) : utf16Lossy (encodeUtf16 cs) = cs := by
  induction cs with
  | nil => rfl
  | cons c cs ih =>
    change utf16Lossy (encodeUtf16Char c ++ encodeUtf16 cs) = c :: cs
    rw [utf16Lossy_encodeUtf16Char, ih]

/-! ### Digests -/

/-- The offset basis. -/
def fnvOffset : UInt64 := 0xcbf29ce484222325

/-- FNV-1a, continued from a digest. -/
def fnv1a (h : UInt64) (bytes : List UInt8) : UInt64 :=
  bytes.foldl (fun h b => (h ^^^ b.toUInt64) * 0x100000001b3) h

/-- Of `foobar`. -/
example : fnv1a fnvOffset [0x66, 0x6F, 0x6F, 0x62, 0x61, 0x72] = 0x85944171f73967e8 := by decide

end Binary
