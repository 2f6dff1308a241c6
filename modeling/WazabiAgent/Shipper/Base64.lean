import WazabiAgent.Lib.Base64
import WazabiAgent.Shipper.Config

/-!
# Base64 as the shipper decodes it

`b64_decode` takes the text in groups of four. It counts the padding of a group, and does not look
where in the group it is, or where in the text the group is.

## Main definitions

* `cleaned` — the text without white space

## Main results

* `b64_decode_encode` — decoding undoes encoding
* `b64_accepts_standard_iff` — the texts that are decoded as base64 or refused
-/

namespace WazabiAgent

namespace Shipper

/-- The bytes of a text without white space. -/
def cleaned (s : String) : List UInt8 := s.toUTF8.toList.filter fun b => !isAsciiWhitespace b

variable {cs bytes : List UInt8}

theorem b64Decode_eq (s : String) :
    b64Decode s = if (cleaned s).length % 4 ≠ 0 then .error "base64: length not a multiple of 4"
      else b64Chunks (cleaned s) := rfl

/-! ### Characters -/

theorem b64Digit_symbol {n : ℕ} (h : n < 64) : b64Digit (Base64.symbol n) = some n := by
  have hall : ∀ n < 64, b64Digit (Base64.symbol n) = some n := by decide +kernel
  exact hall n h

theorem b64Digit_padding : b64Digit Base64.padding = some 0 := rfl

/-- What is read as a digit is its symbol, or the padding sign. -/
theorem eq_symbol_of_b64Digit {c : UInt8} {digit : ℕ} (h : b64Digit c = some digit) :
    c = Base64.padding ∨ (digit < 64 ∧ c = Base64.symbol digit) := by
  have hall : ∀ n < 256, ∀ digit ∈ b64Digit (UInt8.ofNat n), UInt8.ofNat n = Base64.padding ∨
      (digit < 64 ∧ UInt8.ofNat n = Base64.symbol digit) := by decide +kernel
  have hc := hall c.toNat c.toNat_lt
  rw [UInt8.ofNat_toNat] at hc
  exact hc digit h

/-- The digits are the symbols and the padding sign. -/
theorem isSome_b64Digit (c : UInt8) :
    (b64Digit c).isSome = true ↔ c ∈ Base64.symbols ∨ c = Base64.padding := by
  rw [Option.isSome_iff_exists]
  constructor
  · rintro ⟨digit, hdigit⟩
    obtain h | ⟨hlt, rfl⟩ := eq_symbol_of_b64Digit hdigit
    · exact .inr h
    · exact .inl (Base64.symbol_mem hlt)
  · rintro (h | rfl)
    · obtain ⟨n, hn, rfl⟩ := List.mem_map.mp h
      exact ⟨n, b64Digit_symbol (List.mem_range.mp hn)⟩
    · exact ⟨0, b64Digit_padding⟩

/-! ### Groups -/

/-- The bytes of a group of digits, with this much padding. -/
def groupBytes (digits : List ℕ) (pad : ℕ) : List UInt8 :=
  let n := digits.foldl (fun n digit => 64 * n + digit) 0
  [UInt8.ofNat (n / 65536)] ++ (if pad < 2 then [UInt8.ofNat (n / 256)] else []) ++
    (if pad < 1 then [UInt8.ofNat n] else [])

theorem length_groupBytes {digits : List ℕ} {pad : ℕ} (h : pad ≤ 2) :
    (groupBytes digits pad).length + pad = 3 := by
  obtain rfl | rfl | rfl : pad = 0 ∨ pad = 1 ∨ pad = 2 := by omega
  · rfl
  · rfl
  · rfl

theorem count_padding (cs : List UInt8) :
    (cs.countP fun x => x.toNat = 61) = cs.count Base64.padding := by
  refine List.countP_congr fun x _ => ?_
  rw [decide_eq_true_iff, beq_iff_eq]
  exact ⟨fun h => UInt8.toNat_inj.mp h, fun h => congrArg UInt8.toNat h⟩

/-- A group that is decoded, and what follows. -/
theorem b64Chunks_group {a b c d : UInt8} {digits : List ℕ}
    (h : [a, b, c, d].mapM b64Digit = some digits) (rest : List UInt8) :
    b64Chunks (a :: b :: c :: d :: rest)
      = (b64Chunks rest).map fun bytes =>
        groupBytes digits ([a, b, c, d].count Base64.padding) ++ bytes := by
  rw [b64Chunks, h]
  simp only [count_padding]
  cases b64Chunks rest <;> rfl

/-- A group that is not. -/
theorem b64Chunks_invalid {a b c d : UInt8} (h : [a, b, c, d].mapM b64Digit = none)
    (rest : List UInt8) :
    b64Chunks (a :: b :: c :: d :: rest) = .error "base64: invalid byte" := by
  rw [b64Chunks, h]
  rfl

/-! ### Decoding what was encoded -/

theorem count_symbol {n : ℕ} (h : n < 64) (cs : List UInt8) :
    (Base64.symbol n :: cs).count Base64.padding = cs.count Base64.padding := by
  have hne : Base64.symbol n ≠ Base64.padding :=
    fun heq => Base64.padding_not_mem (heq ▸ Base64.symbol_mem h)
  exact List.count_cons_of_ne hne

theorem ofNat_eq {n : ℕ} {b : UInt8} (h : n % 256 = b.toNat) : UInt8.ofNat n = b :=
  UInt8.toNat_inj.mp (by rw [UInt8.toNat_ofNat', h])

variable {a b c : UInt8} {x y z w : ℕ}

/-- One byte, two symbols. -/
theorem b64Chunks_one (hx : x < 64) (hy : y < 64) (h : 64 * x + y = 16 * a.toNat) :
    b64Chunks [Base64.symbol x, Base64.symbol y, Base64.padding, Base64.padding] = .ok [a] := by
  have hdigits : [Base64.symbol x, Base64.symbol y, Base64.padding, Base64.padding].mapM b64Digit
      = some [x, y, 0, 0] := by
    simp [b64Digit_symbol, b64Digit_padding, hx, hy]
  have hfirst : UInt8.ofNat ((64 * (64 * (64 * (64 * 0 + x) + y) + 0) + 0) / 65536) = a := by
    have ha : a.toNat < 256 := a.toNat_lt
    exact ofNat_eq (by omega)
  have hbytes : groupBytes [x, y, 0, 0] 2 = [a] := congrArg (fun byte => [byte]) hfirst
  rw [b64Chunks_group hdigits, count_symbol hx, count_symbol hy]
  show Except.ok (groupBytes [x, y, 0, 0] 2 ++ []) = _
  rw [hbytes]
  rfl

/-- Two bytes, three symbols. -/
theorem b64Chunks_two (hx : x < 64) (hy : y < 64) (hz : z < 64)
    (h : 4096 * x + 64 * y + z = 1024 * a.toNat + 4 * b.toNat) :
    b64Chunks [Base64.symbol x, Base64.symbol y, Base64.symbol z, Base64.padding] = .ok [a, b] := by
  have hdigits : [Base64.symbol x, Base64.symbol y, Base64.symbol z, Base64.padding].mapM b64Digit
      = some [x, y, z, 0] := by
    simp [b64Digit_symbol, b64Digit_padding, hx, hy, hz]
  have ha : a.toNat < 256 := a.toNat_lt
  have hb : b.toNat < 256 := b.toNat_lt
  have hfirst : UInt8.ofNat ((64 * (64 * (64 * (64 * 0 + x) + y) + z) + 0) / 65536) = a :=
    ofNat_eq (by omega)
  have hsecond : UInt8.ofNat ((64 * (64 * (64 * (64 * 0 + x) + y) + z) + 0) / 256) = b :=
    ofNat_eq (by omega)
  have hbytes : groupBytes [x, y, z, 0] 1 = [a, b] :=
    congrArg₂ (fun first second => [first, second]) hfirst hsecond
  rw [b64Chunks_group hdigits, count_symbol hx, count_symbol hy, count_symbol hz]
  show Except.ok (groupBytes [x, y, z, 0] 1 ++ []) = _
  rw [hbytes]
  rfl

/-- Three bytes, four symbols. -/
theorem b64Chunks_three (hx : x < 64) (hy : y < 64) (hz : z < 64) (hw : w < 64)
    (h : 262144 * x + 4096 * y + 64 * z + w = 65536 * a.toNat + 256 * b.toNat + c.toNat)
    (rest : List UInt8) :
    b64Chunks (Base64.symbol x :: Base64.symbol y :: Base64.symbol z :: Base64.symbol w :: rest)
      = (b64Chunks rest).map fun bytes => a :: b :: c :: bytes := by
  have hdigits : [Base64.symbol x, Base64.symbol y, Base64.symbol z, Base64.symbol w].mapM b64Digit
      = some [x, y, z, w] := by
    simp [b64Digit_symbol, hx, hy, hz, hw]
  have ha : a.toNat < 256 := a.toNat_lt
  have hb : b.toNat < 256 := b.toNat_lt
  have hc : c.toNat < 256 := c.toNat_lt
  have hfirst : UInt8.ofNat ((64 * (64 * (64 * (64 * 0 + x) + y) + z) + w) / 65536) = a :=
    ofNat_eq (by omega)
  have hsecond : UInt8.ofNat ((64 * (64 * (64 * (64 * 0 + x) + y) + z) + w) / 256) = b :=
    ofNat_eq (by omega)
  have hthird : UInt8.ofNat (64 * (64 * (64 * (64 * 0 + x) + y) + z) + w) = c :=
    ofNat_eq (by omega)
  have hbytes : groupBytes [x, y, z, w] 0 = [a, b, c] := by
    rw [← hfirst, ← hsecond, ← hthird]
    rfl
  rw [b64Chunks_group hdigits, count_symbol hx, count_symbol hy, count_symbol hz, count_symbol hw,
    List.count_nil, hbytes]
  rfl

theorem b64Chunks_encode (bytes : List UInt8) : b64Chunks (Base64.encode bytes) = .ok bytes := by
  have hlt (byte : UInt8) : byte.toNat < 256 := byte.toNat_lt
  induction bytes using Base64.encode.induct with
  | case1 => rfl
  | case2 a =>
    have ha := hlt a
    rw [Base64.encode]
    exact b64Chunks_one (by omega) (by omega) (by omega)
  | case3 a b =>
    have ha := hlt a
    have hb := hlt b
    rw [Base64.encode]
    exact b64Chunks_two (by omega) (by omega) (by omega) (by omega)
  | case4 a b c rest ih =>
    have ha := hlt a
    have hb := hlt b
    have hc := hlt c
    rw [Base64.encode, b64Chunks_three (a := a) (b := b) (c := c) (by omega) (by omega) (by omega)
      (by omega) (by omega), ih]
    rfl

/-- **Decoding undoes encoding**, whatever white space is put into the text. -/
theorem b64_decode_encode {s : String} {bytes : List UInt8}
    (h : cleaned s = Base64.encode bytes) : b64Decode s = .ok bytes := by
  rw [b64Decode_eq, h, if_neg (not_not.mpr (Base64.length_encode_mod bytes))]
  exact b64Chunks_encode bytes

/-- In two lines. -/
theorem b64_decode_lines :
    b64Decode "TWFu\r\n eSBoYW5kcw ==\n" = .ok "Many hands".toUTF8.toList :=
  b64_decode_encode (by decide +kernel)

/-! ### What is accepted -/

/-- An induction over the groups of a text. -/
theorem groups_induction {P : List UInt8 → Prop} (hnil : P [])
    (hgroup : ∀ a b c d rest, P rest → P (a :: b :: c :: d :: rest)) :
    ∀ cs : List UInt8, cs.length % 4 = 0 → P cs
  | [], _ => hnil
  | [_], h => by simp at h
  | [_, _], h => by simp at h
  | [_, _, _], h => by simp at h
  | a :: b :: c :: d :: rest, h => by
    have hrest : rest.length % 4 = 0 := by
      simp only [List.length_cons] at h
      omega
    exact hgroup a b c d rest (groups_induction hnil hgroup rest hrest)

theorem mapM_digits (cs : List UInt8) : (cs.mapM b64Digit).isSome = true ↔
    ∀ c ∈ cs, c ∈ Base64.symbols ∨ c = Base64.padding := by
  simp only [← isSome_b64Digit]
  induction cs with
  | nil => simp
  | cons c cs ih =>
    rw [List.mapM_cons, List.forall_mem_cons, ← ih]
    cases b64Digit c with
    | none => simp
    | some digit => cases cs.mapM b64Digit <;> simp

/-- Every text of whole groups of digits is decoded. -/
theorem b64Chunks_ok_iff (h : cs.length % 4 = 0) :
    (∃ bytes, b64Chunks cs = .ok bytes) ↔ ∀ c ∈ cs, c ∈ Base64.symbols ∨ c = Base64.padding := by
  refine groups_induction (P := fun cs => (∃ bytes, b64Chunks cs = .ok bytes) ↔
    ∀ c ∈ cs, c ∈ Base64.symbols ∨ c = Base64.padding) ?_ ?_ cs h
  · exact iff_of_true ⟨[], rfl⟩ fun c hc => absurd hc List.not_mem_nil
  · intro a b c d rest ih
    have happend : a :: b :: c :: d :: rest = [a, b, c, d] ++ rest := rfl
    rw [happend, List.forall_mem_append, ← mapM_digits, ← ih, ← happend]
    cases hdigits : [a, b, c, d].mapM b64Digit with
    | none => simp [b64Chunks_invalid hdigits]
    | some digits =>
      rw [b64Chunks_group hdigits]
      cases b64Chunks rest with
      | error e => simp [Except.map]
      | ok bytes => simp [Except.map]

/-- With no more than two padding signs in a group, each takes a byte away. -/
theorem length_b64Chunks (h : cs.length % 4 = 0) (hpad : cs.count Base64.padding ≤ 2)
    (hok : b64Chunks cs = .ok bytes) :
    bytes.length + cs.count Base64.padding = 3 * (cs.length / 4) := by
  revert hpad bytes
  refine groups_induction (P := fun cs => ∀ {bytes}, cs.count Base64.padding ≤ 2 →
    b64Chunks cs = .ok bytes →
      bytes.length + cs.count Base64.padding = 3 * (cs.length / 4)) ?_ ?_ cs h
  · rintro bytes - ⟨⟩
    rfl
  · intro a b c d rest ih bytes hpad hok
    have hcount : (a :: b :: c :: d :: rest).count Base64.padding
        = [a, b, c, d].count Base64.padding + rest.count Base64.padding := by
      rw [← List.count_append]
      rfl
    rw [hcount] at hpad ⊢
    cases hdigits : [a, b, c, d].mapM b64Digit with
    | none =>
      rw [b64Chunks_invalid hdigits] at hok
      cases hok
    | some digits =>
      rw [b64Chunks_group hdigits] at hok
      cases hrest : b64Chunks rest with
      | error e =>
        rw [hrest] at hok
        cases hok
      | ok tail =>
        rw [hrest] at hok
        cases hok
        have hlen := ih (by omega) hrest
        have hgroup : (groupBytes digits ([a, b, c, d].count Base64.padding)).length
            + [a, b, c, d].count Base64.padding = 3 := length_groupBytes (by omega)
        simp only [List.length_append, List.length_cons]
        omega

/-- **Only base64 is accepted, if the padding is where it belongs.** What `b64_decode` accepts is
base64, and as many bytes as the padding says, unless the text has the length and the characters of
base64 and padding in front of something else, or more than two padding signs. -/
theorem b64_accepts_standard_iff (s : String) :
    (∀ bytes, b64Decode s = .ok bytes → Base64.Standard (cleaned s) bytes.length) ↔
      ((cleaned s).length % 4 = 0 → (∀ c ∈ cleaned s, c ∈ Base64.symbols ∨ c = Base64.padding) →
        Base64.PaddingLast (cleaned s) ∧ (cleaned s).count Base64.padding ≤ 2) := by
  rw [b64Decode_eq]
  constructor
  · intro h hwhole hchars
    obtain ⟨bytes, hok⟩ := (b64Chunks_ok_iff hwhole).mpr hchars
    rw [if_neg (not_not.mpr hwhole)] at h
    obtain ⟨-, -, hlast, hcount, -⟩ := Base64.standard_iff.mp (h bytes hok)
    exact ⟨hlast, hcount⟩
  · intro h bytes hok
    split_ifs at hok with hlen
    have hwhole := not_not.mp hlen
    have hchars := (b64Chunks_ok_iff hwhole).mp ⟨bytes, hok⟩
    obtain ⟨hlast, hcount⟩ := h hwhole hchars
    exact Base64.standard_iff.mpr
      ⟨hchars, hwhole, hlast, hcount, length_b64Chunks hwhole hcount hok⟩

/-- Padding inside a group, and nothing but padding, are decoded to other bytes. -/
theorem misplaced_padding_accepted :
    b64Decode "=AAA" = .ok [0, 0] ∧ b64Decode "QQ==QQ==" = .ok [65, 65] ∧
      b64Decode "====" = .ok [0] ∧
      ¬ ∀ s bytes, b64Decode s = .ok bytes → Base64.Standard (cleaned s) bytes.length := by
  refine ⟨by decide +kernel, by decide +kernel, by decide +kernel, fun h => ?_⟩
  obtain ⟨-, -, hlast, -⟩ := Base64.standard_iff.mp (h "=AAA" [0, 0] (by decide +kernel))
  exact absurd hlast (by decide +kernel)

end Shipper

end WazabiAgent
