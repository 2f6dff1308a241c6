import Mathlib.Data.List.Basic

/-!
# Bytes read as text

`String::from_utf8_lossy` reads bytes as UTF-8. Where they are none, the longest part that could
begin a character, or else a single byte, is replaced at a time.
-/

namespace Utf8

/-- U+FFFD. -/
def replacement : Char := '\uFFFD'

/-- A byte that continues a character. -/
def isContinuation (b : UInt8) : Bool := 0x80 ≤ b && b < 0xC0

/-- The bytes that may follow the first one of a character of three or four bytes. The others would
make a number that needs fewer bytes, a surrogate, or no character. -/
def isSecond (first b : UInt8) : Bool :=
  if first = 0xE0 then 0xA0 ≤ b && b < 0xC0
  else if first = 0xED then 0x80 ≤ b && b < 0xA0
  else if first = 0xF0 then 0x90 ≤ b && b < 0xC0
  else if first = 0xF4 then 0x80 ≤ b && b < 0x90
  else isContinuation b

/-- The six bits that a continuation byte adds to a number. -/
def addBits (n : ℕ) (b : UInt8) : ℕ := n * 64 + b.toNat % 64

/-- What begins with a byte: a character or something that is none, and its number of bytes. -/
def firstChar (b : UInt8) (bytes : List UInt8) : Option Char × ℕ :=
  let c := bytes.getD 0 0
  let d := bytes.getD 1 0
  let e := bytes.getD 2 0
  if b < 0x80 then (some (Char.ofNat b.toNat), 1)
  else if 0xC2 ≤ b ∧ b < 0xE0 then
    if isContinuation c then (some (Char.ofNat (addBits (b.toNat % 32) c)), 2) else (none, 1)
  else if 0xE0 ≤ b ∧ b < 0xF0 then
    if !isSecond b c then (none, 1)
    else if !isContinuation d then (none, 2)
    else (some (Char.ofNat (addBits (addBits (b.toNat % 16) c) d)), 3)
  else if 0xF0 ≤ b ∧ b < 0xF5 then
    if !isSecond b c then (none, 1)
    else if !isContinuation d then (none, 2)
    else if !isContinuation e then (none, 3)
    else (some (Char.ofNat (addBits (addBits (addBits (b.toNat % 8) c) d) e)), 4)
  else (none, 1)

/-- The first argument counts the bytes that belong to what was read last. -/
def lossyFrom : ℕ → List UInt8 → List Char
  | _, [] => []
  | skip + 1, _ :: bytes => lossyFrom skip bytes
  | 0, b :: bytes =>
    (firstChar b bytes).1.getD replacement :: lossyFrom ((firstChar b bytes).2 - 1) bytes

/-- `String::from_utf8_lossy`. -/
def fromUtf8Lossy (bytes : List UInt8) : String := String.ofList (lossyFrom 0 bytes)

example : fromUtf8Lossy [0x63, 0xC3, 0xA9, 0xE2, 0x82, 0xAC, 0xF0, 0x9F, 0x98, 0x80] = "cé€😀" := by
  decide

example : fromUtf8Lossy [0xE2, 0x82, 0x41, 0xC0, 0xAF, 0xF0, 0x9F]
    = "\uFFFDA\uFFFD\uFFFD\uFFFD" := by
  decide

end Utf8
