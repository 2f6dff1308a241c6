import Mathlib.Data.List.Basic

/-!
# JSON values

A JSON document after parsing: what a program sees of it when it asks for a field, and which two
documents are the same. Numbers are kept as their literals, since nothing here computes with
them; the fields of an object are kept in order, and `get` finds the first of a name.

## Main definitions

* `Json` — the values, with decidable equality
* `Json.get`, `asArray`, `asStr`, `asBool` — access, `none` where the shape is another
* `Json.structFields`, `distinctFields`, `Json.defaulted` — a record read off a document
* `Json.recordFields`, `Json.optional`, `Json.asU64`, `asI64` — a record whose fields may all be
  absent
* `Json.integerLiteral` — an integer of any size
-/

/-- A JSON value; a number is kept as its numeral, an object as its members in order. -/
inductive Json
  | null
  | bool (b : Bool)
  | number (literal : String)
  | string (s : String)
  | array (xs : List Json)
  | object (fields : List (String × Json))

namespace Json

/-! ### Equality -/

mutual

/-- Decides whether two values are the same. -/
def decEq : (a b : Json) → Decidable (a = b)
  | .null, .null => isTrue rfl
  | .bool a, .bool b => decidable_of_iff (a = b) (by simp)
  | .number a, .number b => decidable_of_iff (a = b) (by simp)
  | .string a, .string b => decidable_of_iff (a = b) (by simp)
  | .array xs, .array ys =>
    have := decEqArray xs ys
    decidable_of_iff (xs = ys) (by simp)
  | .object fs, .object gs =>
    have := decEqFields fs gs
    decidable_of_iff (fs = gs) (by simp)
  | .null, .bool _ | .null, .number _ | .null, .string _ | .null, .array _ | .null, .object _
  | .bool _, .null | .bool _, .number _ | .bool _, .string _ | .bool _, .array _
  | .bool _, .object _ | .number _, .null | .number _, .bool _ | .number _, .string _
  | .number _, .array _ | .number _, .object _ | .string _, .null | .string _, .bool _
  | .string _, .number _ | .string _, .array _ | .string _, .object _ | .array _, .null
  | .array _, .bool _ | .array _, .number _ | .array _, .string _ | .array _, .object _
  | .object _, .null | .object _, .bool _ | .object _, .number _ | .object _, .string _
  | .object _, .array _ => isFalse (by simp)

/-- Decides it for the values of two arrays. -/
def decEqArray : (xs ys : List Json) → Decidable (xs = ys)
  | [], [] => isTrue rfl
  | [], _ :: _ | _ :: _, [] => isFalse (by simp)
  | x :: xs, y :: ys =>
    have := decEq x y
    have := decEqArray xs ys
    decidable_of_iff (x = y ∧ xs = ys) (by simp)

/-- Decides it for the members of two objects. -/
def decEqFields : (fs gs : List (String × Json)) → Decidable (fs = gs)
  | [], [] => isTrue rfl
  | [], _ :: _ | _ :: _, [] => isFalse (by simp)
  | (n, x) :: fs, (m, y) :: gs =>
    have := decEq x y
    have := decEqFields fs gs
    decidable_of_iff ((n = m ∧ x = y) ∧ fs = gs) (by simp)

end

instance : DecidableEq Json := decEq

/-! ### Access -/

/-- The field of an object; anything else has no fields. -/
def get (name : String) : Json → Option Json
  | .object fields => (fields.find? fun f => f.1 = name).map Prod.snd
  | _ => none

/-- The values of an array. -/
def asArray : Json → Option (List Json)
  | .array xs => some xs
  | _ => none

/-- The text of a string. -/
def asStr : Json → Option String
  | .string s => some s
  | _ => none

/-- The members of an object, all of which are texts; the last of a name counts. -/
def asStrMap : Json → Option (List (String × String))
  | .object fields =>
    fields.foldlM (fun m (name, v) => (v.asStr).map fun s => m.filter (·.1 ≠ name) ++ [(name, s)]) []
  | _ => none

/-- The value of a boolean. -/
def asBool : Json → Option Bool
  | .bool b => some b
  | _ => none

/-- The value is an object. -/
def isObject : Json → Bool
  | .object _ => true
  | _ => false

/-- The fields of a record, which an object has by name and an array by position. Names beyond
the record's are ignored, positions are not. -/
def structFields (names : List String) : Json → Option (List (Option Json))
  | .object fields => some (names.map fun name => (Json.object fields).get name)
  | .array xs =>
    if xs.length ≤ names.length then some ((List.range names.length).map fun i => xs[i]?) else none
  | _ => none

/-- `structFields`, for a record that is read without an intermediate value: a name of the record's
may then not occur twice. -/
def distinctFields (names : List String) : Json → Option (List (Option Json))
  | .object fields =>
    if names.any fun name => 1 < (fields.filter fun f => f.1 = name).length then none
    else (Json.object fields).structFields names
  | v => v.structFields names

/-- A field that may be absent. A field of the wrong shape is an error all the same. -/
def defaulted {α : Type} (default : α) (decode : Json → Option α) : Option Json → Option α
  | none => some default
  | some v => decode v

/-- The fields of a record none of which has a default: a name may not occur twice, and an array
has them all. A name that does not occur is as good as null. -/
def recordFields (names : List String) : Json → Option (List (String × Json))
  | .object fields =>
    if names.any fun name => 1 < (fields.filter fun f => f.1 = name).length then none
    else some (names.map fun name => (name, ((Json.object fields).get name).getD .null))
  | .array xs => if xs.length = names.length then some (names.zip xs) else none
  | _ => none

/-- A field that may be null. -/
def optional {α : Type} (decode : Json → Option α) : Json → Option (Option α)
  | .null => some none
  | v => (decode v).map some

/-- A literal of digits only that fits 64 bits. -/
def asU64 : Json → Option ℕ
  | .number literal =>
    if literal.toList ≠ [] ∧ literal.toList.all Char.isDigit then
      let n := Nat.ofDigitChars 10 literal.toList 0
      if n < UInt64.size then some n else none
    else none
  | _ => none

/-- An integer literal that fits 64 bits with sign. Zero with a sign is no integer. -/
def asI64 : Json → Option Int
  | .number literal =>
    let negative := literal.toList.head? = some '-'
    let digits := if negative then literal.toList.tail else literal.toList
    if digits ≠ [] ∧ digits.all Char.isDigit then
      let n := Nat.ofDigitChars 10 digits 0
      if negative then if 0 < n ∧ n ≤ 9223372036854775808 then some (-n) else none
      else if n < 9223372036854775808 then some n else none
    else none
  | _ => none

/-- The sign and the size of an integer literal, however many digits it has. -/
def integerLiteral (literal : String) : Option (Bool × ℕ) :=
  let negative := literal.toList.head? = some '-'
  let digits := if negative then literal.toList.tail else literal.toList
  if digits ≠ [] ∧ digits.all Char.isDigit then
    some (negative, Nat.ofDigitChars 10 digits 0)
  else none

example : (object [("a", array [string "x"])]).get "a" = some (array [string "x"]) := by decide

end Json
