import Mathlib.Data.Rat.Defs
import WazabiAgent.Lib.JsonValue

/-!
# Values with the same numbers

A number can be written in several ways. A document that is read as a value and written out again has
other literals than before, which is no matter as long as they are the same numbers; and that they
are not if a number has more digits than a double holds.

## Main definitions

* `Json.numberValue` — the number that a literal is
* `Json.SameValue` — values that are the same but for how their numbers are written
* `Json.Exact` — the numbers that are written out again as they were

## Main results

* `Json.toValue_toValue` — the doubles of a value are those of the document
* `Json.sameValue_toValue_iff` — a value is the same if all its numbers are
-/

namespace Json

variable {float : String → String}

/-! ### Numbers -/

/-- A sign, and what is behind it. -/
def splitSign (cs : List Char) : Bool × List Char :=
  match cs with
  | '-' :: cs => (true, cs)
  | '+' :: cs => (false, cs)
  | _ => (false, cs)

/-- The number that a literal is: sign, digits, point and digits, exponent. -/
def numberValue (literal : String) : ℚ :=
  let (negative, cs) := splitSign literal.toList
  let mantissa := cs.takeWhile fun c => c ≠ 'e' ∧ c ≠ 'E'
  let (below, power) := splitSign (cs.drop (mantissa.length + 1))
  let whole := mantissa.takeWhile fun c => c ≠ '.'
  let fraction := mantissa.drop (whole.length + 1)
  let digits : ℕ := Nat.ofDigitChars 10 (whole ++ fraction) 0
  let exponent : ℤ := Nat.ofDigitChars 10 power 0
  let size : ℚ := digits * 10 ^ ((if below then -exponent else exponent) - fraction.length)
  if negative then -size else size

example : numberValue "-12.50" = numberValue "-125E-1" := by decide +kernel

mutual

/-- The same but for how the numbers are written. -/
def SameValue : Json → Json → Prop
  | .null, .null => True
  | .bool a, .bool b => a = b
  | .number a, .number b => numberValue a = numberValue b
  | .string s, .string t => s = t
  | .array xs, .array ys => SameArray xs ys
  | .object fields, .object others => SameFields fields others
  | _, _ => False

/-- The values of two arrays are the same, one by one. -/
def SameArray : List Json → List Json → Prop
  | [], [] => True
  | x :: xs, y :: ys => SameValue x y ∧ SameArray xs ys
  | _, _ => False

/-- The members of two objects are the same, one by one. -/
def SameFields : List (String × Json) → List (String × Json) → Prop
  | [], [] => True
  | (name, x) :: fields, (other, y) :: others =>
    name = other ∧ SameValue x y ∧ SameFields fields others
  | _, _ => False

end

mutual

/-- The literals of the numbers. -/
def numbers : Json → List String
  | .number literal => [literal]
  | .array xs => numbersArray xs
  | .object fields => numbersFields fields
  | .null | .bool _ | .string _ => []

/-- The numerals in the values of an array. -/
def numbersArray : List Json → List String
  | [] => []
  | x :: xs => numbers x ++ numbersArray xs

/-- The numerals in the members of an object. -/
def numbersFields : List (String × Json) → List String
  | [] => []
  | (_, x) :: fields => numbers x ++ numbersFields fields

end

/-- These numbers are written out again as the numbers they were. -/
def WrittenSame (float : String → String) (literals : List String) : Prop :=
  ∀ literal ∈ literals, numberValue (written float literal) = numberValue literal

theorem writtenSame_append {l l' : List String} :
    WrittenSame float (l ++ l') ↔ WrittenSame float l ∧ WrittenSame float l' :=
  List.forall_mem_append

/-- Every number is written out again as the number it was. -/
def Exact (float : String → String) (j : Json) : Prop := WrittenSame float j.numbers

/-- The parts of a value are written out again as it is. -/
theorem Exact.get {v x : Json} {name : String} (h : v.Exact float) (hget : v.get name = some x) :
    x.Exact float := by
  cases v with
  | object fields =>
    induction fields with
    | nil => cases hget
    | cons f fields ih =>
      obtain ⟨hf, hfields⟩ := writtenSame_append.mp h
      rw [get_object_cons] at hget
      split_ifs at hget
      · exact Option.some.inj hget ▸ hf
      · exact ih hfields hget
  | _ => simp [Json.get] at hget

/-! ### The value of a value -/

theorem isValue_array_iff {xs : List Json} : IsValue (array xs) ↔ ∀ x ∈ xs, IsValue x := by
  rw [IsValue, toValue_array, array.injEq]
  conv_lhs => rhs; rw [← List.map_id xs]
  exact List.map_inj_left

theorem map_insert (g : Json → Json) (key : String) (value : Json) (fields : List (String × Json)) :
    (insert key value fields).map (fun f => (f.1, g f.2))
      = insert key (g value) (fields.map fun f => (f.1, g f.2)) := by
  induction fields with
  | nil => rfl
  | cons f fields ih =>
    simp only [insert, List.map_cons]
    split_ifs
    · rfl
    · rfl
    · rw [List.map_cons, ih]

theorem map_ofMembers (g : Json → Json) (members : List (String × Json)) :
    (ofMembers members).map (fun f => (f.1, g f.2))
      = ofMembers (members.map fun f => (f.1, g f.2)) := by
  induction members using List.reverseRecOn with
  | nil => rfl
  | append_singleton members f ih =>
    rw [ofMembers, List.foldl_concat, ← ofMembers, map_insert, ih, List.map_append, List.map_cons,
      List.map_nil, ofMembers, ofMembers, List.foldl_concat]

mutual

/-- The doubles of a value are those of the document. -/
theorem toValue_toValue : (j : Json) → (j.toValue id).toValue float = j.toValue float
  | .array xs => by
    rw [toValue_array, toValue_array, toValue_array, List.map_map]
    exact congrArg array (List.map_congr_left fun x hx => toValue_of_mem xs x hx)
  | .object fields => by
    rw [toValue_object, toValue_of_ordered (ordered_ofMembers _), map_ofMembers, toValue_object,
      List.map_map]
    refine congrArg (fun members => object (ofMembers members)) (List.map_congr_left fun f hf => ?_)
    exact congrArg (Prod.mk f.1) (toValue_of_mem_fields fields f hf)
  | .null => by simp only [toValue]
  | .bool b => by simp only [toValue]
  | .number literal => by simp only [toValue, written_id]
  | .string s => by simp only [toValue]

theorem toValue_of_mem : (xs : List Json) → ∀ x ∈ xs, (x.toValue id).toValue float = x.toValue float
  | [] => by simp
  | x :: xs => List.forall_mem_cons.mpr ⟨toValue_toValue x, toValue_of_mem xs⟩

theorem toValue_of_mem_fields : (fields : List (String × Json)) →
    ∀ f ∈ fields, (f.2.toValue id).toValue float = f.2.toValue float
  | [] => by simp
  | (_, x) :: fields => List.forall_mem_cons.mpr ⟨toValue_toValue x, toValue_of_mem_fields fields⟩

end

/-! ### Written out again -/

mutual

/-- A value that is written out again is the same if all its numbers are. -/
theorem sameValue_toValue_iff :
    {v : Json} → v.IsValue → (SameValue (v.toValue float) v ↔ v.Exact float)
  | .array xs, h => by
    rw [toValue_array, SameValue, Exact, numbers]
    exact sameArray_map_iff (isValue_array_iff.mp h)
  | .object fields, h => by
    obtain ⟨hordered, hfields⟩ := isValue_object_iff.mp h
    rw [toValue_of_ordered hordered, SameValue, Exact, numbers]
    exact sameFields_map_iff hfields
  | .number literal, _ => by
    rw [toValue, SameValue, Exact, numbers, WrittenSame, List.forall_mem_singleton]
  | .null, _ | .bool _, _ | .string _, _ => by simp [toValue, SameValue, Exact, WrittenSame, numbers]

theorem sameArray_map_iff : {xs : List Json} → (∀ x ∈ xs, x.IsValue) →
    (SameArray (xs.map (toValue float)) xs ↔ WrittenSame float (numbersArray xs))
  | [], _ => by simp [SameArray, WrittenSame, numbersArray]
  | x :: xs, h => by
    obtain ⟨hx, hxs⟩ := List.forall_mem_cons.mp h
    rw [List.map_cons, SameArray, sameValue_toValue_iff hx, sameArray_map_iff hxs, numbersArray,
      writtenSame_append, Exact]

theorem sameFields_map_iff : {fields : List (String × Json)} → (∀ f ∈ fields, f.2.IsValue) →
    (SameFields (fields.map fun f => (f.1, f.2.toValue float)) fields ↔
      WrittenSame float (numbersFields fields))
  | [], _ => by simp [SameFields, WrittenSame, numbersFields]
  | (name, x) :: fields, h => by
    obtain ⟨hx, hfields⟩ := List.forall_mem_cons.mp h
    rw [List.map_cons, SameFields, sameValue_toValue_iff hx, sameFields_map_iff hfields,
      numbersFields, writtenSame_append, Exact]
    exact and_iff_right rfl

end

end Json
