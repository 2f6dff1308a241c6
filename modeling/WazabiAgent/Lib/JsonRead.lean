import Mathlib.Data.List.ReduceOption
import Mathlib.Data.List.TakeWhile
import WazabiAgent.Lib.JsonValue

/-!
# Reading JSON texts

A reader of the whole grammar of JSON: blanks between tokens, every escape of a text with surrogate
pairs, and numbers as the grammar has them. It yields the value and what is left of the text.

The compact encoding is read back, whatever the value contains, provided that its numbers are
numbers; and since an encoded value has no line break, a stream of lines is read back as well.

## Main definitions

* `Json.readValue`, `Json.parse` — the reader
* `Json.readable` — every number literal is a number of the grammar
* `Json.parseLines` — a stream of values, one on each line

## Main results

* `Json.parse_compact` — what was encoded is read back
* `Json.parseLines_lines` — a stream is read back, value by value
-/

namespace Json

/-! ### Tokens -/

/-- White space between tokens. -/
def isBlank (c : Char) : Bool := [' ', '\n', '\r', '\t'].contains c

/-- Drops the white space in front. -/
def skipBlanks (cs : List Char) : List Char := cs.dropWhile isBlank

/-- The value of a hex digit. -/
def hexValue (c : Char) : Option ℕ :=
  if c.isDigit then some (c.toNat - 48)
  else if 97 ≤ c.toNat ∧ c.toNat ≤ 102 then some (c.toNat - 87)
  else if 65 ≤ c.toNat ∧ c.toNat ≤ 70 then some (c.toNat - 55)
  else none

/-- Four hexadecimal digits. -/
def readUnit : List Char → Option (ℕ × List Char)
  | a :: b :: c :: d :: rest => do
    let a ← hexValue a
    let b ← hexValue b
    let c ← hexValue c
    let d ← hexValue d
    some (((a * 16 + b) * 16 + c) * 16 + d, rest)
  | _ => none

/-- What follows `\u`: a code unit, or two that are a surrogate pair. -/
def readUnicode (cs : List Char) : Option (Char × List Char) := do
  let (u, rest) ← readUnit cs
  if 0xD800 ≤ u ∧ u < 0xDC00 then
    match rest with
    | '\\' :: 'u' :: rest => do
      let (v, rest) ← readUnit rest
      if 0xDC00 ≤ v ∧ v < 0xE000 then
        some (Char.ofNat (0x10000 + (u - 0xD800) * 1024 + (v - 0xDC00)), rest)
      else none
    | _ => none
  else if 0xDC00 ≤ u ∧ u < 0xE000 then none
  else some (Char.ofNat u, rest)

/-- What follows a backslash. -/
def readEscape (c : Char) (rest : List Char) : Option (Char × List Char) :=
  if c = '"' then some ('"', rest)
  else if c = '\\' then some ('\\', rest)
  else if c = '/' then some ('/', rest)
  else if c = 'n' then some ('\n', rest)
  else if c = 'r' then some ('\r', rest)
  else if c = 't' then some ('\t', rest)
  else if c = 'b' then some (Char.ofNat 8, rest)
  else if c = 'f' then some (Char.ofNat 12, rest)
  else if c = 'u' then readUnicode rest
  else none

/-- The characters of a text and what follows its closing quote. -/
def readText : ℕ → List Char → Option (List Char × List Char)
  | 0, _ | _ + 1, [] => none
  | n + 1, c :: cs =>
    if c = '"' then some ([], cs)
    else if c = '\\' then
      match cs with
      | [] => none
      | e :: cs => do
        let (d, rest) ← readEscape e cs
        let (t, rest) ← readText n rest
        some (d :: t, rest)
    else if c.toNat < 32 then none
    else do
      let (t, rest) ← readText n cs
      some (c :: t, rest)

/-- A character that a numeral may have. -/
def isNumeralChar (c : Char) : Bool := c.isDigit || ['+', '-', '.', 'e', 'E'].contains c

/-- One digit or more. -/
def afterDigits : List Char → Option (List Char)
  | [] => none
  | c :: cs => if c.isDigit then some (cs.dropWhile Char.isDigit) else none

/-- No leading zero. -/
def afterInteger : List Char → Option (List Char)
  | [] => none
  | c :: cs => if c = '0' then some cs else afterDigits (c :: cs)

/-- What is left behind the fraction of a numeral. -/
def afterFraction : List Char → Option (List Char)
  | [] => some []
  | c :: cs => if c = '.' then afterDigits cs else some (c :: cs)

/-- What is left behind the exponent of a numeral. -/
def afterExponent : List Char → Option (List Char)
  | [] => some []
  | c :: cs =>
    if c = 'e' ∨ c = 'E' then
      match cs with
      | [] => none
      | s :: ds => if s = '+' ∨ s = '-' then afterDigits ds else afterDigits (s :: ds)
    else some (c :: cs)

/-- A number of the grammar. -/
def isNumber (literal : List Char) : Bool :=
  let unsigned := if literal.head? = some '-' then literal.tail else literal
  ((afterInteger unsigned).bind afterFraction).bind afterExponent == some []

/-- A word or a number. -/
def readScalar (cs : List Char) : Option (Json × List Char) :=
  if "null".toList.isPrefixOf cs then some (.null, cs.drop 4)
  else if "true".toList.isPrefixOf cs then some (.bool true, cs.drop 4)
  else if "false".toList.isPrefixOf cs then some (.bool false, cs.drop 5)
  else if isNumber (cs.takeWhile isNumeralChar) then
    some (.number (String.ofList (cs.takeWhile isNumeralChar)), cs.dropWhile isNumeralChar)
  else none

/-- Reads the text of a string up to its closing quote. -/
def readString (cs : List Char) : Option (String × List Char) :=
  (readText (cs.length + 1) cs).map fun r => (String.ofList r.1, r.2)

/-! ### Values -/

mutual

/-- Reads a value, and answers with what is left behind it. -/
def readValue : ℕ → List Char → Option (Json × List Char)
  | 0, _ => none
  | n + 1, cs =>
    match skipBlanks cs with
    | [] => none
    | c :: rest =>
      if c = '"' then (readString rest).map fun r => (.string r.1, r.2)
      else if c = '[' then
        if (skipBlanks rest).head? = some ']' then some (.array [], (skipBlanks rest).tail)
        else (readElements n rest).map fun r => (.array r.1, r.2)
      else if c = '\x7b' then
        if (skipBlanks rest).head? = some '\x7d' then some (.object [], (skipBlanks rest).tail)
        else (readMembers n rest).map fun r => (.object r.1, r.2)
      else readScalar (c :: rest)

/-- The elements of an array that has one, and its closing bracket. -/
def readElements : ℕ → List Char → Option (List Json × List Char)
  | 0, _ => none
  | n + 1, cs =>
    match readValue n cs with
    | none => none
    | some (x, rest) =>
      match skipBlanks rest with
      | [] => none
      | c :: rest =>
        if c = ',' then (readElements n rest).map fun r => (x :: r.1, r.2)
        else if c = ']' then some ([x], rest)
        else none

/-- The members of an object that has one, and its closing brace. -/
def readMembers : ℕ → List Char → Option (List (String × Json) × List Char)
  | 0, _ => none
  | n + 1, cs =>
    match skipBlanks cs with
    | [] => none
    | c :: rest =>
      if c ≠ '"' then none
      else
        match readString rest with
        | none => none
        | some (name, rest) =>
          match skipBlanks rest with
          | [] => none
          | c :: rest =>
            if c ≠ ':' then none
            else
              match readValue n rest with
              | none => none
              | some (x, rest) =>
                match skipBlanks rest with
                | [] => none
                | c :: rest =>
                  if c = ',' then (readMembers n rest).map fun r => ((name, x) :: r.1, r.2)
                  else if c = '\x7d' then some ([(name, x)], rest)
                  else none

end

/-- A text that is one value. -/
def parse (s : String) : Option Json :=
  match readValue (s.toList.length + 1) s.toList with
  | some (v, rest) => if skipBlanks rest = [] then some v else none
  | none => none

example : parse " \x7b\"a\" : [1, \"\\u0041\\ud83d\\ude00\"], \"b\":-0.5e3\x7d "
    = some (object [("a", array [number "1", string "A😀"]), ("b", number "-0.5e3")]) := by
  decide +kernel

/-! ### Values that can be read -/

mutual

/-- Every number literal is a number. -/
def readable : Json → Bool
  | .number literal => isNumeral literal && isNumber literal.toList
  | .array xs => readableArray xs
  | .object fields => readableFields fields
  | .null | .bool _ | .string _ => true

/-- The values of an array can be read back. -/
def readableArray : List Json → Bool
  | [] => true
  | x :: xs => readable x && readableArray xs

/-- The members of an object can be read back. -/
def readableFields : List (String × Json) → Bool
  | [] => true
  | (_, x) :: fields => readable x && readableFields fields

end

mutual

theorem wellFormed_of_readable : ∀ {v : Json}, v.readable = true → v.wellFormed = true
  | .null, _ | .bool _, _ | .string _, _ => rfl
  | .number _, h => (Bool.and_eq_true_iff.mp h).1
  | .array _, h => wellFormedArray_of_readable h
  | .object _, h => wellFormedFields_of_readable h

theorem wellFormedArray_of_readable :
    ∀ {xs : List Json}, readableArray xs = true → wellFormedArray xs = true
  | [], _ => rfl
  | _ :: _, h =>
    Bool.and_eq_true_iff.mpr ⟨wellFormed_of_readable (Bool.and_eq_true_iff.mp h).1,
      wellFormedArray_of_readable (Bool.and_eq_true_iff.mp h).2⟩

theorem wellFormedFields_of_readable :
    ∀ {fields : List (String × Json)}, readableFields fields = true →
      wellFormedFields fields = true
  | [], _ => rfl
  | _ :: _, h =>
    Bool.and_eq_true_iff.mpr ⟨wellFormed_of_readable (Bool.and_eq_true_iff.mp h).1,
      wellFormedFields_of_readable (Bool.and_eq_true_iff.mp h).2⟩

end

@[simp] theorem readable_null : null.readable = true := rfl

@[simp] theorem readable_bool (b : Bool) : (bool b).readable = true := rfl

@[simp] theorem readable_string (s : String) : (string s).readable = true := rfl

theorem readableFields_iff {fields : List (String × Json)} :
    readableFields fields = true ↔ ∀ f ∈ fields, f.2.readable = true := by
  induction fields with
  | nil => simp [readableFields]
  | cons f fields ih => rw [readableFields, Bool.and_eq_true_iff, ih, List.forall_mem_cons]

theorem readableArray_iff {xs : List Json} :
    readableArray xs = true ↔ ∀ x ∈ xs, x.readable = true := by
  induction xs with
  | nil => simp [readableArray]
  | cons x xs ih => rw [readableArray, Bool.and_eq_true_iff, ih, List.forall_mem_cons]

theorem readable_object {fields : List (String × Json)} :
    (object fields).readable = true ↔ ∀ f ∈ fields, f.2.readable = true := by
  rw [readable, readableFields_iff]

theorem readable_array {xs : List Json} :
    (array xs).readable = true ↔ ∀ x ∈ xs, x.readable = true := by
  rw [readable, readableArray_iff]

/-- An insertion keeps an object readable. -/
theorem readable_insert {key : String} {value : Json} {fields : List (String × Json)}
    (h : (object fields).readable = true) (hvalue : value.readable = true) :
    (object (insert key value fields)).readable = true := by
  induction fields with
  | nil => exact Bool.and_eq_true_iff.mpr ⟨hvalue, rfl⟩
  | cons f fields ih =>
    obtain ⟨hf, hfields⟩ := Bool.and_eq_true_iff.mp h
    rw [insert]
    split_ifs
    · exact Bool.and_eq_true_iff.mpr ⟨hvalue, h⟩
    · exact Bool.and_eq_true_iff.mpr ⟨hvalue, hfields⟩
    · exact Bool.and_eq_true_iff.mpr ⟨hf, ih hfields⟩

theorem readable_ofMembers {members : List (String × Json)}
    (h : ∀ member ∈ members, member.2.readable = true) :
    (object (ofMembers members)).readable = true :=
  List.foldlRecOn (motive := fun fields => (object fields).readable = true) members _ rfl
    fun _ hfields member hmem => readable_insert hfields (h member hmem)

/-- An object some of whose members may be absent. -/
theorem readable_reduceOption {members : List (Option (String × Json))}
    (h : ∀ m ∈ members, ∀ f ∈ m, f.2.readable = true) :
    (object members.reduceOption).readable = true :=
  readable_object.mpr fun f hf => h (some f) (List.reduceOption_mem_iff.mp hf) f rfl

mutual

/-- The value of a document that can be read can be read. -/
theorem readable_toValue : ∀ {v : Json}, v.readable = true → (v.toValue id).readable = true
  | .null, _ | .bool _, _ | .string _, _ => rfl
  | .number _, h => by rwa [toValue, written_id]
  | .array _, h => readable_toValueArray h
  | .object _, h => readable_ofMembers (readableFields_iff.mp (readable_toValueFields h))

theorem readable_toValueArray :
    ∀ {xs : List Json}, readableArray xs = true → readableArray (toValueArray id xs) = true
  | [], _ => rfl
  | _ :: _, h =>
    Bool.and_eq_true_iff.mpr ⟨readable_toValue (Bool.and_eq_true_iff.mp h).1,
      readable_toValueArray (Bool.and_eq_true_iff.mp h).2⟩

theorem readable_toValueFields :
    ∀ {fields : List (String × Json)}, readableFields fields = true →
      readableFields (toValueFields id fields) = true
  | [], _ => rfl
  | _ :: _, h =>
    Bool.and_eq_true_iff.mpr ⟨readable_toValue (Bool.and_eq_true_iff.mp h).1,
      readable_toValueFields (Bool.and_eq_true_iff.mp h).2⟩

end

/-! ### Texts are read back -/

theorem hexValue_hexDigit {n : ℕ} (h : n < 16) : hexValue (hexDigit n) = some n := by
  interval_cases n <;> decide

theorem skipBlanks_cons {c : Char} (h : isBlank c = false) (cs : List Char) :
    skipBlanks (c :: cs) = c :: cs := by
  rw [skipBlanks, List.dropWhile_cons_of_neg (by simp [h])]

/-- An escaped character is read back. -/
theorem readText_escape (c : Char) (n : ℕ) (rest : List Char) :
    readText (n + 1) (escape c ++ rest)
      = (readText n rest).bind fun r => some (c :: r.1, r.2) := by
  have hback (e d : Char) (he : readEscape e rest = some (d, rest)) :
      readText (n + 1) ('\\' :: e :: rest)
        = (readText n rest).bind fun r => some (d :: r.1, r.2) := by
    rw [readText, if_neg (by decide), if_pos rfl]
    simp only [he, Option.bind_eq_bind, Option.bind_some]
  rw [escape]
  split_ifs with h1 h2 h3 h4 h5 h6 h7 h8
  · exact h1 ▸ hback '"' '"' rfl
  · exact h2 ▸ hback '\\' '\\' rfl
  · exact h3 ▸ hback 'n' '\n' rfl
  · exact h4 ▸ hback 'r' '\r' rfl
  · exact h5 ▸ hback 't' '\t' rfl
  · have hc : c = Char.ofNat 8 := by rw [← h6, Char.ofNat_toNat]
    exact hc ▸ hback 'b' (Char.ofNat 8) rfl
  · have hc : c = Char.ofNat 12 := by rw [← h7, Char.ofNat_toNat]
    exact hc ▸ hback 'f' (Char.ofNat 12) rfl
  · -- `\u00` and two digits
    have hdiv := hexValue_hexDigit (n := c.toNat / 16) (by omega)
    have hmod := hexValue_hexDigit (n := c.toNat % 16) (by omega)
    have hzero : hexValue '0' = some 0 := by decide
    have hval : ((0 * 16 + 0) * 16 + c.toNat / 16) * 16 + c.toNat % 16 = c.toNat := by omega
    have hunit : readUnicode ('0' :: '0' :: hexDigit (c.toNat / 16) :: hexDigit (c.toNat % 16) ::
        rest) = some (c, rest) := by
      rw [readUnicode, readUnit]
      simp only [hzero, hdiv, hmod, Option.bind_eq_bind, Option.bind_some, hval]
      rw [if_neg (by omega), if_neg (by omega), Char.ofNat_toNat]
    simp only [List.cons_append, List.nil_append]
    rw [readText, if_neg (by decide), if_pos rfl]
    have hu : readEscape 'u' ('0' :: '0' :: hexDigit (c.toNat / 16) :: hexDigit (c.toNat % 16) ::
        rest) = some (c, rest) := hunit
    simp only [hu, Option.bind_eq_bind, Option.bind_some]
  · rw [List.singleton_append, readText.eq_def]
    simp only [if_neg h1, if_neg h2, if_neg h8]
    rfl

theorem readText_flatMap (cs : List Char) {n : ℕ} (h : cs.length < n) (rest : List Char) :
    readText n (cs.flatMap escape ++ '"' :: rest) = some (cs, rest) := by
  induction cs generalizing n with
  | nil =>
    obtain ⟨n, rfl⟩ := Nat.exists_eq_add_of_lt h
    rfl
  | cons c cs ih =>
    obtain ⟨m, rfl⟩ : ∃ m, n = m + 1 := ⟨n - 1, by omega⟩
    rw [List.flatMap_cons, List.append_assoc, readText_escape, ih (by simpa using h)]
    rfl

theorem length_escape_pos (c : Char) : 1 ≤ (escape c).length := by
  rw [escape]
  split_ifs <;> simp

theorem length_le_flatMap_escape (cs : List Char) : cs.length ≤ (cs.flatMap escape).length := by
  induction cs with
  | nil => exact Nat.le_refl _
  | cons c cs ih =>
    have := length_escape_pos c
    rw [List.flatMap_cons, List.length_append, List.length_cons]
    omega

theorem readString_quote (s : String) (rest : List Char) :
    readString (s.toList.flatMap escape ++ '"' :: rest) = some (s, rest) := by
  have hlen := length_le_flatMap_escape s.toList
  rw [readString, readText_flatMap s.toList (by rw [List.length_append]; omega)]
  simp

/-! ### Numbers -/

/-- The decimals of a number start with a zero only if they are nothing but it. -/
theorem head?_toDigits_ne {n : ℕ} (h : 0 < n) : (Nat.toDigits 10 n).head? ≠ some '0' := by
  induction n using Nat.strong_induction_on with
  | _ n ih =>
    rw [Nat.toDigits_eq_if (by decide)]
    split_ifs with hlt
    · interval_cases n <;> decide
    · have hdiv : (Nat.toDigits 10 (n / 10)).head? ≠ some '0' := ih _ (by omega) (by omega)
      rw [List.head?_append_of_ne_nil _ Nat.toDigits_ne_nil]
      exact hdiv

theorem afterInteger_toDigits (n : ℕ) : afterInteger (Nat.toDigits 10 n) = some [] := by
  have hdigit : ∀ c ∈ Nat.toDigits 10 n, c.isDigit = true := fun c hc =>
    Nat.isDigit_of_mem_toDigits (by decide) (by decide) hc
  rcases Nat.eq_zero_or_pos n with rfl | hpos
  · rfl
  · have hhead := head?_toDigits_ne hpos
    cases hd : Nat.toDigits 10 n with
    | nil => exact absurd hd Nat.toDigits_ne_nil
    | cons c cs =>
      rw [hd] at hdigit hhead
      obtain ⟨hc, hcs⟩ := List.forall_mem_cons.mp hdigit
      have hne : c ≠ '0' := fun h => hhead (congrArg some h)
      rw [afterInteger, if_neg hne, afterDigits, if_pos hc, List.dropWhile_eq_nil_iff.mpr hcs]

theorem isNumber_repr (n : ℕ) : isNumber n.repr.toList = true := by
  rw [isNumber, if_neg (head?_repr_ne n), Nat.toList_repr, afterInteger_toDigits]
  rfl

theorem isNumber_toString (i : Int) : isNumber (toString i).toList = true := by
  cases i with
  | ofNat n => exact isNumber_repr n
  | negSucc n =>
    have hlist : (toString (Int.negSucc n)).toList = '-' :: (n + 1).repr.toList := by
      change ("-" ++ (n + 1).repr).toList = _
      simp
    rw [isNumber, hlist, List.head?_cons, if_pos rfl, List.tail_cons, Nat.toList_repr,
      afterInteger_toDigits]
    rfl

@[simp] theorem readable_nat (n : ℕ) : (number n.repr).readable = true :=
  Bool.and_eq_true_iff.mpr ⟨isNumeral_repr n, isNumber_repr n⟩

@[simp] theorem readable_int (i : Int) : (number i.repr).readable = true := by
  refine Bool.and_eq_true_iff.mpr ⟨?_, isNumber_toString i⟩
  cases i with
  | ofNat n => exact isNumeral_repr n
  | negSucc n =>
    show isNumeral ("-" ++ (n + 1).repr) = true
    have hdigits := isNumeral_repr (n + 1)
    rw [isNumeral] at hdigits ⊢
    rw [String.toList_append, List.all_append, hdigits]
    rfl

/-- A number does not go on here. -/
def Follows (rest : List Char) : Prop := ∀ c ∈ rest.head?, isNumeralChar c = false

theorem follows_cons {c : Char} (h : isNumeralChar c = false) (rest : List Char) :
    Follows (c :: rest) := by
  intro d hd
  obtain rfl := Option.some.inj hd
  exact h

theorem takeWhile_follows {cs rest : List Char} (h : ∀ c ∈ cs, isNumeralChar c = true)
    (hrest : Follows rest) : (cs ++ rest).takeWhile isNumeralChar = cs := by
  rw [List.takeWhile_append_of_pos h]
  cases rest with
  | nil => exact List.append_nil cs
  | cons c rest => rw [List.takeWhile_cons_of_neg (by simp [hrest c rfl]), List.append_nil]

theorem dropWhile_follows {cs rest : List Char} (h : ∀ c ∈ cs, isNumeralChar c = true)
    (hrest : Follows rest) : (cs ++ rest).dropWhile isNumeralChar = rest := by
  rw [List.dropWhile_append_of_pos h]
  cases rest with
  | nil => rfl
  | cons c rest => exact List.dropWhile_cons_of_neg (by simp [hrest c rfl])

/-- A number does not start like a word or like anything but a number. -/
theorem starts_number {literal : List Char} (hchars : ∀ c ∈ literal, isNumeralChar c = true)
    (h : isNumber literal = true) :
    ∃ c cs, literal = c :: cs ∧ isNumeralChar c = true := by
  cases literal with
  | nil => exact absurd h (by decide)
  | cons c cs => exact ⟨c, cs, rfl, hchars c List.mem_cons_self⟩

theorem readScalar_number {literal : String} (hchars : isNumeral literal = true)
    (h : isNumber literal.toList = true) {rest : List Char} (hrest : Follows rest) :
    readScalar (literal.toList ++ rest) = some (.number literal, rest) := by
  have hall : ∀ c ∈ literal.toList, isNumeralChar c = true := List.all_eq_true.mp hchars
  obtain ⟨c, cs, hcs, hc⟩ := starts_number hall h
  have hword (word : List Char) (w : Char) (hw : word.head? = some w)
      (hnot : isNumeralChar w = false) : word.isPrefixOf (literal.toList ++ rest) = false := by
    cases word with
    | nil => exact absurd hw (by simp)
    | cons d word =>
      obtain rfl := Option.some.inj hw
      have hne : (d == c) = false := beq_eq_false_iff_ne.mpr fun h => by simp [← h, hnot] at hc
      rw [hcs, List.cons_append, List.isPrefixOf, hne, Bool.false_and]
  rw [readScalar, hword _ 'n' rfl (by decide), hword _ 't' rfl (by decide),
    hword _ 'f' rfl (by decide), takeWhile_follows hall hrest, dropWhile_follows hall hrest, h,
    String.ofList_toList]
  rfl

/-! ### Values are read back -/

/-- A value does not start with a blank or a closing bracket. -/
theorem starts_compact {v : Json} (h : v.readable = true) :
    ∃ c cs, v.compactChars = c :: cs ∧ isBlank c = false ∧ c ≠ ']' := by
  cases v with
  | null => exact ⟨'n', _, rfl, by decide, by decide⟩
  | bool b =>
    cases b with
    | false => exact ⟨'f', _, rfl, by decide, by decide⟩
    | true => exact ⟨'t', _, rfl, by decide, by decide⟩
  | number literal =>
    obtain ⟨hchars, hnumber⟩ := Bool.and_eq_true_iff.mp h
    obtain ⟨c, cs, hcs, hc⟩ := starts_number (List.all_eq_true.mp hchars) hnumber
    refine ⟨c, cs, hcs, ?_, fun heq => ?_⟩
    · by_contra hblank
      simp only [isBlank, List.contains_eq_mem, List.mem_cons, List.not_mem_nil, or_false,
        decide_eq_true_eq, Bool.not_eq_false] at hblank
      rcases hblank with rfl | rfl | rfl | rfl <;> exact absurd hc (by decide)
    · rw [heq] at hc
      exact absurd hc (by decide)
  | string s => exact ⟨'"', _, rfl, by decide, by decide⟩
  | array xs => exact ⟨'[', _, rfl, by decide, by decide⟩
  | object fields => exact ⟨'\x7b', _, rfl, by decide, by decide⟩

theorem length_compact_pos {v : Json} (h : v.readable = true) : 0 < v.compactChars.length := by
  obtain ⟨c, cs, hcs, -⟩ := starts_compact h
  rw [hcs]
  exact Nat.succ_pos _

theorem readScalar_true (rest : List Char) :
    readScalar ("true".toList ++ rest) = some (.bool true, rest) := rfl

theorem readScalar_false (rest : List Char) :
    readScalar ("false".toList ++ rest) = some (.bool false, rest) := rfl

theorem readScalar_null (rest : List Char) :
    readScalar ("null".toList ++ rest) = some (.null, rest) := rfl

/-- A value that is no text, array or object. -/
theorem readValue_scalar {n : ℕ} {cs : List Char} {c : Char} {r : Json × List Char}
    (hc : cs.head? = some c) (hblank : isBlank c = false)
    (h : c ≠ '"' ∧ c ≠ '[' ∧ c ≠ '\x7b') (hr : readScalar cs = some r) :
    readValue (n + 1) cs = some r := by
  cases cs with
  | nil => exact absurd hc (by simp)
  | cons d cs =>
    obtain rfl := Option.some.inj hc
    rw [readValue, skipBlanks_cons hblank]
    simp only [if_neg h.1, if_neg h.2.1, if_neg h.2.2]
    exact hr

mutual

/-- A value in its compact encoding is read. -/
theorem readValue_compact : ∀ {v : Json} {n : ℕ} {rest : List Char}, v.readable = true →
    v.compactChars.length < n → Follows rest →
      readValue n (v.compactChars ++ rest) = some (v, rest)
  | _, 0, _, _, hn, _ => absurd hn (Nat.not_lt_zero _)
  | .null, _ + 1, rest, _, _, _ =>
    readValue_scalar rfl (by decide) (by decide) (readScalar_null rest)
  | .bool true, _ + 1, rest, _, _, _ =>
    readValue_scalar rfl (by decide) (by decide) (readScalar_true rest)
  | .bool false, _ + 1, rest, _, _, _ =>
    readValue_scalar rfl (by decide) (by decide) (readScalar_false rest)
  | .number literal, n + 1, rest, h, _, hrest => by
    obtain ⟨c, cs, hcs, hblank, -⟩ := starts_compact h
    obtain ⟨hchars, hnumber⟩ := Bool.and_eq_true_iff.mp h
    have hc : isNumeralChar c = true :=
      List.all_eq_true.mp hchars c (by rw [← compactChars, hcs]; exact List.mem_cons_self)
    have hne (d : Char) (hd : isNumeralChar d = false) : c ≠ d := by
      rintro rfl
      simp [hd] at hc
    refine readValue_scalar (c := c) ?_ hblank
      ⟨hne _ (by decide), hne _ (by decide), hne _ (by decide)⟩
      (readScalar_number hchars hnumber hrest)
    rw [hcs]
    rfl
  | .string s, n + 1, rest, _, _, _ => by
    have happ : compactChars (.string s) ++ rest
        = '"' :: (s.toList.flatMap escape ++ '"' :: rest) := by
      simp [compactChars, quote]
    rw [happ, readValue, skipBlanks_cons (by decide)]
    simp only [if_true, readString_quote, Option.map_some]
  | .array [], n + 1, rest, _, _, _ => by
    rw [readValue]
    rfl
  | .array (x :: xs), n + 1, rest, h, hn, _ => by
    have happ : compactChars (.array (x :: xs)) ++ rest
        = '[' :: (compactArray (x :: xs) ++ ']' :: rest) := by
      simp [compactChars]
    have hlen : (compactArray (x :: xs)).length + 2 ≤ n := by
      simp only [compactChars, List.length_cons, List.length_append, List.length_nil] at hn
      omega
    have hx : x.readable = true := (Bool.and_eq_true_iff.mp h).1
    obtain ⟨c, cs, hcs, hblank, hne⟩ := starts_compact hx
    have hstart : ∃ ds, compactArray (x :: xs) = c :: ds := by
      cases xs with
      | nil => exact ⟨cs, hcs⟩
      | cons y xs => exact ⟨_, by rw [compactArray, hcs]; rfl⟩
    obtain ⟨ds, hds⟩ := hstart
    rw [happ, readValue, skipBlanks_cons (by decide)]
    have hhead : (skipBlanks (compactArray (x :: xs) ++ ']' :: rest)).head? ≠ some ']' := by
      rw [hds, List.cons_append, skipBlanks_cons hblank]
      exact fun heq => hne (Option.some.inj heq)
    simp only [if_neg (show ¬ '[' = '"' by decide), if_true, if_neg hhead]
    rw [readElements_compact h hlen]
    rfl
  | .object [], n + 1, rest, _, _, _ => by
    rw [readValue]
    rfl
  | .object (f :: fields), n + 1, rest, h, hn, _ => by
    have happ : compactChars (.object (f :: fields)) ++ rest
        = '\x7b' :: (compactFields (f :: fields) ++ '\x7d' :: rest) := by
      simp [compactChars]
    have hlen : (compactFields (f :: fields)).length + 2 ≤ n := by
      simp only [compactChars, List.length_cons, List.length_append, List.length_nil] at hn
      omega
    have hstart : ∃ ds, compactFields (f :: fields) = '"' :: ds := by
      cases fields with
      | nil => exact ⟨_, rfl⟩
      | cons g fields => exact ⟨_, rfl⟩
    obtain ⟨ds, hds⟩ := hstart
    rw [happ, readValue, skipBlanks_cons (by decide)]
    have hhead : (skipBlanks (compactFields (f :: fields) ++ '\x7d' :: rest)).head?
        ≠ some '\x7d' := by
      rw [hds, List.cons_append, skipBlanks_cons (by decide)]
      exact fun heq => absurd (Option.some.inj heq) (by decide)
    simp only [if_neg (show ¬ '\x7b' = '"' by decide), if_neg (show ¬ '\x7b' = '[' by decide),
      if_true, if_neg hhead]
    rw [readMembers_compact h hlen]
    rfl

theorem readElements_compact : ∀ {x : Json} {xs : List Json} {n : ℕ} {rest : List Char},
    readableArray (x :: xs) = true → (compactArray (x :: xs)).length + 2 ≤ n →
      readElements n (compactArray (x :: xs) ++ ']' :: rest) = some (x :: xs, rest)
  | _, _, 0, _, _, hn => absurd hn (by omega)
  | x, [], n + 1, rest, h, hn => by
    have hx : x.readable = true := (Bool.and_eq_true_iff.mp h).1
    have hn : (compactArray [x]).length + 2 ≤ n + 1 := hn
    rw [compactArray] at hn ⊢
    rw [readElements, readValue_compact hx (by omega) (follows_cons (by decide) rest)]
    rfl
  | x, y :: xs, n + 1, rest, h, hn => by
    obtain ⟨hx, hxs⟩ := Bool.and_eq_true_iff.mp h
    have hpos := length_compact_pos hx
    rw [compactArray, List.length_append, List.length_cons] at hn
    rw [compactArray, List.append_assoc, List.cons_append, readElements,
      readValue_compact hx (by omega) (follows_cons (by decide) _)]
    simp only [skipBlanks_cons (show isBlank ',' = false by decide), if_true]
    rw [readElements_compact hxs (by omega)]
    rfl

theorem readMembers_compact : ∀ {f : String × Json} {fields : List (String × Json)} {n : ℕ}
    {rest : List Char}, readableFields (f :: fields) = true →
      (compactFields (f :: fields)).length + 2 ≤ n →
        readMembers n (compactFields (f :: fields) ++ '\x7d' :: rest) = some (f :: fields, rest)
  | _, _, 0, _, _, hn => absurd hn (by omega)
  | (name, x), [], n + 1, rest, h, hn => by
    have hx : x.readable = true := (Bool.and_eq_true_iff.mp h).1
    have happ : compactFields [(name, x)] ++ '\x7d' :: rest
        = '"' :: (name.toList.flatMap escape ++ '"' :: ':' ::
          (x.compactChars ++ '\x7d' :: rest)) := by
      simp [compactFields, quote]
    have hlen : x.compactChars.length < n := by
      simp only [compactFields, quote, List.length_cons, List.length_append, List.length_nil] at hn
      omega
    rw [happ, readMembers, skipBlanks_cons (by decide)]
    simp only [ne_eq, not_true_eq_false, if_false, readString_quote,
      skipBlanks_cons (show isBlank ':' = false by decide)]
    rw [readValue_compact hx hlen (follows_cons (by decide) rest)]
    rfl
  | (name, x), g :: fields, n + 1, rest, h, hn => by
    obtain ⟨hx, hfields⟩ := Bool.and_eq_true_iff.mp h
    have happ : compactFields ((name, x) :: g :: fields) ++ '\x7d' :: rest
        = '"' :: (name.toList.flatMap escape ++ '"' :: ':' :: (x.compactChars ++
          ',' :: (compactFields (g :: fields) ++ '\x7d' :: rest))) := by
      simp [compactFields, quote]
    have hlen : x.compactChars.length < n ∧ (compactFields (g :: fields)).length + 2 ≤ n := by
      simp only [compactFields, quote, List.length_cons, List.length_append,
        List.length_nil] at hn ⊢
      omega
    rw [happ, readMembers, skipBlanks_cons (by decide)]
    simp only [ne_eq, not_true_eq_false, if_false, readString_quote,
      skipBlanks_cons (show isBlank ':' = false by decide)]
    rw [readValue_compact hx hlen.1 (follows_cons (by decide) _)]
    simp only [skipBlanks_cons (show isBlank ',' = false by decide), if_true]
    rw [readMembers_compact hfields hlen.2]
    rfl

end

/-! ### Streams -/

/-- The text of a value is read back, and so it is with blanks behind it. -/
theorem parse_compact {v : Json} (h : v.readable = true) (blanks : List Char)
    (hblanks : ∀ c ∈ blanks, isBlank c = true) :
    parse (String.ofList (v.compactChars ++ blanks)) = some v := by
  have hfollows : Follows blanks := by
    intro c hc
    have hblank := hblanks c (List.mem_of_head? hc)
    simp only [isBlank, List.contains_eq_mem, List.mem_cons, List.not_mem_nil, or_false,
      decide_eq_true_eq] at hblank
    rcases hblank with rfl | rfl | rfl | rfl <;> decide
  rw [parse, String.toList_ofList, readValue_compact h
    (by rw [List.length_append]; omega) hfollows]
  exact if_pos (List.dropWhile_eq_nil_iff.mpr hblanks)

theorem parse_line {v : Json} (h : v.readable = true) : parse (v.compact ++ "\n") = some v := by
  have htext : v.compact ++ "\n" = String.ofList (v.compactChars ++ ['\n']) := by
    rw [compact, String.ofList_append]
  rw [htext]
  exact parse_compact h _ (List.forall_mem_singleton.mpr rfl)

/-- The values of a text, one on each line that has anything. -/
def parseLines (cs : List Char) : Option (List Json) :=
  ((cs.splitOn '\n').filter (· ≠ [])).mapM fun line => parse (String.ofList line)

/-- A stream of lines is read back, value by value. -/
theorem parseLines_lines {vs : List Json} (h : ∀ v ∈ vs, v.readable = true) :
    parseLines (vs.flatMap fun v => v.compactChars ++ ['\n']) = some vs := by
  induction vs with
  | nil => rfl
  | cons v vs ih =>
    obtain ⟨hv, hvs⟩ := List.forall_mem_cons.mp h
    have hline : '\n' ∉ v.compactChars :=
      (controlFree_compactChars (wellFormed_of_readable hv)).newline_not_mem
    have hne : v.compactChars ≠ [] := List.length_pos_iff.mp (length_compact_pos hv)
    have hparse : parse (String.ofList v.compactChars) = some v := by
      simpa using parse_compact hv [] (by simp)
    rw [parseLines, List.flatMap_cons, List.append_assoc, List.singleton_append,
      List.splitOn_append_cons_self, List.splitOn_eq_singleton hline, List.singleton_append,
      List.filter_cons_of_pos (by simpa using hne), List.mapM_cons, hparse]
    rw [parseLines] at ih
    rw [ih hvs]
    rfl

end Json
