import Mathlib.Tactic.IntervalCases
import WazabiAgent.Lib.Json

/-!
# JSON texts

The compact encoding of a JSON value, as `serde_json::to_vec` writes it: no blanks between tokens,
and in a text an escape for the quote, the backslash and every control character. Hence no control
character occurs in the encoding, whatever the value contains, and a line break can delimit
encoded values.

An object that a program builds is a map that keeps its keys in order; `Json.insert` is its
insertion.

## Main results

* `Json.control_free_compact` — no control character in the encoding
* `Json.get_insert` — what an insertion changes
* `Json.asU64_toString`, `asI64_toString` — a number is read back
-/

namespace Json

/-! ### Values -/

/-- Only characters that a number literal may have. -/
def isNumeral (literal : String) : Bool :=
  literal.toList.all fun c => c.isDigit || ['+', '-', '.', 'e', 'E'].contains c

theorem isNumeral_repr (n : ℕ) : isNumeral n.repr = true := by
  refine List.all_eq_true.mpr fun c hc => ?_
  have hmem : c ∈ Nat.toDigits 10 n := by simpa using hc
  have hdigit : c.isDigit = true := Nat.isDigit_of_mem_toDigits (by decide) (by decide) hmem
  simp [hdigit]

theorem digits_repr (n : ℕ) : n.repr.toList ≠ [] ∧ n.repr.toList.all Char.isDigit = true := by
  have hlist : n.repr.toList = Nat.toDigits 10 n := by simp
  rw [hlist]
  exact ⟨Nat.toDigits_ne_nil, List.all_eq_true.mpr fun c hc =>
    Nat.isDigit_of_mem_toDigits (by decide) (by decide) hc⟩

theorem ofDigitChars_repr (n : ℕ) : Nat.ofDigitChars 10 n.repr.toList 0 = n := by simp

theorem asU64_toString {n : ℕ} (h : n < UInt64.size) : asU64 (.number (toString n)) = some n := by
  change asU64 (.number n.repr) = some n
  rw [asU64, if_pos (digits_repr n), ofDigitChars_repr]
  exact if_pos h

theorem head?_repr_ne (n : ℕ) : n.repr.toList.head? ≠ some '-' := by
  intro h
  have hdigit := List.all_eq_true.mp (digits_repr n).2 '-' (List.mem_of_head? h)
  simp at hdigit

theorem asI64_toString {i : Int} (hlow : -2 ^ 63 ≤ i) (hhigh : i < 2 ^ 63) :
    asI64 (.number (toString i)) = some i := by
  cases i with
  | ofNat n =>
    have hlt : n < 9223372036854775808 := by simpa using hhigh
    change asI64 (.number n.repr) = some (n : Int)
    simp only [asI64, if_neg (head?_repr_ne n), if_pos (digits_repr n), ofDigitChars_repr]
    exact if_pos hlt
  | negSucc n =>
    have hle : n + 1 ≤ 9223372036854775808 := by omega
    have hlist : ("-" ++ (n + 1).repr).toList = '-' :: (n + 1).repr.toList := by simp
    change asI64 (.number ("-" ++ (n + 1).repr)) = some (Int.negSucc n)
    simp only [asI64, hlist, List.head?_cons, List.tail_cons, if_true,
      if_pos (digits_repr (n + 1)), ofDigitChars_repr]
    rw [if_pos ⟨Nat.succ_pos n, hle⟩]
    rfl

/-- Of an integer beyond the range only its literal can be had. -/
theorem asI64_toString_eq_none {i : Int} (h : ¬ (-2 ^ 63 ≤ i ∧ i < 2 ^ 63)) :
    asI64 (.number (toString i)) = none := by
  cases i with
  | ofNat n =>
    have hge : ¬ n < 9223372036854775808 := by
      simp only [Int.ofNat_eq_natCast] at h
      omega
    change asI64 (.number n.repr) = none
    simp only [asI64, if_neg (head?_repr_ne n), if_pos (digits_repr n), ofDigitChars_repr]
    exact if_neg hge
  | negSucc n =>
    have hgt : ¬ n + 1 ≤ 9223372036854775808 := by omega
    have hlist : ("-" ++ (n + 1).repr).toList = '-' :: (n + 1).repr.toList := by simp
    change asI64 (.number ("-" ++ (n + 1).repr)) = none
    simp only [asI64, hlist, List.head?_cons, List.tail_cons, if_true,
      if_pos (digits_repr (n + 1)), ofDigitChars_repr]
    exact if_neg fun hle => hgt hle.2

theorem integerLiteral_toString (i : Int) :
    integerLiteral (toString i) = some (decide (i < 0), i.natAbs) := by
  cases i with
  | ofNat n =>
    change integerLiteral n.repr = _
    have hsign : decide ((n : Int) < 0) = false := by simp
    rw [integerLiteral, if_neg (head?_repr_ne n), if_pos (digits_repr n), ofDigitChars_repr,
      decide_eq_false (head?_repr_ne n)]
    exact congrArg (fun b => some (b, n)) hsign.symm
  | negSucc n =>
    have hlist : ("-" ++ (n + 1).repr).toList = '-' :: (n + 1).repr.toList := by simp
    change integerLiteral ("-" ++ (n + 1).repr) = _
    have hsign : decide (Int.negSucc n < 0) = true := by simp
    simp only [integerLiteral, hlist, List.head?_cons, List.tail_cons, if_true,
      if_pos (digits_repr (n + 1)), ofDigitChars_repr, hsign, decide_true]
    rfl

/-- Only digits stand behind the sign of an integer. -/
theorem integerLiteral_eq_none {literal : String} {c : Char} (hc : c ∈ literal.toList)
    (hdigit : c.isDigit = false) (hsign : c ≠ '-') : integerLiteral literal = none := by
  have hmem : c ∈ (if literal.toList.head? = some '-' then literal.toList.tail
      else literal.toList) := by
    split_ifs with hhead
    · obtain ⟨cs, hcs⟩ := List.head?_eq_some_iff.mp hhead
      rw [hcs] at hc ⊢
      exact (List.mem_cons.mp hc).resolve_left hsign
    · exact hc
  refine if_neg fun hdigits => ?_
  have hall := List.all_eq_true.mp hdigits.2 c hmem
  rw [hdigit] at hall
  exact Bool.noConfusion hall

theorem asI64_eq_none {literal : String} (h : integerLiteral literal = none) :
    asI64 (.number literal) = none := by
  simp only [integerLiteral, ite_eq_right_iff, reduceCtorEq, imp_false] at h
  exact if_neg h

mutual

/-- Every number is a number literal. -/
def wellFormed : Json → Bool
  | .number literal => isNumeral literal
  | .array xs => wellFormedArray xs
  | .object fields => wellFormedFields fields
  | .null | .bool _ | .string _ => true

/-- The numerals of the values are numerals. -/
def wellFormedArray : List Json → Bool
  | [] => true
  | x :: xs => wellFormed x && wellFormedArray xs

/-- The numerals of the members are numerals. -/
def wellFormedFields : List (String × Json) → Bool
  | [] => true
  | (_, x) :: fields => wellFormed x && wellFormedFields fields

end

theorem wellFormed_object_nil : (object []).wellFormed = true := rfl

theorem wellFormed_object (fields : List (String × Json)) :
    (object fields).wellFormed = wellFormedFields fields := by rw [wellFormed]

/-- A value as a JSON parser yields it. -/
abbrev Value := { j : Json // j.wellFormed = true }

/-! ### The encoding -/

/-- A hexadecimal digit, in lower case. -/
def hexDigit (n : ℕ) : Char := if n < 10 then Char.ofNat (48 + n) else Char.ofNat (87 + n)

/-- The characters that a character is written as within a string. -/
def escape (c : Char) : List Char :=
  if c = '"' then ['\\', '"']
  else if c = '\\' then ['\\', '\\']
  else if c = '\n' then ['\\', 'n']
  else if c = '\r' then ['\\', 'r']
  else if c = '\t' then ['\\', 't']
  else if c.toNat = 8 then ['\\', 'b']
  else if c.toNat = 12 then ['\\', 'f']
  else if c.toNat < 32 then ['\\', 'u', '0', '0', hexDigit (c.toNat / 16), hexDigit (c.toNat % 16)]
  else [c]

/-- A string between its quotes. -/
def quote (s : String) : List Char := '"' :: (s.toList.flatMap escape ++ ['"'])

mutual

/-- The text of a value without white space. -/
def compactChars : Json → List Char
  | .null => "null".toList
  | .bool true => "true".toList
  | .bool false => "false".toList
  | .number literal => literal.toList
  | .string s => quote s
  | .array xs => '[' :: (compactArray xs ++ [']'])
  | .object fields => '\x7b' :: (compactFields fields ++ ['\x7d'])

/-- The values of an array, with commas between them. -/
def compactArray : List Json → List Char
  | [] => []
  | [x] => compactChars x
  | x :: y :: xs => compactChars x ++ ',' :: compactArray (y :: xs)

/-- The members of an object, with commas between them. -/
def compactFields : List (String × Json) → List Char
  | [] => []
  | [(name, x)] => quote name ++ ':' :: compactChars x
  | (name, x) :: f :: fields =>
    quote name ++ ':' :: compactChars x ++ ',' :: compactFields (f :: fields)

end

/-- The encoding without blanks. -/
def compact (j : Json) : String := String.ofList j.compactChars

example : (object [("a", array [number "1", string "x\ny"]), ("b", null)]).compact
    = "\x7b\"a\":[1,\"x\\ny\"],\"b\":null\x7d" := by decide

/-! ### No control characters -/

/-- No control character of ASCII. -/
def ControlFree (cs : List Char) : Prop := ∀ c ∈ cs, 32 ≤ c.toNat

@[simp] theorem controlFree_nil : ControlFree [] := by simp [ControlFree]

@[simp] theorem controlFree_cons {c : Char} {cs : List Char} :
    ControlFree (c :: cs) ↔ 32 ≤ c.toNat ∧ ControlFree cs := by simp [ControlFree]

@[simp] theorem controlFree_append {cs ds : List Char} :
    ControlFree (cs ++ ds) ↔ ControlFree cs ∧ ControlFree ds := by
  simp [ControlFree, or_imp, forall_and]

theorem ControlFree.newline_not_mem {cs : List Char} (h : ControlFree cs) : '\n' ∉ cs := by
  intro hmem
  exact absurd (h _ hmem) (by decide)

theorem controlFree_hexDigit {n : ℕ} (h : n < 16) : 32 ≤ (hexDigit n).toNat := by
  interval_cases n <;> decide

theorem controlFree_escape (c : Char) : ControlFree (escape c) := by
  rw [escape]
  split_ifs with h1 h2 h3 h4 h5 h6 h7 h8
  iterate 7 simp
  · have hdiv := controlFree_hexDigit (n := c.toNat / 16) (by omega)
    have hmod := controlFree_hexDigit (n := c.toNat % 16) (by omega)
    simp [hdiv, hmod]
  · simpa using h8

theorem controlFree_quote (s : String) : ControlFree (quote s) := by
  have h : ControlFree (s.toList.flatMap escape) := by
    intro c hc
    obtain ⟨d, -, hd⟩ := List.mem_flatMap.mp hc
    exact controlFree_escape d c hd
  simp [quote, h]

theorem controlFree_of_isNumeral {literal : String} (h : isNumeral literal = true) :
    ControlFree literal.toList := by
  intro c hc
  have := List.all_eq_true.mp h c hc
  simp only [Bool.or_eq_true, List.contains_eq_mem, List.mem_cons, List.not_mem_nil, or_false,
    decide_eq_true_eq] at this
  rcases this with hd | rfl | rfl | rfl | rfl | rfl
  · exact le_trans (by decide) (Char.isDigit_iff_toNat.mp hd).1
  all_goals decide

mutual

theorem controlFree_compactChars : ∀ {j : Json}, j.wellFormed = true → ControlFree j.compactChars
  | .null, _ | .bool true, _ | .bool false, _ => by simp [compactChars]
  | .number _, h => controlFree_of_isNumeral h
  | .string s, _ => controlFree_quote s
  | .array xs, h => by simp [compactChars, controlFree_compactArray h]
  | .object fields, h => by simp [compactChars, controlFree_compactFields h]

theorem controlFree_compactArray :
    ∀ {xs : List Json}, wellFormedArray xs = true → ControlFree (compactArray xs)
  | [], _ => by simp [compactArray]
  | [x], h => controlFree_compactChars (Bool.and_eq_true_iff.mp h).1
  | x :: y :: xs, h => by
    obtain ⟨hx, hxs⟩ := Bool.and_eq_true_iff.mp h
    simp [compactArray, controlFree_compactChars hx, controlFree_compactArray hxs]

theorem controlFree_compactFields :
    ∀ {fields : List (String × Json)}, wellFormedFields fields = true →
      ControlFree (compactFields fields)
  | [], _ => by simp [compactFields]
  | [(name, x)], h => by
    have hx := controlFree_compactChars (Bool.and_eq_true_iff.mp h).1
    simp [compactFields, controlFree_quote, hx]
  | (name, x) :: f :: fields, h => by
    obtain ⟨hx, hfields⟩ := Bool.and_eq_true_iff.mp h
    simp [compactFields, controlFree_quote, controlFree_compactChars hx,
      controlFree_compactFields hfields]

end

/-- **A line holds one value.** Whatever the value contains, its encoding has no line break. -/
theorem newline_not_mem_compact (v : Value) : '\n' ∉ v.1.compact.toList := by
  rw [compact, String.toList_ofList]
  exact (controlFree_compactChars v.2).newline_not_mem

/-! ### Maps with ordered keys -/

/-- The order of texts, character by character. -/
def charsLt : List Char → List Char → Bool
  | _, [] => false
  | [], _ :: _ => true
  | c :: cs, d :: ds => if c = d then charsLt cs ds else c.toNat < d.toNat

/-- The order of keys, which compares code points. -/
def keyLt (a b : String) : Bool := charsLt a.toList b.toList

theorem charsLt_trans {a b c : List Char} (hab : charsLt a b = true) (hbc : charsLt b c = true) :
    charsLt a c = true := by
  induction a generalizing b c with
  | nil =>
    cases c with
    | nil => cases b <;> simp [charsLt] at hbc
    | cons z c => rfl
  | cons x a ih =>
    cases b with
    | nil => simp [charsLt] at hab
    | cons y b =>
      cases c with
      | nil => simp [charsLt] at hbc
      | cons z c =>
        simp only [charsLt] at hab hbc ⊢
        split_ifs at hab hbc with hxy hyz hyz
        · rw [if_pos (hxy.trans hyz)]
          exact ih hab hbc
        · rw [if_neg fun h => hyz (hxy.symm.trans h), hxy]
          exact hbc
        · rw [if_neg fun h => hxy (h.trans hyz.symm), ← hyz]
          exact hab
        · have hlt : x.toNat < z.toNat := by
            simp only [decide_eq_true_eq] at hab hbc
            omega
          rw [if_neg fun h => by rw [h] at hlt; omega]
          exact decide_eq_true hlt

theorem charsLt_of_not {a b : List Char} (hab : charsLt a b ≠ true) (hne : a ≠ b) :
    charsLt b a = true := by
  induction a generalizing b with
  | nil =>
    cases b with
    | nil => exact absurd rfl hne
    | cons y b => exact absurd rfl hab
  | cons x a ih =>
    cases b with
    | nil => rfl
    | cons y b =>
      simp only [charsLt] at hab ⊢
      split_ifs at hab with hxy
      · rw [if_pos hxy.symm]
        exact ih hab fun h => hne (by rw [hxy, h])
      · rw [if_neg (Ne.symm hxy)]
        have hnat : x.toNat ≠ y.toNat := fun h => hxy (Char.toNat_inj.mp h)
        simp only [ne_eq, decide_eq_true_eq] at hab ⊢
        omega

theorem keyLt_trans {a b c : String} (hab : keyLt a b = true) (hbc : keyLt b c = true) :
    keyLt a c = true := charsLt_trans hab hbc

theorem keyLt_of_not {a b : String} (hab : keyLt a b ≠ true) (hne : a ≠ b) : keyLt b a = true :=
  charsLt_of_not hab fun h => hne (String.toList_inj.mp h)

/-- Put a value under a key. -/
def insert (key : String) (value : Json) : List (String × Json) → List (String × Json)
  | [] => [(key, value)]
  | (k, v) :: fields =>
    if keyLt key k then (key, value) :: (k, v) :: fields
    else if key = k then (key, value) :: fields
    else (k, v) :: insert key value fields

/-- The map with these members, a later one over an earlier one of the same key. -/
def ofMembers (members : List (String × Json)) : List (String × Json) :=
  members.foldl (fun fields member => insert member.1 member.2 fields) []

/-- The keys are in order, so that none occurs twice. -/
def Ordered (fields : List (String × Json)) : Prop :=
  fields.Pairwise fun f g => keyLt f.1 g.1 = true

theorem get_object_nil (name : String) : (object []).get name = none := rfl

theorem get_object_cons (k name : String) (v : Json) (fields : List (String × Json)) :
    (object ((k, v) :: fields)).get name
      = if k = name then some v else (object fields).get name := by
  by_cases h : k = name <;> simp [get, h]

theorem get_insert (key name : String) (value : Json) (fields : List (String × Json)) :
    (object (insert key value fields)).get name
      = if key = name then some value else (object fields).get name := by
  induction fields with
  | nil => simp [insert, get_object_cons]
  | cons f fields ih =>
    obtain ⟨k, v⟩ := f
    rw [insert]
    by_cases hlt : keyLt key k = true
    · rw [if_pos hlt, get_object_cons]
    · rw [if_neg hlt]
      by_cases heq : key = k
      · rw [if_pos heq, get_object_cons, get_object_cons, heq]
        split_ifs <;> rfl
      · rw [if_neg heq, get_object_cons, get_object_cons, ih]
        by_cases hname : key = name
        · rw [if_pos hname, if_pos hname, if_neg fun h => heq (hname.trans h.symm)]
        · rw [if_neg hname, if_neg hname]

theorem wellFormedFields_insert {key : String} {value : Json} {fields : List (String × Json)}
    (hv : value.wellFormed = true) (h : wellFormedFields fields = true) :
    wellFormedFields (insert key value fields) = true := by
  induction fields with
  | nil => simp [insert, wellFormedFields, hv]
  | cons f fields ih =>
    obtain ⟨k, v⟩ := f
    obtain ⟨hf, hfields⟩ := Bool.and_eq_true_iff.mp h
    rw [insert]
    split_ifs <;> simp [wellFormedFields, hv, hf, hfields, ih hfields]

theorem keyLt_of_mem_insert {key k : String} {value : Json} {fields : List (String × Json)}
    (hk : keyLt k key = true) (h : ∀ f ∈ fields, keyLt k f.1 = true) :
    ∀ f ∈ insert key value fields, keyLt k f.1 = true := by
  induction fields with
  | nil => simpa [insert] using hk
  | cons f fields ih =>
    obtain ⟨hf, hfields⟩ := List.forall_mem_cons.mp h
    rw [insert]
    split_ifs
    · exact List.forall_mem_cons.mpr ⟨hk, h⟩
    · exact List.forall_mem_cons.mpr ⟨hk, hfields⟩
    · exact List.forall_mem_cons.mpr ⟨hf, ih hfields⟩

/-- An insertion keeps the keys in order. -/
theorem Ordered.insert {key : String} {value : Json} {fields : List (String × Json)}
    (h : Ordered fields) : Ordered (insert key value fields) := by
  induction fields with
  | nil => exact List.pairwise_singleton _ _
  | cons f fields ih =>
    obtain ⟨hf, hfields⟩ := List.pairwise_cons.mp h
    rw [Json.insert]
    split_ifs with hlt heq
    · refine List.pairwise_cons.mpr ⟨List.forall_mem_cons.mpr ⟨hlt, fun g hg => ?_⟩, h⟩
      exact keyLt_trans hlt (hf g hg)
    · exact List.pairwise_cons.mpr ⟨heq ▸ hf, hfields⟩
    · exact List.pairwise_cons.mpr
        ⟨keyLt_of_mem_insert (keyLt_of_not hlt heq) hf, ih hfields⟩

theorem ordered_ofMembers (members : List (String × Json)) : Ordered (ofMembers members) :=
  List.foldlRecOn (motive := Ordered) members _ .nil fun _ h _ _ => h.insert

theorem wellFormedFields_ofMembers {members : List (String × Json)}
    (h : ∀ member ∈ members, member.2.wellFormed = true) :
    wellFormedFields (ofMembers members) = true :=
  List.foldlRecOn (motive := fun fields => wellFormedFields fields = true) members _ rfl
    fun _ hfields member hmem => wellFormedFields_insert (h member hmem) hfields

end Json
