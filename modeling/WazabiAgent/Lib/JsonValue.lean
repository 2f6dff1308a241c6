import Mathlib.Data.List.Induction
import WazabiAgent.Lib.JsonText

/-!
# A document read as a value

A typed reader takes a document as it is written; a program that wants to change a document reads
it into a map first, writes the map out, and what is read the next time is that value. In a value
the keys of an object are in order and the last member of a name has taken the place of the
earlier ones, and a number that is no integer of 64 bits has become a double.

A reader is `Stable` if on the value it finds what it found in the document. Readers are stable
because they refuse a name of theirs that occurs twice, and do not look at the other names; hence
stability is a matter of composing readers from stable ones, in the order of refinement on
`Option`: whatever the one side finds, the other finds too.

## Main definitions

* `Json.toValue` — the value of a document
* `Json.listOf`, `Json.textMap`, `Json.record` — readers of a list, of a map of texts, and of a
  record, given by what becomes of its fields
* `Json.Refines`, `Json.Stable`

## Main results

* `Json.Stable.record` — a record of stable fields; `Json.Stable.listOf`, `stable_textMap`
* `Json.isValue_toValue` — the value of a value is itself
* `Json.get_ofMembers` — the last member of a name counts
-/

namespace Json

/-- An integer of 64 bits, with or without a sign. -/
def fits64 (literal : String) : Bool :=
  (number literal).asI64.isSome || (number literal).asU64.isSome

/-- A number as it is written out again. What is no integer of 64 bits is read as a double, which
`float` writes. -/
def written (float : String → String) (literal : String) : String :=
  if fits64 literal then literal else float literal

@[simp] theorem written_id (literal : String) : written id literal = literal := ite_self _

mutual

/-- The value of a document, with the numbers that it writes; those of `toValue id` are the ones of
the document. -/
def toValue (float : String → String) : Json → Json
  | .array xs => .array (toValueArray float xs)
  | .object fields => .object (ofMembers (toValueFields float fields))
  | .null => .null
  | .bool b => .bool b
  | .number literal => .number (written float literal)
  | .string s => .string s

/-- The values of an array. -/
def toValueArray (float : String → String) : List Json → List Json
  | [] => []
  | x :: xs => toValue float x :: toValueArray float xs

/-- The members of an object, as they come. -/
def toValueFields (float : String → String) : List (String × Json) → List (String × Json)
  | [] => []
  | (name, x) :: fields => (name, toValue float x) :: toValueFields float fields

end

variable {float : String → String}

theorem toValueArray_eq_map (xs : List Json) : toValueArray float xs = xs.map (toValue float) := by
  induction xs with
  | nil => rfl
  | cons x xs ih => rw [toValueArray, ih, List.map_cons]

theorem toValueFields_eq_map (fields : List (String × Json)) :
    toValueFields float fields = fields.map fun f => (f.1, f.2.toValue float) := by
  induction fields with
  | nil => rfl
  | cons f fields ih => rw [toValueFields, ih, List.map_cons]

theorem toValue_array (xs : List Json) : (array xs).toValue float = array (xs.map (toValue float)) := by
  rw [toValue, toValueArray_eq_map]

theorem toValue_object (fields : List (String × Json)) :
    (object fields).toValue float = object (ofMembers (fields.map fun f => (f.1, f.2.toValue float))) := by
  rw [toValue, toValueFields_eq_map]

/-! ### Members of a name -/

/-- The last member of a name counts. -/
theorem get_ofMembers (members : List (String × Json)) (name : String) :
    (object (ofMembers members)).get name = (object members.reverse).get name := by
  induction members using List.reverseRecOn with
  | nil => rfl
  | append_singleton members f ih =>
    rw [ofMembers, List.foldl_concat, get_insert, ← ofMembers, ih, List.reverse_concat,
      get_object_cons]

theorem get_eq_head? (fields : List (String × Json)) (name : String) :
    (object fields).get name = ((fields.filter fun f => f.1 = name).map Prod.snd).head? := by
  rw [get, List.head?_map, List.head?_filter]

/-- A name that occurs once is not affected by the order of the members. -/
theorem get_reverse {fields : List (String × Json)} {name : String}
    (h : (fields.filter fun f => f.1 = name).length ≤ 1) :
    (object fields.reverse).get name = (object fields).get name := by
  rw [get_eq_head?, get_eq_head?, List.filter_reverse]
  generalize fields.filter (fun f => f.1 = name) = once at h
  match once, h with
  | [], _ => rfl
  | [_], _ => rfl
  | _ :: _ :: _, h => simp at h

theorem get_map_toValue (fields : List (String × Json)) (name : String) :
    (object (fields.map fun f => (f.1, f.2.toValue float))).get name
      = ((object fields).get name).map (toValue float) := by
  induction fields with
  | nil => rfl
  | cons f fields ih =>
    rw [List.map_cons, get_object_cons, get_object_cons, ih]
    split_ifs <;> rfl

theorem filter_map_toValue_length (fields : List (String × Json)) (name : String) :
    ((fields.map fun f => (f.1, f.2.toValue float)).filter fun f => f.1 = name).length
      = (fields.filter fun f => f.1 = name).length := by
  rw [List.filter_map, List.length_map]
  rfl

theorem get_toValue {fields : List (String × Json)} {name : String}
    (h : (fields.filter fun f => f.1 = name).length ≤ 1) :
    ((object fields).toValue float).get name = ((object fields).get name).map (toValue float) := by
  rw [toValue_object, get_ofMembers, get_reverse (by rwa [filter_map_toValue_length]),
    get_map_toValue]

theorem filter_length_le_of_nodup {fields : List (String × Json)}
    (h : (fields.map Prod.fst).Nodup) (name : String) :
    (fields.filter fun f => f.1 = name).length ≤ 1 := by
  have hcount := List.nodup_iff_count.mp h name
  rw [List.count, List.countP_map, List.countP_eq_length_filter] at hcount
  simpa [Function.comp_def, beq_eq_decide] using hcount

/-- What is found under a name, if the names are distinct. -/
theorem get_toValue_of_nodup {fields : List (String × Json)} (h : (fields.map Prod.fst).Nodup)
    (name : String) :
    ((object fields).toValue float).get name = ((object fields).get name).map (toValue float) :=
  get_toValue (filter_length_le_of_nodup h name)

/-- No member is lost, if the names are distinct. -/
theorem get_ofMembers_of_nodup {members : List (String × Json)}
    (h : (members.map Prod.fst).Nodup) (name : String) :
    (object (ofMembers members)).get name = (object members).get name := by
  rw [get_ofMembers, get_reverse (filter_length_le_of_nodup h name)]

theorem keyLt_irrefl (a : String) : keyLt a a ≠ true := by
  have hchars (cs : List Char) : charsLt cs cs = false := by
    induction cs with
    | nil => rfl
    | cons c cs ih => simp [charsLt, ih]
  simp [keyLt, hchars]

/-- No key of an ordered map occurs twice. -/
theorem Ordered.nodup {fields : List (String × Json)} (h : Ordered fields) :
    (fields.map Prod.fst).Nodup := by
  refine List.pairwise_map.mpr (List.Pairwise.imp ?_ h)
  intro f g hlt heq
  rw [heq] at hlt
  exact keyLt_irrefl g.1 hlt

/-- `serde_json::Map`. -/
abbrev Map := {fields : List (String × Json) // Ordered fields}

theorem Ordered.filter_length_le {fields : List (String × Json)} (h : Ordered fields)
    (name : String) : (fields.filter fun f => f.1 = name).length ≤ 1 :=
  filter_length_le_of_nodup h.nodup name

/-- The fields of a record are the same in the value. -/
theorem distinctFields_toValue {names : List String} {j : Json} {fields : List (Option Json)}
    (h : j.distinctFields names = some fields) :
    (j.toValue float).distinctFields names = some (fields.map (Option.map (toValue float))) := by
  cases j with
  | object members =>
    simp only [distinctFields] at h
    split_ifs at h with htwice
    have honce : ∀ name ∈ names, (members.filter fun f => f.1 = name).length ≤ 1 := by
      intro name hname
      by_contra hlt
      exact htwice (List.any_eq_true.mpr ⟨name, hname, by simpa using Nat.lt_of_not_le hlt⟩)
    have hfields : names.map (fun name => (object members).get name) = fields := by
      simpa [structFields] using h
    rw [toValue_object, distinctFields, if_neg, structFields, ← toValue_object, ← hfields,
      List.map_map]
    · exact congrArg some (List.map_congr_left fun name hname => get_toValue (honce name hname))
    · rw [List.any_eq_true]
      rintro ⟨name, -, hlt⟩
      have hle := (ordered_ofMembers (members.map fun f => (f.1, f.2.toValue float))).filter_length_le
        name
      exact absurd (of_decide_eq_true hlt) (Nat.not_lt.mpr hle)
  | array xs =>
    simp only [distinctFields, structFields] at h
    split_ifs at h with hlen
    rw [toValue_array]
    simp only [distinctFields, structFields, List.length_map, if_pos hlen]
    rw [← Option.some.inj h, List.map_map]
    exact congrArg some (List.map_congr_left fun i _ => List.getElem?_map)
  | null => simp [distinctFields, structFields] at h
  | bool b => simp [distinctFields, structFields] at h
  | number literal => simp [distinctFields, structFields] at h
  | string s => simp [distinctFields, structFields] at h

/-! ### Refinement -/

variable {α β : Type}

/-- Whatever `x` finds, `y` finds. -/
def Refines (x y : Option α) : Prop := ∀ a, x = some a → y = some a

theorem Refines.refl (x : Option α) : Refines x x := fun _ h => h

theorem Refines.bind {x y : Option α} {f g : α → Option β} (h : Refines x y)
    (hf : ∀ a, Refines (f a) (g a)) : Refines (x.bind f) (y.bind g) := by
  intro b hb
  obtain ⟨a, ha, hfa⟩ := Option.bind_eq_some_iff.mp hb
  exact Option.bind_eq_some_iff.mpr ⟨a, h a ha, hf a b hfa⟩

/-- The reader finds the same in the value. -/
def Stable (decode : Json → Option α) : Prop :=
  ∀ j float, Refines (decode j) (decode (j.toValue float))

theorem Stable.optional {decode : Json → Option α} (h : Stable decode) :
    Stable (Json.optional decode) := by
  intro j float a ha
  cases j with
  | null => exact ha
  | array xs =>
    obtain ⟨b, hb, rfl⟩ := Option.map_eq_some_iff.mp ha
    have hval := h (array xs) float b hb
    rw [toValue_array] at hval ⊢
    exact Option.map_eq_some_iff.mpr ⟨b, hval, rfl⟩
  | object fields =>
    obtain ⟨b, hb, rfl⟩ := Option.map_eq_some_iff.mp ha
    have hval := h (object fields) float b hb
    rw [toValue_object] at hval ⊢
    exact Option.map_eq_some_iff.mpr ⟨b, hval, rfl⟩
  | bool b => simpa only [toValue] using ha
  | number literal =>
    obtain ⟨b, hb, rfl⟩ := Option.map_eq_some_iff.mp ha
    have hval := h (number literal) float b hb
    rw [toValue] at hval ⊢
    exact Option.map_eq_some_iff.mpr ⟨b, hval, rfl⟩
  | string s => simpa only [toValue] using ha

/-- A field with a default. -/
theorem Stable.defaulted {decode : Json → Option α} (h : Stable decode) (default : α)
    (o : Option Json) :
    Refines (Json.defaulted default decode o) (Json.defaulted default decode (o.map (toValue float))) := by
  cases o with
  | none => exact .refl _
  | some v => exact h v float

theorem stable_asStr : Stable asStr := by
  rintro (_ | _ | _ | _ | _ | _) float a ha <;> simp_all [asStr, toValue]

theorem stable_asBool : Stable asBool := by
  rintro (_ | _ | _ | _ | _ | _) float a ha <;> simp_all [asBool, toValue]

/-- An integer of 64 bits is written as it was. -/
theorem stable_asU64 : Stable asU64 := by
  rintro (_ | _ | _ | _ | _ | _) float a ha
  case number literal => rwa [toValue, written, if_pos (by simp [fits64, ha])]
  all_goals simp [asU64] at ha

theorem stable_asI64 : Stable asI64 := by
  rintro (_ | _ | _ | _ | _ | _) float a ha
  case number literal => rwa [toValue, written, if_pos (by simp [fits64, ha])]
  all_goals simp [asI64] at ha

/-! ### Lists and maps -/

/-- Reads an array of values of one kind. -/
def listOf (decode : Json → Option α) : Json → Option (List α)
  | .array xs => xs.mapM decode
  | _ => none

theorem refines_mapM {decode : Json → Option α} (h : Stable decode) (xs : List Json) :
    Refines (xs.mapM decode) ((xs.map (toValue float)).mapM decode) := by
  induction xs with
  | nil => exact .refl _
  | cons x xs ih =>
    rw [List.map_cons, List.mapM_cons, List.mapM_cons]
    exact (h x float).bind fun a => ih.bind fun as => .refl _

theorem Stable.listOf {decode : Json → Option α} (h : Stable decode) :
    Stable (Json.listOf decode) := by
  intro j float
  cases j with
  | array xs =>
    rw [toValue_array]
    exact refines_mapM h xs
  | _ => intro a ha; simp [Json.listOf] at ha

/-- A map from names to texts, in the order of the names. Every member must be a text, the last
one of a name counts. -/
def textMap : Json → Option (List (String × String))
  | .object fields =>
    if fields.all fun f => f.2.asStr.isSome then
      some ((ofMembers fields).map fun f => (f.1, (f.2.asStr).getD ""))
    else none
  | _ => none

theorem toValue_of_asStr {j : Json} (h : j.asStr.isSome = true) : j.toValue float = j := by
  cases j with
  | string s => rw [toValue]
  | _ => simp [asStr] at h

/-- Inserting behind every key puts the member at the end. -/
theorem insert_of_forall_lt {fields : List (String × Json)} {key : String} {value : Json}
    (h : ∀ f ∈ fields, keyLt f.1 key = true) :
    insert key value fields = fields ++ [(key, value)] := by
  induction fields with
  | nil => rfl
  | cons f fields ih =>
    obtain ⟨hf, hfields⟩ := List.forall_mem_cons.mp h
    have hlt : keyLt key f.1 ≠ true := fun hlt => keyLt_irrefl _ (keyLt_trans hf hlt)
    have hne : key ≠ f.1 := by
      rintro rfl
      exact keyLt_irrefl _ hf
    rw [insert, if_neg hlt, if_neg hne, ih hfields, List.cons_append]

/-- A map that is in order already is kept. -/
theorem ofMembers_of_ordered {fields : List (String × Json)} (h : Ordered fields) :
    ofMembers fields = fields := by
  induction fields using List.reverseRecOn with
  | nil => rfl
  | append_singleton fields f ih =>
    obtain ⟨hfields, -, hlt⟩ := List.pairwise_append.mp h
    rw [ofMembers, List.foldl_concat, ← ofMembers, ih hfields]
    exact insert_of_forall_lt fun g hg => hlt g hg f (List.mem_singleton_self f)

theorem mem_of_mem_insert {f : String × Json} {key : String} {value : Json}
    {fields : List (String × Json)} (h : f ∈ insert key value fields) :
    f = (key, value) ∨ f ∈ fields := by
  induction fields with
  | nil => exact .inl (List.mem_singleton.mp h)
  | cons g fields ih =>
    rw [insert] at h
    split_ifs at h
    · exact (List.mem_cons.mp h).imp_right id
    · exact (List.mem_cons.mp h).imp_right (List.mem_cons_of_mem g)
    · rcases List.mem_cons.mp h with rfl | h
      · exact .inr List.mem_cons_self
      · exact (ih h).imp_right (List.mem_cons_of_mem g)

theorem mem_of_mem_ofMembers {f : String × Json} {members : List (String × Json)}
    (h : f ∈ ofMembers members) : f ∈ members := by
  induction members using List.reverseRecOn with
  | nil => simp [ofMembers] at h
  | append_singleton members g ih =>
    rw [ofMembers, List.foldl_concat, ← ofMembers] at h
    rcases mem_of_mem_insert h with rfl | h
    · exact List.mem_append_right _ (List.mem_singleton_self g)
    · exact List.mem_append_left _ (ih h)

theorem stable_textMap : Stable textMap := by
  intro j float m hm
  cases j with
  | object fields =>
    simp only [textMap] at hm
    split_ifs at hm with hall
    have htext : ∀ f ∈ fields, f.2.asStr.isSome = true := List.all_eq_true.mp hall
    have hsame : (fields.map fun f => (f.1, f.2.toValue float)) = fields := by
      conv_rhs => rw [← List.map_id fields]
      exact List.map_congr_left fun f hf => Prod.ext rfl (toValue_of_asStr (htext f hf))
    rw [toValue_object, hsame, textMap, if_pos, ofMembers_of_ordered (ordered_ofMembers fields)]
    · exact hm
    · exact List.all_eq_true.mpr fun f hf => htext f (mem_of_mem_ofMembers hf)
  | _ => simp [textMap] at hm

/-! ### Values -/

/-- The keys of every object are in order already. -/
def IsValue (j : Json) : Prop := j.toValue id = j

theorem isValue_string (s : String) : IsValue (string s) := by rw [IsValue, toValue]

theorem isValue_number (literal : String) : IsValue (number literal) := by
  rw [IsValue, toValue, written_id]

theorem isValue_bool (b : Bool) : IsValue (bool b) := by rw [IsValue, toValue]

/-- The members stay in their order. -/
theorem toValue_of_ordered {fields : List (String × Json)} (h : Ordered fields) :
    (object fields).toValue float = object (fields.map fun f => (f.1, f.2.toValue float)) := by
  have hmap : Ordered (fields.map fun f => (f.1, f.2.toValue float)) := List.pairwise_map.mpr h
  rw [toValue_object, ofMembers_of_ordered hmap]

theorem isValue_object {fields : List (String × Json)} (hordered : Ordered fields)
    (h : ∀ f ∈ fields, IsValue f.2) : IsValue (object fields) := by
  have hsame : (fields.map fun f => (f.1, f.2.toValue id)) = fields := by
    conv_rhs => rw [← List.map_id fields]
    exact List.map_congr_left fun f hf => Prod.ext rfl (h f hf)
  rw [IsValue, toValue_of_ordered hordered, hsame]

theorem isValue_of_mem_ofMembers {fields : List (String × Json)}
    (h : ∀ f ∈ fields, IsValue (f.2.toValue float)) :
    ∀ f ∈ ofMembers (fields.map fun f => (f.1, f.2.toValue float)), IsValue f.2 := by
  intro f hf
  obtain ⟨g, hg, rfl⟩ := List.mem_map.mp (mem_of_mem_ofMembers hf)
  exact h g hg

mutual

theorem isValue_toValue : (j : Json) → IsValue (j.toValue float)
  | .array xs => by
    rw [IsValue, toValue_array, toValue_array, List.map_map]
    exact congrArg array (List.map_congr_left fun x hx => isValue_of_mem xs x hx)
  | .object fields => by
    rw [toValue_object]
    exact isValue_object (ordered_ofMembers _)
      (isValue_of_mem_ofMembers fun f hf => isValue_of_mem_fields fields f hf)
  | .null => by rw [IsValue, toValue, toValue]
  | .bool b => by rw [IsValue, toValue, toValue]
  | .number literal => by rw [IsValue, toValue, toValue, written_id]
  | .string s => by rw [IsValue, toValue, toValue]

theorem isValue_of_mem : (xs : List Json) → ∀ x ∈ xs, IsValue (x.toValue float)
  | [] => by simp
  | x :: xs => List.forall_mem_cons.mpr ⟨isValue_toValue x, isValue_of_mem xs⟩

theorem isValue_of_mem_fields :
    (fields : List (String × Json)) → ∀ f ∈ fields, IsValue (f.2.toValue float)
  | [] => by simp
  | (_, x) :: fields => List.forall_mem_cons.mpr ⟨isValue_toValue x, isValue_of_mem_fields fields⟩

end

theorem isValue_object_iff {fields : List (String × Json)} :
    IsValue (object fields) ↔ Ordered fields ∧ ∀ f ∈ fields, IsValue f.2 := by
  refine ⟨fun h => ?_, fun ⟨hordered, h⟩ => isValue_object hordered h⟩
  rw [IsValue, toValue_object] at h
  injection h with h
  rw [← h]
  exact ⟨ordered_ofMembers _, isValue_of_mem_ofMembers fun f _ => isValue_toValue f.2⟩

theorem isValue_ofMembers {members : List (String × Json)} (h : ∀ f ∈ members, IsValue f.2) :
    IsValue (object (ofMembers members)) :=
  isValue_object (ordered_ofMembers members) fun f hf => h f (mem_of_mem_ofMembers hf)

theorem mem_of_get {fields : List (String × Json)} {name : String} {v : Json}
    (h : (object fields).get name = some v) : (name, v) ∈ fields := by
  obtain ⟨f, hf, rfl⟩ := Option.map_eq_some_iff.mp h
  have hname : f.1 = name := by simpa using List.find?_some hf
  rw [← hname]
  exact List.mem_of_find?_eq_some hf

theorem IsValue.insert {fields : List (String × Json)} {value : Json}
    (h : IsValue (object fields)) (key : String) (hvalue : IsValue value) :
    IsValue (object (Json.insert key value fields)) := by
  obtain ⟨hordered, hfields⟩ := isValue_object_iff.mp h
  refine isValue_object hordered.insert fun f hf => ?_
  rcases mem_of_mem_insert hf with rfl | hf
  · exact hvalue
  · exact hfields f hf

/-! ### Records -/

/-- A record, given by what becomes of its fields. -/
def record (names : List String) (build : (String → Option Json) → Option α) (j : Json) :
    Option α :=
  (j.distinctFields names).bind fun fields =>
    build fun name => ((names.zip fields).lookup name).join

theorem join_lookup_zip_map (names : List String) (fields : List (Option Json)) (name : String) :
    ((names.zip (fields.map (Option.map (toValue float)))).lookup name).join
      = (((names.zip fields).lookup name).join).map (toValue float) := by
  induction names generalizing fields with
  | nil => rfl
  | cons n names ih =>
    cases fields with
    | nil => rfl
    | cons f fields =>
      simp only [List.map_cons, List.zip_cons_cons, List.lookup_cons]
      split
      · rfl
      · exact ih fields

theorem once_of_record {names : List String} {build : (String → Option Json) → Option α}
    {fields : List (String × Json)} {a : α} (h : Json.record names build (object fields) = some a)
    {name : String} (hname : name ∈ names) :
    (fields.filter fun f => f.1 = name).length ≤ 1 := by
  obtain ⟨_, hfields, -⟩ := Option.bind_eq_some_iff.mp h
  rw [distinctFields] at hfields
  split_ifs at hfields with htwice
  by_contra hlt
  exact htwice (List.any_eq_true.mpr ⟨name, hname, by simpa using Nat.lt_of_not_le hlt⟩)

theorem lookup_zip_map (names : List String) (f : String → Option Json) (name : String) :
    ((names.zip (names.map f)).lookup name).join = if name ∈ names then f name else none := by
  induction names with
  | nil => rfl
  | cons n names ih =>
    rw [List.map_cons, List.zip_cons_cons, List.lookup_cons]
    by_cases h : name = n
    · simp [h]
    · have hne : (name == n) = false := by simpa using h
      simp only [hne, ih, List.mem_cons, h, false_or]

/-- In a map no name occurs twice, so a record is read off it by name. -/
theorem record_of_ordered {names : List String} {build : (String → Option Json) → Option α}
    {fields : List (String × Json)} (h : Ordered fields) :
    Json.record names build (object fields)
      = build fun name => if name ∈ names then (object fields).get name else none := by
  rw [Json.record, distinctFields, if_neg, structFields, Option.bind_some]
  · exact congrArg build (funext fun name => lookup_zip_map names _ name)
  · rw [List.any_eq_true]
    rintro ⟨name, -, hlt⟩
    exact absurd (of_decide_eq_true hlt) (Nat.not_lt.mpr (h.filter_length_le name))

theorem Stable.record {names : List String} {build : (String → Option Json) → Option α}
    (h : ∀ field float, Refines (build field) (build fun name => (field name).map (toValue float))) :
    Stable (Json.record names build) := by
  intro j float a ha
  obtain ⟨fields, hfields, hbuild⟩ := Option.bind_eq_some_iff.mp ha
  refine Option.bind_eq_some_iff.mpr ⟨_, distinctFields_toValue hfields, ?_⟩
  simp only [join_lookup_zip_map]
  exact h _ float a hbuild

end Json
