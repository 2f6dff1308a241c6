import WazabiAgent.Plugin.DataFields

/-!
# What enrichment adds

The text that `enrich_with_xml_data_fields` (`plugin/server.rs`) takes fields from is the plugin's to
choose, and so are their names. The payload is a field after field added, and a field that is there
stays: those the payload had, the event id over an element of that name, and the first of several
elements with one name.

## Main definitions

* `added` — what a text adds, the first of a name first
* `EventText` — the text of an event, with an id and a block of elements

## Main results

* `enrichment_adds_only` — what is read from an enriched payload, and that enriching it again
  changes nothing
* `name_of_mem_scanDataFields` — where the names come from
-/

namespace WazabiAgent

namespace Plugin

open Text

/-- The text of the field `raw_xml` of an object. -/
def rawXml (payload : Json) : Option String := (payload.get "raw_xml").bind Json.asStr

/-- The fields of a text in the order in which they are added. -/
def added (xml : List Char) : List (String × Json) :=
  ((scanEventId xml).map fun id => ("event_id", Json.number (toString id))).toList
    ++ (scanDataFields xml).map fun f => (f.1, Json.string f.2)

/-! ### Adding a field -/

variable {fields : List (String × Json)}

theorem get_insertNew (fields : List (String × Json)) (key name : String) (value : Json) :
    (Json.object (insertNew fields key value)).get name
      = ((Json.object fields).get name).or (if key = name then some value else none) := by
  rw [insertNew]
  split_ifs with hthere hname hname
  · subst hname
    obtain ⟨v, hv⟩ := Option.isSome_iff_exists.mp hthere
    rw [hv]
    rfl
  · rw [Option.or_none]
  · subst hname
    rw [Json.get_insert, if_pos rfl, Option.not_isSome_iff_eq_none.mp hthere]
    rfl
  · rw [Json.get_insert, if_neg hname, Option.or_none]

theorem insertNew_of_isSome {key : String} (h : ((Json.object fields).get key).isSome = true)
    (value : Json) : insertNew fields key value = fields := if_pos h

/-- Fields added one after the other. -/
def addAll (fields more : List (String × Json)) : List (String × Json) :=
  more.foldl (fun fs f => insertNew fs f.1 f.2) fields

theorem enrichFields_eq (fields : List (String × Json)) (xml : List Char) :
    enrichFields fields xml = addAll fields (added xml) := by
  rw [enrichFields, addAll, added, List.foldl_append, List.foldl_map]
  cases scanEventId xml <;> rfl

theorem get_addAll (fields more : List (String × Json)) (name : String) :
    (Json.object (addAll fields more)).get name
      = ((Json.object fields).get name).or (more.lookup name) := by
  induction more generalizing fields with
  | nil => simp [addAll]
  | cons f more ih =>
    obtain ⟨key, value⟩ := f
    have hstep : addAll fields ((key, value) :: more) = addAll (insertNew fields key value) more :=
      rfl
    rw [hstep, ih, get_insertNew, Option.or_assoc, List.lookup_cons]
    by_cases hname : key = name
    · simp [hname]
    · have hbeq : (name == key) = false := beq_false_of_ne (Ne.symm hname)
      simp [hname, hbeq]

/-- Fields that are all there are not added. -/
theorem addAll_eq_self {more : List (String × Json)}
    (h : ∀ f ∈ more, ((Json.object fields).get f.1).isSome = true) :
    addAll fields more = fields := by
  induction more with
  | nil => rfl
  | cons f more ih =>
    obtain ⟨hf, hmore⟩ := List.forall_mem_cons.mp h
    have hstep : addAll fields (f :: more) = addAll (insertNew fields f.1 f.2) more := rfl
    rw [hstep, insertNew_of_isSome hf, ih hmore]

theorem addAll_addAll (fields more : List (String × Json)) :
    addAll (addAll fields more) more = addAll fields more := by
  refine addAll_eq_self fun f hf => ?_
  have hlookup : (more.lookup f.1).isSome = true := by
    rw [List.lookup_isSome_iff]
    exact ⟨f, hf, beq_self_eq_true f.1⟩
  rw [get_addAll]
  cases (Json.object fields).get f.1 with
  | none => exact hlookup
  | some v => rfl

/-! ### Names -/

theorem mem_pushField {f : String × String} {name value : List Char}
    {fields : List (String × String)} (h : f ∈ pushField name value fields) :
    f.1 = normalizeDataKey name ∨ f ∈ fields := by
  rw [pushField] at h
  split_ifs at h
  · exact .inr h
  · rcases List.mem_cons.mp h with rfl | h
    · exact .inl rfl
    · exact .inr h

/-- The text has this name between quotes, behind the beginning of an element. -/
def HasName (xml name : List Char) : Prop :=
  ∃ q, (q = '"' ∨ q = '\'') ∧ openPrefix ++ q :: (name ++ [q]) <:+: xml

theorem HasName.of_suffix {xml rest name : List Char} (h : HasName rest name)
    (hrest : rest <:+ xml) : HasName xml name := by
  obtain ⟨q, hq, hinfix⟩ := h
  exact ⟨q, hq, hinfix.trans hrest.isInfix⟩

/-- The names of the fields are those of elements. -/
theorem name_of_mem_scanDataFields {xml : List Char} {f : String × String}
    (h : f ∈ scanDataFields xml) : ∃ name, HasName xml name ∧ f.1 = normalizeDataKey name := by
  induction hn : xml.length using Nat.strongRecOn generalizing xml with
  | ind n ih =>
    subst hn
    have later {rest : List Char} (hlt : rest.length < xml.length) (hrest : rest <:+ xml)
        (hf : f ∈ scanDataFields rest) :
        ∃ name, HasName xml name ∧ f.1 = normalizeDataKey name := by
      obtain ⟨name, hname, hkey⟩ := ih rest.length hlt hf rfl
      exact ⟨name, hname.of_suffix hrest, hkey⟩
    rw [scanDataFields_eq] at h
    split at h
    · exact absurd h List.not_mem_nil
    · exact absurd h List.not_mem_nil
    · rename_i before quote inner hopen
      have hxml := eq_of_cutAt hopen
      split_ifs at h with hquote
      · refine later (length_lt_of_cutAt (by decide) hopen) ⟨before ++ openPrefix, hxml.symm⟩ h
      · split at h
        · exact absurd h List.not_mem_nil
        · rename_i name rest hname
          have hinner := eq_of_cutAt hname
          split at h
          · exact absurd h List.not_mem_nil
          · rename_i left rest₁ htag
            have hrest := eq_of_cutAt htag
            split at h
            · exact absurd h List.not_mem_nil
            · rename_i value rest₂ hclose
              have hrest₁ := eq_of_cutAt hclose
              rcases mem_pushField h with hkey | hf
              · refine ⟨name, ⟨quote, ?_, before, rest, ?_⟩, hkey⟩
                · by_contra hneither
                  exact hquote (not_or.mp hneither)
                · rw [hxml, hinner]
                  simp
              · refine later ?_ ⟨before ++ openPrefix ++ quote :: (name ++ [quote] ++
                  (left ++ ['>'] ++ (value ++ closeTag))), ?_⟩ hf
                · rw [hxml, hinner, hrest, hrest₁]
                  simp only [List.length_append, List.length_cons]
                  omega
                · rw [hxml, hinner, hrest, hrest₁]
                  simp

theorem key_of_mem_added {xml : List Char} {f : String × Json} (h : f ∈ added xml) :
    f.1 = "event_id" ∨ ∃ name, HasName xml name ∧ f.1 = normalizeDataKey name := by
  rcases List.mem_append.mp h with h | h
  · obtain ⟨id, -, rfl⟩ := Option.map_eq_some_iff.mp (Option.mem_toList.mp h)
    exact .inl rfl
  · obtain ⟨g, hg, rfl⟩ := List.mem_map.mp h
    exact .inr (name_of_mem_scanDataFields hg)

/-! ### The text of an event -/

/-- What the tag of the id begins with. -/
def idPrefix : List Char := ['<', 'E', 'v', 'e', 'n', 't', 'I', 'D']

/-- What closes the id. -/
def idClose : List Char := ['<', '/', 'E', 'v', 'e', 'n', 't', 'I', 'D', '>']

/-- The beginning of an event, with its id. -/
structure EventHead where
  before : List Char
  /-- What the tag of the id has besides its name. -/
  attrs : List Char
  id : ℕ
  between : List Char
  before_id : ¬ idPrefix <:+: before
  attrs_gt : '>' ∉ attrs
  id_lt : id < UInt32.size

/-- The text up to the block of elements. -/
def EventHead.text (h : EventHead) : List Char :=
  h.before ++ (idPrefix ++ (h.attrs ++ '>' :: ((Nat.repr h.id).toList ++ (idClose ++ h.between))))

/-- The text of an event: an id, and behind it a block of elements. -/
structure EventText where
  head : EventHead
  data : EventData
  after : List Char
  head_open : ¬ openPrefix <:+: head.text
  after_open : ¬ openPrefix <:+: after
  after_close : ¬ closeTag <:+: after

/-- The text of the event. -/
def EventText.text (t : EventText) : List Char := t.head.text ++ (t.data.text ++ t.after)

theorem not_space_of_isDigit {c : Char} (h : c.isDigit = true) : isWhitespace c = false := by
  simp only [Char.isDigit, Bool.and_eq_true, decide_eq_true_eq] at h
  have hlow : 48 ≤ c.toNat := UInt32.le_iff_toNat_le.mp h.1
  have hhigh : c.toNat ≤ 57 := UInt32.le_iff_toNat_le.mp h.2
  simp only [isWhitespace, Bool.or_eq_false_iff, Bool.and_eq_false_iff, beq_eq_false_iff_ne,
    decide_eq_false_iff_not]
  omega

theorem parseU32_repr {n : ℕ} (h : n < UInt32.size) :
    parseU32 (trimText (Nat.repr n).toList) = some n := by
  have hdigits := Json.digits_repr n
  have htrim : trimText (Nat.repr n).toList = (Nat.repr n).toList :=
    trim_eq_self fun c hc => not_space_of_isDigit (List.all_eq_true.mp hdigits.2 c hc)
  have hplus : (Nat.repr n).toList.head? ≠ some '+' := by
    intro hhead
    have hdigit := List.all_eq_true.mp hdigits.2 '+' (List.mem_of_head? hhead)
    simp at hdigit
  simp only [htrim, parseU32, if_neg hplus, if_pos hdigits, Json.ofDigitChars_repr, if_pos h]

theorem scanEventId_of_cuts {xml before r₁ attrs r₂ value r₃ : List Char}
    (hstart : cutAt idPrefix xml = some (before, r₁)) (htag : cutAt ['>'] r₁ = some (attrs, r₂))
    (hend : cutAt idClose r₂ = some (value, r₃)) :
    scanEventId xml = parseU32 (trimText value) := by
  have hprefix : "<EventID".toList = idPrefix := by decide
  have hclose : "</EventID>".toList = idClose := by decide
  rw [scanEventId, hprefix, hclose, hstart]
  simp [htag, hend]

theorem EventHead.scanEventId_eq (h : EventHead) (rest : List Char) :
    scanEventId (h.text ++ rest) = some h.id := by
  have hstart : cutAt idPrefix (h.text ++ rest)
      = some (h.before, h.attrs ++ '>' :: ((Nat.repr h.id).toList
          ++ (idClose ++ (h.between ++ rest)))) := by
    have hfirst : cutAt idPrefix (h.before ++ (idPrefix ++ (h.attrs ++ '>' ::
        ((Nat.repr h.id).toList ++ (idClose ++ (h.between ++ rest)))))) = _ :=
      cutAt_first (by decide) h.before_id _
    rw [← hfirst, EventHead.text]
    simp only [List.append_assoc, List.cons_append]
  have htag : cutAt ['>'] (h.attrs ++ '>' :: ((Nat.repr h.id).toList
      ++ (idClose ++ (h.between ++ rest)))) = _ :=
    (passes_of_not_mem h.attrs_gt).cutAt_eq (by simp) _
  have hlt : '<' ∉ (Nat.repr h.id).toList := by
    intro hmem
    have hdigit := List.all_eq_true.mp (Json.digits_repr h.id).2 '<' hmem
    simp at hdigit
  have hend : cutAt idClose ((Nat.repr h.id).toList ++ (idClose ++ (h.between ++ rest))) = _ :=
    (passes_of_not_mem hlt).cutAt_eq (by decide) _
  exact (scanEventId_of_cuts hstart htag hend).trans (parseU32_repr h.id_lt)

/-- What has no element is passed over, before a tag. -/
theorem scan_before {u : List Char} (h : ¬ openPrefix <:+: u) (s : List Char) :
    scanDataFields (u ++ '<' :: s) = scanDataFields ('<' :: s) :=
  scan_of_cut (cutAt_before (by decide) h s)

theorem EventText.scanDataFields_eq (t : EventText) (h : ReadInStep t.data.elements) :
    scanDataFields t.text = fieldsOf t.data.elements := by
  have htail : IsTail (t.data.after ++ endTag ++ t.after) := by
    constructor
    · rw [t.data.passes_open, (cutAt_eq_none_iff (by decide)).mpr t.after_open]
      rfl
    · rw [t.data.passes_close, (cutAt_eq_none_iff (by decide)).mpr t.after_close]
      rfl
  have hstart : scanDataFields t.text
      = scanRest (t.data.after ++ endTag ++ t.after) t.data.elements := by
    have hblock : scanDataFields (startTag ++ (t.data.elements.flatMap DataElement.render
        ++ (t.data.after ++ endTag ++ t.after))) = _ :=
      scan_of_passes (passes_cons (by simp [openPrefix]) (passes_open_of_lt (by decide))) _
    have htext : t.text = t.head.text ++ '<' :: (startTag.tail
        ++ (t.data.elements.flatMap DataElement.render
          ++ (t.data.after ++ endTag ++ t.after))) := by
      simp [EventText.text, EventData.text, startTag]
    rw [htext, scan_before t.head_open]
    exact hblock
  rcases scanRest_spec htail t.data.elements with ⟨-, heq⟩ | ⟨hnot, -⟩
  · rw [hstart, heq]
  · exact absurd h hnot

theorem EventText.added_eq (t : EventText) (h : ReadInStep t.data.elements) :
    added t.text = ("event_id", Json.number (toString t.head.id))
      :: (fieldsOf t.data.elements).map fun f => (f.1, Json.string f.2) := by
  rw [added, t.scanDataFields_eq h, EventText.text, t.head.scanEventId_eq]
  rfl

theorem EventText.lookup_added (t : EventText) (h : ReadInStep t.data.elements) (key : String) :
    (added t.text).lookup key = if key = "event_id" then some (.number (toString t.head.id))
      else ((fieldsOf t.data.elements).lookup key).map Json.string := by
  have hfields (fs : List (String × String)) :
      (fs.map fun f => (f.1, Json.string f.2)).lookup key = (fs.lookup key).map Json.string := by
    induction fs with
    | nil => rfl
    | cons f fs ih =>
      rw [List.map_cons, List.lookup_cons, List.lookup_cons, ih]
      split <;> rfl
  rw [t.added_eq h, List.lookup_cons, hfields]
  by_cases hkey : key = "event_id"
  · simp [hkey]
  · have hbeq : (key == "event_id") = false := beq_false_of_ne hkey
    rw [hbeq, if_neg hkey]

/-! ### The payload -/

theorem enrich_of_rawXml {payload : Json} {xml : String} (h : rawXml payload = some xml) :
    ∃ fields, payload = .object fields ∧
      enrichWithXmlDataFields payload = .object (addAll fields (added xml.toList)) := by
  obtain ⟨v, hv, hstr⟩ := Option.bind_eq_some_iff.mp h
  cases payload with
  | object fields =>
    refine ⟨fields, rfl, ?_⟩
    cases v with
    | string s =>
      obtain rfl : s = xml := by simpa [Json.asStr] using hstr
      simp only [enrichWithXmlDataFields, hv, enrichFields_eq]
    | null | bool _ | number _ | array _ | object _ => cases hstr
  | null | bool _ | number _ | string _ | array _ => cases hv

theorem enrich_of_none {payload : Json} (h : rawXml payload = none) :
    enrichWithXmlDataFields payload = payload := by
  cases payload with
  | object fields =>
    simp only [enrichWithXmlDataFields]
    split
    · rename_i s hs
      simp [rawXml, hs, Json.asStr] at h
    · rfl
  | null | bool _ | number _ | string _ | array _ => rfl

/-- **Enrichment only adds.** A payload that is no object, or has no text `raw_xml`, stays as it is.
In any other, what is read is what was there, or else the first of what the text adds under the name.
So every field stays, `raw_xml` among them, and what is new is the event id or has the name of an
element. Where the text is that of an event whose elements can be read one after the other, what it
adds is its id and, under any other name, the value of the first element of that name that is not
blank. Enriching the payload again changes nothing. -/
theorem enrichment_adds_only (payload : Json) :
    (rawXml payload = none → enrichWithXmlDataFields payload = payload) ∧
      (∀ xml, rawXml payload = some xml → ∀ key,
        (enrichWithXmlDataFields payload).get key
            = (payload.get key).or ((added xml.toList).lookup key) ∧
          ((enrichWithXmlDataFields payload).get key ≠ payload.get key →
            key = "event_id" ∨ ∃ name, HasName xml.toList name ∧ key = normalizeDataKey name)) ∧
      (∀ key v, payload.get key = some v → (enrichWithXmlDataFields payload).get key = some v) ∧
      (∀ t : EventText, ReadInStep t.data.elements →
        rawXml payload = some (String.ofList t.text) → ∀ key,
          (enrichWithXmlDataFields payload).get key = (payload.get key).or
            (if key = "event_id" then some (.number (toString t.head.id))
            else ((fieldsOf t.data.elements).lookup key).map Json.string)) ∧
      enrichWithXmlDataFields (enrichWithXmlDataFields payload)
        = enrichWithXmlDataFields payload := by
  cases hxml : rawXml payload with
  | none =>
    have hsame := enrich_of_none hxml
    refine ⟨fun _ => hsame, fun xml h => (by cases h), fun key v hv => ?_,
      fun t _ h => (by cases h), ?_⟩
    · rwa [hsame]
    · rw [hsame, hsame]
  | some xml =>
    obtain ⟨fields, rfl, henrich⟩ := enrich_of_rawXml hxml
    have hget (key : String) : (enrichWithXmlDataFields (.object fields)).get key
        = ((Json.object fields).get key).or ((added xml.toList).lookup key) := by
      rw [henrich, get_addAll]
    have hkeep (key : String) (v : Json) (hv : (Json.object fields).get key = some v) :
        (enrichWithXmlDataFields (.object fields)).get key = some v := by
      rw [hget, hv]
      rfl
    refine ⟨fun h => (by cases h), fun xml' h key => ?_, hkeep, fun t hstep h key => ?_, ?_⟩
    · obtain rfl := Option.some.inj h
      refine ⟨hget key, fun hnew => ?_⟩
      rw [hget] at hnew
      cases hlookup : (added xml.toList).lookup key with
      | none =>
        rw [hlookup, Option.or_none] at hnew
        exact absurd rfl hnew
      | some v =>
        obtain ⟨before, after, heq, -⟩ := List.lookup_eq_some_iff.mp hlookup
        have hmem : (key, v) ∈ added xml.toList := by
          rw [heq]
          exact List.mem_append_right before List.mem_cons_self
        exact key_of_mem_added hmem
    · obtain rfl := Option.some.inj h
      rw [hget, String.toList_ofList, t.lookup_added hstep]
    · have hxml' : rawXml (enrichWithXmlDataFields (.object fields)) = some xml := by
        obtain ⟨v, hv, hstr⟩ := Option.bind_eq_some_iff.mp hxml
        rw [rawXml, hkeep _ v hv]
        exact hstr
      obtain ⟨fields', hfields', hagain⟩ := enrich_of_rawXml hxml'
      rw [hagain, henrich]
      rw [henrich] at hfields'
      obtain rfl := Json.object.inj hfields'
      rw [addAll_addAll]

/-! ### Two elements of one name -/

/-- Nothing opens no tag. -/
theorem no_tag_nil : '<' ∉ ([] : List Char) := List.not_mem_nil

/-- An element without attributes. -/
def dataElement (q : Quote) (name text : String) (hq : q.char ∉ name.toList)
    (hname : '<' ∉ name.toList) (htext : '<' ∉ text.toList) : DataElement where
  before := []
  quote := q
  name := name.toList
  attrs := []
  text := some text.toList
  before_lt := no_tag_nil
  name_quote := hq
  name_lt := hname
  attrs_lt := no_tag_nil
  text_lt _ ht := Option.some.inj ht ▸ htext

/-- A detection of Windows Defender with the name of the threat given twice, and an id of its
own among the data. -/
def detected : EventText where
  head := {
    before := "<Event><System>".toList
    attrs := " Qualifiers=\"0\"".toList
    id := 1116
    between := "</System>".toList
    before_id := by decide
    attrs_gt := by decide
    id_lt := by decide }
  data := {
    elements := [
      dataElement .double "Threat Name" "EICAR" (by decide) (by decide) (by decide),
      dataElement .single "threat_name" "none" (by decide) (by decide) (by decide),
      dataElement .double "Event ID" "7" (by decide) (by decide) (by decide),
      dataElement .double "Path" "C:\\x" (by decide) (by decide) (by decide)]
    after := []
    after_lt := no_tag_nil }
  after := "</Event>".toList
  head_open := by decide
  after_open := by decide
  after_close := by decide

/-- A payload with this text, and a field that one of the elements is named like. -/
def detectedPayload : Json :=
  .object [("path", .string "kept"), ("raw_xml", .string (String.ofList detected.text))]

/-- The first name counts, the id is that of the event, and what was there stays. -/
theorem detected_enriched :
    (enrichWithXmlDataFields detectedPayload).get "threat_name" = some (.string "EICAR") ∧
      (enrichWithXmlDataFields detectedPayload).get "event_id" = some (.number "1116") ∧
      (enrichWithXmlDataFields detectedPayload).get "path" = some (.string "kept") := by
  obtain ⟨-, -, -, htext, -⟩ := enrichment_adds_only detectedPayload
  have hget := htext detected ⟨by decide, by decide⟩ rfl
  refine ⟨(hget _).trans (by decide +kernel), (hget _).trans (by decide +kernel),
    (hget _).trans (by decide +kernel)⟩

end Plugin

end WazabiAgent
