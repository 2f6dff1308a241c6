import WazabiAgent.Config.Sections
import WazabiAgent.Lib.JsonText
import WazabiAgent.Lib.Text

/-!
# Enrichment of plugin payloads

A payload with a text `raw_xml` is an event that a plugin took over from the Windows event log.
`enrich_with_xml_data_fields` (`plugin/server.rs`) adds the event id and the `<Data>` elements of
that text as fields of the payload, unless a field of the name is there already. The text is
searched for fixed tags, not parsed.
-/

namespace WazabiAgent

namespace Plugin

open Text

/-! ### Searching the text -/

/-- `str::trim`. -/
def trimText (s : List Char) : List Char := trim isWhitespace s

/-- `str::parse::<u32>`, which allows a plus sign. -/
def parseU32 (s : List Char) : Option ℕ :=
  let digits := if s.head? = some '+' then s.tail else s
  if digits ≠ [] ∧ digits.all Char.isDigit then
    let n := Nat.ofDigitChars 10 digits 0
    if n < UInt32.size then some n else none
  else none

/-- `scan_event_id`. The tag may have attributes. -/
def scanEventId (xml : List Char) : Option ℕ := do
  let (_, rest) ← cutAt "<EventID".toList xml
  let (_, rest) ← cutAt ['>'] rest
  let (value, _) ← cutAt "</EventID>".toList rest
  parseU32 (trimText value)

/-- `normalize_data_key`. -/
def normalizeDataKey (name : List Char) : String :=
  String.ofList ((trimText name).map fun c => if c = ' ' then '_' else c.toLower)

/-- `decode_xml_entities`. -/
def decodeXmlEntities (s : List Char) : String :=
  if !s.contains '&' then String.ofList s
  else
    String.ofList
      (replace "&apos;" "'"
        (replace "&quot;" "\""
          (replace "&gt;" ">"
            (replace "&lt;" "<"
              (replace "&amp;" "&" s)))))

/-- `scan_data_fields`: the names and values of the `<Data Name=…>` elements. -/
def scanDataFields (xml : List Char) : List (String × String) :=
  match _h : cutAt "<Data Name=".toList xml with
  | none => []
  | some (_, rest) =>
    match _hq : rest with
    | [] => []
    | quote :: inner =>
      -- not a quote: go on after the prefix, with this character still to be read
      if quote ≠ '"' ∧ quote ≠ '\'' then scanDataFields rest
      else
        match _h1 : cutAt [quote] inner with
        | none => []
        | some (name, rest) =>
          match _h2 : cutAt ['>'] rest with
          | none => []
          | some (_, rest) =>
            match _h3 : cutAt "</Data>".toList rest with
            | none => []
            | some (value, rest) =>
              let value := trimText value
              if value = [] then scanDataFields rest
              else (normalizeDataKey name, decodeXmlEntities value) :: scanDataFields rest
termination_by xml.length
decreasing_by
  · exact _hq ▸ length_lt_of_cutAt (by decide) _h
  all_goals
    have h := length_lt_of_cutAt (by decide) _h
    have h1 := length_lt_of_cutAt (by simp) _h1
    have h2 := length_lt_of_cutAt (by simp) _h2
    have h3 := length_lt_of_cutAt (by decide) _h3
    rw [List.length_cons] at h
    omega

/-! ### The payload -/

/-- Put a field there, unless there is one of the name. -/
def insertNew (fields : List (String × Json)) (key : String) (value : Json) :
    List (String × Json) :=
  if ((Json.object fields).get key).isSome then fields else Json.insert key value fields

/-- The fields that the text adds. -/
def enrichFields (fields : List (String × Json)) (xml : List Char) : List (String × Json) :=
  let fields :=
    match scanEventId xml with
    | some id => insertNew fields "event_id" (.number (toString id))
    | none => fields
  (scanDataFields xml).foldl (fun fs kv => insertNew fs kv.1 (.string kv.2)) fields

/-- `enrich_with_xml_data_fields`. -/
def enrichWithXmlDataFields (payload : Json) : Json :=
  match payload with
  | .object fields =>
    match payload.get "raw_xml" with
    | some (.string s) => .object (enrichFields fields s.toList)
    | _ => payload
  | _ => payload

/-! ### Enrichment keeps values well-formed -/

theorem wellFormedFields_insertNew {fields : List (String × Json)} {key : String} {value : Json}
    (h : Json.wellFormedFields fields = true) (hv : value.wellFormed = true) :
    Json.wellFormedFields (insertNew fields key value) = true := by
  rw [insertNew]
  split_ifs
  · exact h
  · exact Json.wellFormedFields_insert hv h

theorem wellFormedFields_enrichFields {fields : List (String × Json)} (xml : List Char)
    (h : Json.wellFormedFields fields = true) :
    Json.wellFormedFields (enrichFields fields xml) = true := by
  rw [enrichFields]
  refine List.foldlRecOn (motive := fun fs => Json.wellFormedFields fs = true) _ _ ?_
    fun fs hfs kv _ => wellFormedFields_insertNew hfs rfl
  cases scanEventId xml with
  | none => exact h
  | some id => exact wellFormedFields_insertNew h (Json.isNumeral_repr id)

theorem wellFormed_enrich {payload : Json} (h : payload.wellFormed = true) :
    (enrichWithXmlDataFields payload).wellFormed = true := by
  unfold enrichWithXmlDataFields
  cases payload with
  | object fields =>
    dsimp only
    split
    · exact wellFormedFields_enrichFields _ h
    · exact h
  | null | bool _ | number _ | string _ | array _ => exact h

end Plugin

end WazabiAgent
