import WazabiAgent.Lib.Utf8
import WazabiAgent.Lib.XmlText
import WazabiAgent.Plugin.Enrichment

/-!
# The data fields of an event

What `scan_data_fields` and `decode_xml_entities` (`plugin/server.rs`) make of the text of a Windows
event. The search works with offsets in bytes, and off the boundary of a character it would panic:
`checkedDataFields` is that program.

Entities are replaced one after the other, the ampersand first. What then looks like one of the
other four is replaced as well.

The value of an element ends at the next end tag, and an element that closes itself has none. Where
an element with an end tag follows, the value is all that is in between.

## Main definitions

* `checkedDataFields` — the search, with its offsets checked
* `DataElement`, `eventData` — elements that begin with their name, and a block of them
* `fieldsOf` — the fields that a block has

## Main results

* `decode_escape_iff` — which texts come back from their escaping
* `scan_exact_iff` — which blocks are read exactly, and that the search never panics
-/

namespace WazabiAgent

namespace Plugin

open Text XmlText

/-! ### Entities -/

theorem decodeXmlEntities_eq (s : List Char) :
    decodeXmlEntities s = String.ofList (unescapeAll specials s) := by
  rw [decodeXmlEntities]
  split_ifs with hamp
  · have hfree : ∀ c ∈ specials, ¬ entity c <:+: s := by
      intro c hc hinfix
      rw [entity_eq_cons hc] at hinfix
      have hmem : '&' ∈ s := hinfix.subset List.mem_cons_self
      simp [hmem] at hamp
    rw [(unescapeAll_eq_self_iff fun _ => id).mpr hfree]
  · rfl

/-- The entities that are replaced after the ampersand. -/
def laterSpecials : List Char := ['<', '>', '"', '\'']

theorem special_of_mem_laterSpecials {c : Char} (h : c ∈ laterSpecials) : c ∈ specials :=
  List.mem_cons_of_mem _ h

/-- Of an escaped text, they are replaced in the text itself. -/
theorem decode_escape (v : List Char) :
    decodeXmlEntities (escape v) = String.ofList (unescapeAll laterSpecials v) := by
  have hamp : replaceFrom (entity '&') ['&'] 0 (escape v) = escapeOnly laterSpecials v := by
    rw [escape_eq, replace_escapeOnly_of_amp (fun _ => id) (by decide) (by decide)]
    rfl
  rw [decodeXmlEntities_eq]
  show String.ofList (unescapeAll laterSpecials (replaceFrom (entity '&') ['&'] 0 (escape v))) = _
  rw [hamp, unescapeAll_escapeOnly (fun _ => special_of_mem_laterSpecials) (by decide) (by decide)]

/-- Nothing in the text looks like one of the entities after the first. -/
def LooksPlain (v : List Char) : Prop :=
  ∀ e ∈ ["&lt;", "&gt;", "&quot;", "&apos;"], ¬ e.toList <:+: v

/-- **A text comes back from its escaping** if nothing in it looks like one of four entities. -/
theorem decode_escape_iff (v : List Char) :
    decodeXmlEntities (escape v) = String.ofList v ↔ LooksPlain v := by
  rw [decode_escape, String.ofList_inj,
    unescapeAll_eq_self_iff fun _ => special_of_mem_laterSpecials]
  simp [LooksPlain, laterSpecials, entity]

theorem escaped_lt_decoded : ¬ ∀ v, decodeXmlEntities (escape v) = String.ofList v := by
  intro h
  exact absurd (h ['&', 'l', 't', ';']) (by decide)

/-! ### The search in bytes -/

/-- `str::find`. -/
def find (pat s : List Char) : Option ℕ := (cutAt pat s).map fun p => String.utf8Len p.1

/-- `OPEN_PREFIX`. -/
def openPrefix : List Char := ['<', 'D', 'a', 't', 'a', ' ', 'N', 'a', 'm', 'e', '=']

/-- `CLOSE`. -/
def closeTag : List Char := ['<', '/', 'D', 'a', 't', 'a', '>']

theorem toList_openPrefix : "<Data Name=".toList = openPrefix := by decide

theorem toList_closeTag : "</Data>".toList = closeTag := by decide

/-- The loop of `scan_data_fields`. The first argument bounds the number of its turns. -/
def checkedLoop : ℕ → List Char → List (String × String) → Option (List (String × String))
  | 0, _, _ => none
  | fuel + 1, rest, out =>
    match find openPrefix rest with
    | none => some out
    | some off => do
      let rest ← Utf8.dropBytes (off + String.utf8Len openPrefix) rest
      match rest with
      | [] => some out
      | quote :: _ =>
        if quote ≠ '"' ∧ quote ≠ '\'' then checkedLoop fuel rest out
        else do
          let rest ← Utf8.dropBytes quote.utf8Size rest
          match find [quote] rest with
          | none => some out
          | some nameEnd => do
            let name ← Utf8.takeBytes nameEnd rest
            let rest ← Utf8.dropBytes (nameEnd + quote.utf8Size) rest
            match find ['>'] rest with
            | none => some out
            | some tagEnd => do
              let rest ← Utf8.dropBytes (tagEnd + 1) rest
              match find closeTag rest with
              | none => some out
              | some valEnd => do
                let value ← Utf8.takeBytes valEnd rest
                let rest ← Utf8.dropBytes (valEnd + String.utf8Len closeTag) rest
                if trimText value = [] then checkedLoop fuel rest out
                else
                  checkedLoop fuel rest
                    (out ++ [(normalizeDataKey name, decodeXmlEntities (trimText value))])

/-- `scan_data_fields`, or nothing if a slice panics. -/
def checkedDataFields (xml : List Char) : Option (List (String × String)) :=
  checkedLoop (xml.length + 1) xml []

/-- A value that is blank is left out. -/
def pushField (name value : List Char) (fields : List (String × String)) :
    List (String × String) :=
  if trimText value = [] then fields
  else (normalizeDataKey name, decodeXmlEntities (trimText value)) :: fields

/-- One turn of the search. -/
theorem scanDataFields_eq (xml : List Char) :
    scanDataFields xml =
      match cutAt openPrefix xml with
      | none => []
      | some (_, []) => []
      | some (_, quote :: inner) =>
        if quote ≠ '"' ∧ quote ≠ '\'' then scanDataFields (quote :: inner)
        else
          match cutAt [quote] inner with
          | none => []
          | some (name, rest) =>
            match cutAt ['>'] rest with
            | none => []
            | some (_, rest) =>
              match cutAt closeTag rest with
              | none => []
              | some (value, rest) => pushField name value (scanDataFields rest) := by
  rw [scanDataFields]
  split
  · rename_i h
    rw [toList_openPrefix] at h
    rw [h]
  · rename_i rest h
    rw [toList_openPrefix] at h
    rw [h]
    cases rest with
    | nil => rfl
    | cons quote inner =>
      simp only
      split_ifs
      · rfl
      · split
        · rename_i h
          rw [h]
        · rename_i name rest h
          rw [h]
          simp only
          split
          · rename_i h
            rw [h]
          · rename_i rest h
            rw [h]
            simp only
            split
            · rename_i h
              rw [toList_closeTag] at h
              rw [h]
            · rename_i h
              rw [toList_closeTag] at h
              rw [h]
              rfl

/-- What is found is where the text is cut, and the slices behind it are valid. -/
theorem find_eq_some {pat s before after : List Char} (h : cutAt pat s = some (before, after)) :
    find pat s = some (String.utf8Len before) ∧
      Utf8.takeBytes (String.utf8Len before) s = some before ∧
        Utf8.dropBytes (String.utf8Len before + String.utf8Len pat) s = some after := by
  have hs := eq_of_cutAt h
  refine ⟨by rw [find, h]; rfl, ?_, ?_⟩
  · rw [hs, List.append_assoc]
    exact Utf8.takeBytes_utf8Len _ _
  · rw [hs, ← String.utf8Len_append]
    exact Utf8.dropBytes_utf8Len _ _

theorem find_eq_none {pat s : List Char} (h : cutAt pat s = none) : find pat s = none := by
  rw [find, h]
  rfl

/-- **The search never panics**, and comes to its end. -/
theorem checkedLoop_eq {fuel : ℕ} {xml : List Char} (hfuel : xml.length < fuel)
    (out : List (String × String)) :
    checkedLoop fuel xml out = some (out ++ scanDataFields xml) := by
  induction fuel generalizing xml out with
  | zero => exact absurd hfuel (Nat.not_lt_zero _)
  | succ fuel ih =>
    rw [checkedLoop, scanDataFields_eq]
    cases hopen : cutAt openPrefix xml with
    | none => simp [find_eq_none hopen]
    | some p =>
      obtain ⟨before, rest⟩ := p
      obtain ⟨hfind, -, hdrop⟩ := find_eq_some hopen
      have hlen := length_lt_of_cutAt (by decide) hopen
      simp only [hfind, hdrop, Option.bind_eq_bind, Option.bind_some]
      cases rest with
      | nil => simp
      | cons quote inner =>
        simp only
        split_ifs with hquote
        · exact ih (by omega) out
        · have hinner : Utf8.dropBytes quote.utf8Size (quote :: inner) = some inner := by
            simpa using Utf8.dropBytes_utf8Len [quote] inner
          rw [List.length_cons] at hlen
          simp only [hinner, Option.bind_some]
          cases hname : cutAt [quote] inner with
          | none => simp [find_eq_none hname]
          | some p =>
            obtain ⟨name, rest⟩ := p
            obtain ⟨hfind, htake, hdrop⟩ := find_eq_some hname
            have hlen₁ := length_lt_of_cutAt (by simp) hname
            have hone : String.utf8Len [quote] = quote.utf8Size := by simp
            rw [hone] at hdrop
            simp only [hfind, htake, hdrop, Option.bind_some]
            cases htag : cutAt ['>'] rest with
            | none => simp [find_eq_none htag]
            | some p =>
              obtain ⟨before, rest⟩ := p
              obtain ⟨hfind, -, hdrop⟩ := find_eq_some htag
              have hlen₂ := length_lt_of_cutAt (by simp) htag
              have hgt : String.utf8Len ['>'] = 1 := by decide
              rw [hgt] at hdrop
              simp only [hfind, hdrop, Option.bind_some]
              cases hclose : cutAt closeTag rest with
              | none => simp [find_eq_none hclose]
              | some p =>
                obtain ⟨value, rest⟩ := p
                obtain ⟨hfind, htake, hdrop⟩ := find_eq_some hclose
                have hlen₃ := length_lt_of_cutAt (by decide) hclose
                simp only [hfind, htake, hdrop, Option.bind_some]
                rw [pushField]
                split_ifs with hblank
                · exact ih (by omega) out
                · rw [ih (by omega), List.append_assoc, List.singleton_append]

theorem checkedDataFields_eq (xml : List Char) :
    checkedDataFields xml = some (scanDataFields xml) :=
  checkedLoop_eq (Nat.lt_succ_self _) []

/-! ### Elements -/

/-- The quotes of an attribute. -/
inductive Quote
  | single
  | double

/-- The character. -/
def Quote.char : Quote → Char
  | .single => '\''
  | .double => '"'

/-- A `<Data>` element that begins with its name, and what is before it. The rest of its tag may
hold further attributes, with a `>` in a value. An element that closes itself has no text. -/
structure DataElement where
  before : List Char
  quote : Quote
  name : List Char
  attrs : List Char
  text : Option (List Char)
  before_lt : '<' ∉ before
  name_quote : quote.char ∉ name
  name_lt : '<' ∉ name
  attrs_lt : '<' ∉ attrs
  text_lt : ∀ t, text = some t → '<' ∉ t

namespace DataElement

/-- Up to the end of the name. -/
def head (e : DataElement) : List Char :=
  e.before ++ (openPrefix ++ (e.quote.char :: (e.name ++ [e.quote.char])))

/-- The text of an element. -/
def render (e : DataElement) : List Char :=
  match e.text with
  | none => e.head ++ (e.attrs ++ ['/', '>'])
  | some t => e.head ++ (e.attrs ++ '>' :: (t ++ closeTag))

/-- The field that the element is. -/
def addTo (e : DataElement) (fields : List (String × String)) : List (String × String) :=
  match e.text with
  | none => fields
  | some t => pushField e.name t fields

end DataElement

/-- A block of elements, and what is behind the last one. -/
structure EventData where
  elements : List DataElement
  after : List Char
  after_lt : '<' ∉ after

/-- What opens the block. -/
def startTag : List Char := ['<', 'E', 'v', 'e', 'n', 't', 'D', 'a', 't', 'a', '>']

/-- What closes the block. -/
def endTag : List Char := ['<', '/', 'E', 'v', 'e', 'n', 't', 'D', 'a', 't', 'a', '>']

/-- The text of the block. -/
def EventData.text (b : EventData) : List Char :=
  startTag ++ (b.elements.flatMap DataElement.render ++ (b.after ++ endTag))

/-- The names and the values of the elements that are not blank, in their order. -/
def fieldsOf (es : List DataElement) : List (String × String) := es.foldr DataElement.addTo []

/-- No element that closes itself is before one with an end tag, and in the tag of none of these is
a `>`. -/
def ReadInStep (es : List DataElement) : Prop :=
  es.Pairwise (fun e f => e.text = none → f.text = none) ∧
    ∀ e ∈ es, e.text ≠ none → '>' ∉ e.attrs

/-! ### What the search finds -/

theorem quote_ne_lt (q : Quote) : q.char ≠ '<' := by
  cases q <;> decide

theorem passes_open_of_lt {u : List Char} (h : '<' ∉ u) : Passes openPrefix u :=
  passes_of_not_mem h

theorem passes_close_of_lt {u : List Char} (h : '<' ∉ u) : Passes closeTag u :=
  passes_of_not_mem h

theorem passes_close_open : Passes closeTag openPrefix :=
  passes_cons (by simp [closeTag]) (passes_close_of_lt (by decide))

theorem passes_close_head (e : DataElement) : Passes closeTag e.head := by
  have hq : '<' ∉ e.quote.char :: (e.name ++ [e.quote.char]) := by
    have hne := quote_ne_lt e.quote
    simp [hne.symm, e.name_lt]
  exact (passes_close_of_lt e.before_lt).append (passes_close_open.append (passes_close_of_lt hq))

variable {e : DataElement} {es : List DataElement}

theorem passes_close_render (h : e.text = none) : Passes closeTag e.render := by
  rw [DataElement.render, h]
  exact (passes_close_head e).append
    ((passes_close_of_lt e.attrs_lt).append (passes_close_of_lt (by decide)))

theorem passes_close_flatMap (h : ∀ f ∈ es, f.text = none) :
    Passes closeTag (es.flatMap DataElement.render) := by
  induction es with
  | nil => exact passes_nil
  | cons f es ih =>
    exact (passes_close_render (h f List.mem_cons_self)).append
      (ih fun g hg => h g (List.mem_cons_of_mem _ hg))

/-- What is behind the elements has no further one, and no end tag. -/
structure IsTail (tail : List Char) : Prop where
  no_open : cutAt openPrefix tail = none
  no_close : cutAt closeTag tail = none

theorem EventData.passes_open (b : EventData) : Passes openPrefix (b.after ++ endTag) :=
  (passes_open_of_lt b.after_lt).append
    (passes_cons (by simp [openPrefix])
      (passes_open_of_lt (by decide)))

theorem EventData.passes_close (b : EventData) : Passes closeTag (b.after ++ endTag) :=
  (passes_close_of_lt b.after_lt).append
    (passes_cons (by simp [closeTag])
      (passes_close_of_lt (by decide)))

theorem EventData.isTail (b : EventData) : IsTail (b.after ++ endTag) :=
  ⟨b.passes_open.cutAt_eq_none (by decide), b.passes_close.cutAt_eq_none (by decide)⟩

/-- Only what is behind the beginning of an element counts. -/
theorem scan_of_cut {u s s' : List Char}
    (h : cutAt openPrefix s' = (cutAt openPrefix s).map fun p => (u ++ p.1, p.2)) :
    scanDataFields s' = scanDataFields s := by
  rw [scanDataFields_eq, scanDataFields_eq s, h]
  rcases cutAt openPrefix s with _ | ⟨before, _ | ⟨quote, inner⟩⟩ <;> rfl

theorem scan_of_passes {u : List Char} (h : Passes openPrefix u) (s : List Char) :
    scanDataFields (u ++ s) = scanDataFields s := scan_of_cut (h s)

/-- Behind the name comes the end of the tag, and then the value. -/
theorem scan_head (e : DataElement) (rest : List Char) :
    scanDataFields (e.head ++ rest) =
      match cutAt ['>'] rest with
      | none => []
      | some (_, rest) =>
        match cutAt closeTag rest with
        | none => []
        | some (value, rest) => pushField e.name value (scanDataFields rest) := by
  have hopen : cutAt openPrefix (e.head ++ rest)
      = some (e.before, e.quote.char :: (e.name ++ ([e.quote.char] ++ rest))) := by
    have hcut := (passes_open_of_lt e.before_lt).cutAt_eq (by decide)
      (e.quote.char :: (e.name ++ ([e.quote.char] ++ rest)))
    simpa [DataElement.head] using hcut
  have hname : cutAt [e.quote.char] (e.name ++ ([e.quote.char] ++ rest)) = some (e.name, rest) :=
    (passes_of_not_mem e.name_quote).cutAt_eq (by simp) rest
  have hquote : ¬ (e.quote.char ≠ '"' ∧ e.quote.char ≠ '\'') := by
    cases e.quote <;> decide
  rw [scanDataFields_eq, hopen]
  simp only [if_neg hquote, hname]

/-- The tag ends at its first `>`, which may be in an attribute. Then what is left of the tag comes
before the text. -/
theorem exists_tagEnd (a : List Char) :
    ∃ left, (∀ s, ∃ before, cutAt ['>'] (a ++ '>' :: s) = some (before, left ++ s)) ∧
      ('<' ∉ a → '<' ∉ left) ∧ ('>' ∉ a → left = []) ∧
        ('>' ∈ a → ∃ left', left = left' ++ ['>']) := by
  by_cases hgt : '>' ∈ a
  · obtain ⟨u, v, rfl, hu⟩ := List.eq_append_cons_of_mem hgt
    refine ⟨v ++ ['>'], fun s => ⟨u, ?_⟩, fun h => ?_, fun h => absurd hgt h, fun _ => ⟨v, rfl⟩⟩
    · have hpass : Passes ['>'] u := passes_of_not_mem hu
      have hcut := hpass.cutAt_eq (by simp) (v ++ '>' :: s)
      simpa using hcut
    · simp at h ⊢
      exact h.2
  · refine ⟨[], fun s => ⟨a, ?_⟩, fun _ => List.not_mem_nil, fun _ => rfl, fun h => absurd h hgt⟩
    have hpass : Passes ['>'] a := passes_of_not_mem hgt
    exact hpass.cutAt_eq (by simp) s

theorem scan_of_text {t : List Char} (h : e.text = some t) :
    ∃ left,
      (∀ s, scanDataFields (e.render ++ s) = pushField e.name (left ++ t) (scanDataFields s)) ∧
      ('>' ∉ e.attrs → left = []) ∧ ('>' ∈ e.attrs → ∃ left', left = left' ++ ['>']) := by
  obtain ⟨left, htag, hlt, hnone, hsome⟩ := exists_tagEnd e.attrs
  refine ⟨left, fun s => ?_, hnone, hsome⟩
  obtain ⟨before, hcut⟩ := htag (t ++ (closeTag ++ s))
  have hpass : Passes closeTag (left ++ t) :=
    (passes_close_of_lt (hlt e.attrs_lt)).append (passes_close_of_lt (e.text_lt t h))
  have hclose : cutAt closeTag (left ++ (t ++ (closeTag ++ s))) = some (left ++ t, s) := by
    rw [← List.append_assoc]
    exact hpass.cutAt_eq (by decide) s
  have hrender : e.render ++ s = e.head ++ (e.attrs ++ '>' :: (t ++ (closeTag ++ s))) := by
    rw [DataElement.render, h]
    simp
  rw [hrender, scan_head, hcut]
  simp only [hclose]

/-- An element that closes itself takes what comes before the next end tag. -/
theorem scan_of_none (h : e.text = none) :
    ∃ left, '<' ∉ left ∧ ∀ s, scanDataFields (e.render ++ s) =
      match cutAt closeTag (left ++ s) with
      | none => []
      | some (value, rest) => pushField e.name value (scanDataFields rest) := by
  obtain ⟨left, htag, hlt, -, -⟩ := exists_tagEnd (e.attrs ++ ['/'])
  refine ⟨left, hlt (by simp [e.attrs_lt]), fun s => ?_⟩
  obtain ⟨before, hcut⟩ := htag s
  have hrender : e.render ++ s = e.head ++ ((e.attrs ++ ['/']) ++ '>' :: s) := by
    rw [DataElement.render, h]
    simp
  rw [hrender, scan_head, hcut]

/-! ### How long the values are -/

/-- The length of all values. -/
def total (fields : List (String × String)) : ℕ := (fields.map fun f => f.2.length).sum

theorem not_space_of_mem_entity {c d : Char} (hc : c ∈ specials) (hd : d ∈ entity c) :
    isWhitespace d = false := by
  simp only [specials, List.mem_cons, List.not_mem_nil, or_false] at hc
  rcases hc with rfl | rfl | rfl | rfl | rfl <;>
    simp only [entity, List.mem_cons, List.not_mem_nil, or_false] at hd <;>
    rcases hd with rfl | rfl | rfl | rfl | rfl | rfl <;> decide

theorem gt_not_mem_entity {c : Char} (hc : c ∈ specials) : '>' ∉ entity c := by
  simp only [specials, List.mem_cons, List.not_mem_nil, or_false] at hc
  rcases hc with rfl | rfl | rfl | rfl | rfl <;> decide

/-- A longer text before a `>` makes a longer value. -/
theorem length_decode_lt (u t : List Char) :
    (decodeXmlEntities (trimText t)).length
      < (decodeXmlEntities (trimText (u ++ '>' :: t))).length := by
  obtain ⟨a, ha, ht⟩ := exists_rdropWhile_eq isWhitespace t
  have hspace : unescapeAll specials (a ++ trimText t)
      = a ++ unescapeAll specials (trimText t) := by
    refine unescapeAll_append (fun b hb c hc hmem => ?_) _
    have hspace := ha b hb
    rw [not_space_of_mem_entity hc hmem] at hspace
    exact Bool.false_ne_true hspace
  have htrim : trimText (u ++ '>' :: t)
      = u.dropWhile isWhitespace ++ '>' :: (a ++ trimText t) := by
    rw [trimText, trim_around (by decide), ht]
    rfl
  rw [htrim, decodeXmlEntities_eq, decodeXmlEntities_eq,
    unescapeAll_barrier fun _ => gt_not_mem_entity, hspace]
  simp only [String.length_ofList, List.length_append, List.length_cons]
  omega

theorem trimText_ne_nil (u t : List Char) : trimText (u ++ '>' :: t) ≠ [] := by
  rw [trimText, trim_around (by decide)]
  simp

/-- So does a field that is taken together with what is before a `>`, blank or not. -/
theorem total_pushField_lt (n n' u t : List Char) {fields fields' : List (String × String)}
    (h : total fields ≤ total fields') :
    total (pushField n t fields) < total (pushField n' (u ++ '>' :: t) fields') := by
  have hlong := length_decode_lt u t
  have hpush : total (pushField n' (u ++ '>' :: t) fields')
      = (decodeXmlEntities (trimText (u ++ '>' :: t))).length + total fields' := by
    rw [pushField, if_neg (trimText_ne_nil u t), total, List.map_cons, List.sum_cons, total]
  rw [hpush, pushField]
  split_ifs
  · omega
  · rw [total, List.map_cons, List.sum_cons, ← total]
    simp only
    omega

theorem total_pushField_lt_of_lt (n t : List Char) {fields fields' : List (String × String)}
    (h : total fields < total fields') :
    total (pushField n t fields) < total (pushField n t fields') := by
  rw [pushField, pushField]
  split_ifs
  · exact h
  · rw [total, total, List.map_cons, List.map_cons, List.sum_cons, List.sum_cons, ← total, ← total]
    exact Nat.add_lt_add_left h _

/-! ### Blocks -/

theorem fieldsOf_cons (e : DataElement) (es : List DataElement) :
    fieldsOf (e :: es) = e.addTo (fieldsOf es) := rfl

theorem fieldsOf_append_of_none {mids : List DataElement} (h : ∀ f ∈ mids, f.text = none)
    (es : List DataElement) : fieldsOf (mids ++ es) = fieldsOf es := by
  induction mids with
  | nil => rfl
  | cons f mids ih =>
    rw [List.cons_append, fieldsOf_cons, DataElement.addTo, h f List.mem_cons_self]
    exact ih fun g hg => h g (List.mem_cons_of_mem _ hg)

theorem readInStep_of_none (h : ∀ f ∈ es, f.text = none) : ReadInStep es := by
  exact ⟨List.pairwise_of_forall_mem_list fun _ _ f hf _ => h f hf,
    fun f hf hne => absurd (h f hf) hne⟩

theorem readInStep_cons_of_text {t : List Char} (h : e.text = some t) :
    ReadInStep (e :: es) ↔ '>' ∉ e.attrs ∧ ReadInStep es := by
  rw [ReadInStep, ReadInStep, List.pairwise_cons, List.forall_mem_cons, h]
  simp only [reduceCtorEq, false_implies, implies_true, true_and, ne_eq, not_false_eq_true,
    forall_const]
  exact and_left_comm

theorem not_readInStep {f : DataElement} (h : e.text = none) (hf : f ∈ es) (hne : f.text ≠ none) :
    ¬ ReadInStep (e :: es) := fun hstep =>
  hne ((List.pairwise_cons.mp hstep.1).1 f hf h)

/-- The first element with an end tag. -/
theorem exists_first (h : ¬ ∀ f ∈ es, f.text = none) :
    ∃ mids f t post, es = mids ++ f :: post ∧ (∀ g ∈ mids, g.text = none) ∧ f.text = some t := by
  induction es with
  | nil => exact absurd (fun f hf => absurd hf List.not_mem_nil) h
  | cons f es ih =>
    cases hf : f.text with
    | some t => exact ⟨[], f, t, es, rfl, fun g hg => absurd hg List.not_mem_nil, hf⟩
    | none =>
      have hrest : ¬ ∀ g ∈ es, g.text = none := fun hall =>
        h (List.forall_mem_cons.mpr ⟨hf, hall⟩)
      obtain ⟨mids, g, t, post, rfl, hmids, hg⟩ := ih hrest
      exact ⟨f :: mids, g, t, post, rfl, List.forall_mem_cons.mpr ⟨hf, hmids⟩, hg⟩

/-- What the search makes of the elements that follow. -/
def scanRest (tail : List Char) (es : List DataElement) : List (String × String) :=
  scanDataFields (es.flatMap DataElement.render ++ tail)

/-- One element is taken together with all up to the next end tag. -/
theorem scanRest_swallow {tail : List Char} {mids post : List DataElement} {f : DataElement}
    {t : List Char} (h : e.text = none) (hmids : ∀ g ∈ mids, g.text = none) (hf : f.text = some t) :
    ∃ u, scanRest tail (e :: (mids ++ f :: post))
      = pushField e.name (u ++ '>' :: t) (scanRest tail post) := by
  obtain ⟨left, hlt, hscan⟩ := scan_of_none h
  have hpass : Passes closeTag
      (left ++ (mids.flatMap DataElement.render ++ (f.head ++ f.attrs)) ++ '>' :: t) :=
    ((passes_close_of_lt hlt).append ((passes_close_flatMap hmids).append
      ((passes_close_head f).append (passes_close_of_lt f.attrs_lt)))).append
        (passes_close_of_lt (by simp [f.text_lt t hf]))
  have hcut := hpass.cutAt_eq (by decide) (post.flatMap DataElement.render ++ tail)
  refine ⟨left ++ (mids.flatMap DataElement.render ++ (f.head ++ f.attrs)), ?_⟩
  have hrest : left ++ ((mids ++ f :: post).flatMap DataElement.render ++ tail)
      = left ++ (mids.flatMap DataElement.render ++ (f.head ++ f.attrs)) ++ '>' :: t
        ++ (closeTag ++ (post.flatMap DataElement.render ++ tail)) := by
    rw [List.flatMap_append, List.flatMap_cons, DataElement.render, hf]
    simp
  rw [scanRest, List.flatMap_cons, List.append_assoc, hscan, hrest, hcut]
  rfl

theorem scanRest_spec {tail : List Char} (htail : IsTail tail) (es : List DataElement) :
    (ReadInStep es ∧ scanRest tail es = fieldsOf es) ∨
      ¬ ReadInStep es ∧ total (fieldsOf es) < total (scanRest tail es) := by
  induction hn : es.length using Nat.strongRecOn generalizing es with
  | ind n ih =>
    subst hn
    cases es with
    | nil =>
      refine .inl ⟨readInStep_of_none (by simp), ?_⟩
      rw [scanRest, List.flatMap_nil, List.nil_append, scanDataFields_eq,
        htail.no_open]
      rfl
    | cons e es =>
      cases htext : e.text with
      | some t =>
        obtain ⟨left, hscan, hnone, hsome⟩ := scan_of_text htext
        have hrest : scanRest tail (e :: es) = pushField e.name (left ++ t) (scanRest tail es) := by
          rw [scanRest, List.flatMap_cons, List.append_assoc, hscan]
          rfl
        have hfields : fieldsOf (e :: es) = pushField e.name t (fieldsOf es) := by
          rw [fieldsOf_cons, DataElement.addTo, htext]
        have hlater := ih es.length (by rw [List.length_cons]; omega) es rfl
        rw [readInStep_cons_of_text htext, hrest, hfields]
        by_cases hgt : '>' ∈ e.attrs
        · -- the text is read with the rest of the tag before it
          obtain ⟨left', rfl⟩ := hsome hgt
          refine .inr ⟨fun h => h.1 hgt, ?_⟩
          have hle : total (fieldsOf es) ≤ total (scanRest tail es) := by
            rcases hlater with ⟨-, heq⟩ | ⟨-, hlt⟩
            · rw [heq]
            · exact Nat.le_of_lt hlt
          rw [List.append_assoc]
          exact total_pushField_lt _ _ _ _ hle
        · obtain rfl := hnone hgt
          rw [List.nil_append]
          rcases hlater with ⟨hstep, heq⟩ | ⟨hstep, hlt⟩
          · exact .inl ⟨⟨hgt, hstep⟩, by rw [heq]⟩
          · exact .inr ⟨fun h => hstep h.2, total_pushField_lt_of_lt _ _ hlt⟩
      | none =>
        have hskip : fieldsOf (e :: es) = fieldsOf es := by
          rw [fieldsOf_cons, DataElement.addTo, htext]
        by_cases hall : ∀ f ∈ es, f.text = none
        · -- no end tag follows, and the search ends
          obtain ⟨left, hlt, hscan⟩ := scan_of_none htext
          have hclose :
              cutAt closeTag (left ++ (es.flatMap DataElement.render ++ tail)) = none := by
            rw [passes_close_of_lt hlt, passes_close_flatMap hall, htail.no_close]
            rfl
          have hfields : fieldsOf es = [] := by
            have hnone := fieldsOf_append_of_none hall []
            rwa [List.append_nil] at hnone
          refine .inl ⟨readInStep_of_none (List.forall_mem_cons.mpr ⟨htext, hall⟩), ?_⟩
          rw [hskip, hfields, scanRest, List.flatMap_cons, List.append_assoc, hscan, hclose]
        · obtain ⟨mids, f, t, post, rfl, hmids, hf⟩ := exists_first hall
          obtain ⟨u, hscan⟩ : ∃ u, scanRest tail (e :: (mids ++ f :: post))
              = pushField e.name (u ++ '>' :: t) (scanRest tail post) :=
            scanRest_swallow htext hmids hf
          have hlater := ih post.length (by simp; omega) post rfl
          have hle : total (fieldsOf post) ≤ total (scanRest tail post) := by
            rcases hlater with ⟨-, heq⟩ | ⟨-, hlt⟩
            · rw [heq]
            · exact Nat.le_of_lt hlt
          have hmem : f ∈ mids ++ f :: post := List.mem_append_right mids List.mem_cons_self
          refine .inr ⟨not_readInStep htext hmem (by rw [hf]; exact Option.some_ne_none t), ?_⟩
          rw [hskip, fieldsOf_append_of_none hmids, fieldsOf_cons, DataElement.addTo, hf, hscan]
          exact total_pushField_lt _ _ _ _ hle

/-- **The fields of a block are read exactly** if no element that closes itself is before one with
an end tag, and no tag of these has a `>`. On no text does the search panic. -/
theorem scan_exact_iff (xml : List Char) (b : EventData) :
    (∃ fields, checkedDataFields xml = some fields) ∧
      (checkedDataFields b.text = some (fieldsOf b.elements) ↔ ReadInStep b.elements) := by
  refine ⟨⟨_, checkedDataFields_eq xml⟩, ?_⟩
  have hstart : scanDataFields b.text = scanRest (b.after ++ endTag) b.elements :=
    scan_of_passes (passes_cons (by simp [openPrefix]) (passes_open_of_lt (by decide))) _
  rw [checkedDataFields_eq, hstart, Option.some.injEq]
  rcases scanRest_spec b.isTail b.elements with ⟨hstep, heq⟩ | ⟨hstep, hlt⟩
  · exact iff_of_true heq hstep
  · refine iff_of_false (fun heq => ?_) hstep
    rw [heq] at hlt
    exact Nat.lt_irrefl _ hlt

/-! ### An element that closes itself -/

/-- `<Data Name="A"/>`. -/
def selfClosing : DataElement where
  before := []
  quote := .double
  name := ['A']
  attrs := []
  text := none
  before_lt := List.not_mem_nil
  name_quote := by decide
  name_lt := by decide
  attrs_lt := List.not_mem_nil
  text_lt := by simp

/-- `<Data Name="B">x</Data>`. -/
def withText : DataElement where
  before := []
  quote := .double
  name := ['B']
  attrs := []
  text := some ['x']
  before_lt := List.not_mem_nil
  name_quote := by decide
  name_lt := by decide
  attrs_lt := List.not_mem_nil
  text_lt := by simp

theorem element_swallowed :
    ¬ ∀ b : EventData, checkedDataFields b.text = some (fieldsOf b.elements) := by
  intro h
  have hblock := h ⟨[selfClosing, withText], [], List.not_mem_nil⟩
  exact absurd hblock (by decide +kernel)

end Plugin

end WazabiAgent
