import WazabiAgent.Control.Alerts
import WazabiAgent.Ipc.Layout
import WazabiAgent.Lib.JsonValue
import WazabiAgent.Plugin.EmitEvent

/-!
# The scalars of an event

The payload of an event is spooled as it is. For detection its scalars are taken into the fields of
a `LogEvent`, which rules are matched against, and an alert turns the fields back into JSON
(`detection/mod.rs`).

A field is an `i64`, a double, a text or a truth value, but an integer in a payload can go up to
`u64::MAX`, and what is larger still is read as a double already. What is no `i64` becomes a double:
it is rounded to 53 binary digits, and even where nothing is lost by that it comes back as another
JSON value. The `image_base` of a driver is such an integer, since the kernel has the upper half of
the addresses.

## Main definitions

* `carried` — a value that is taken into a field and turned back
* `Scalar`, `Scalar.reported` — the scalars of a payload, and what becomes of them
* `LogEvent.field`, `payloadEvent` — what a rule finds under a name

## Main results

* `carried_toJson`, `Scalar.reported_eq_iff` — which scalars come back
* `scalars_reach_alerts` — what rules and alerts have of a scalar in a payload
-/

namespace WazabiAgent

namespace Detection

/-! ### There and back -/

/-- `json_to_field_value` and then `field_value_to_json`. -/
def carried (v : Json) : Option Json := (jsonToFieldValue v).map fieldValueToJson

/-- The scalars of a payload. A number is an integer, of any size, or has a point or an exponent,
which is how a double is written. -/
inductive Scalar
  | bool (b : Bool)
  | str (s : String)
  | int (i : ℤ)
  | float (x : {x : String // Json.integerLiteral x = none})

namespace Scalar

/-- The value that the scalar was read from. -/
def toJson : Scalar → Json
  | .bool b => .bool b
  | .str s => .string s
  | .int i => .number (toString i)
  | .float x => .number x.1

/-- The integers that are no `i64`. -/
def BeyondI64 : Scalar → Prop
  | .int i => ¬ (-2 ^ 63 ≤ i ∧ i < 2 ^ 63)
  | _ => False

/-- An integer as a double, as it is written. -/
def doubleText (i : ℤ) : String :=
  (if decide (i < 0) = true then "-" else "") ++ Binary64.text (Binary64.ofInteger i.natAbs)

/-- What comes back. -/
def reported : Scalar → Json
  | .int i =>
    if -2 ^ 63 ≤ i ∧ i < 2 ^ 63 then .number (toString i) else .number (doubleText i)
  | v => v.toJson

/-- A double is not written like an integer. -/
theorem integerLiteral_doubleText (i : ℤ) : Json.integerLiteral (doubleText i) = none := by
  obtain ⟨c, hc, hmark⟩ := Binary64.exists_mark (Binary64.ofInteger i.natAbs)
  refine Json.integerLiteral_eq_none (c := c) ?_ ?_ ?_
  · rw [doubleText, String.toList_append]
    exact List.mem_append_right _ hc
  · rcases hmark with rfl | rfl <;> rfl
  · rcases hmark with rfl | rfl <;> decide

theorem reported_eq_iff (v : Scalar) : v.reported = v.toJson ↔ ¬ v.BeyondI64 := by
  match v with
  | .bool _ | .str _ | .float _ => exact iff_of_true rfl id
  | .int i =>
    rw [reported, toJson, BeyondI64, not_not]
    split_ifs with h
    · exact iff_of_true rfl h
    · refine iff_of_false (fun heq => ?_) h
      have hnone := integerLiteral_doubleText i
      rw [Json.number.inj heq, Json.integerLiteral_toString] at hnone
      cases hnone

/-- A double for an integer. Below `2 ^ 64` it is as near as any, and is the integer if the last
eleven binary digits of that are zeros. -/
structure IsRounding (n x : ℕ) : Prop where
  double : Significant.Representable 2 53 x
  nearest : n < 2 ^ 64 → ∀ y, Significant.Representable 2 53 y →
    Significant.gap x n ≤ Significant.gap y n
  eq_iff : 2 ^ 63 ≤ n → n < 2 ^ 64 → (x = n ↔ 2048 ∣ n)

theorem isRounding_ofInteger (n : ℕ) : IsRounding n (Binary64.ofInteger n) where
  double := Binary64.representable_ofInteger n
  nearest h y hy := by
    rw [Binary64.ofInteger_of_lt h]
    exact Binary64.ofNat_nearest hy n
  eq_iff hlow hhigh := by
    rw [Binary64.ofInteger_of_lt hhigh]
    exact Binary64.ofNat_eq_self_iff hlow hhigh

/-- An integer that is no `i64` comes back as the double it is rounded to, with its sign. -/
theorem reported_of_beyond {v : Scalar} (h : v.BeyondI64) :
    ∃ (i : ℤ) (x : ℕ), v.toJson = .number (toString i) ∧
      v.reported = .number ((if decide (i < 0) = true then "-" else "") ++ Binary64.text x) ∧
      IsRounding i.natAbs x := by
  match v, h with
  | .int i, h =>
    exact ⟨i, Binary64.ofInteger i.natAbs, rfl, if_neg h, isRounding_ofInteger _⟩

end Scalar

theorem carried_toJson (v : Scalar) : carried v.toJson = some v.reported := by
  match v with
  | .bool _ | .str _ => rfl
  | .float x =>
    change (jsonToFieldValue (.number x.1)).map fieldValueToJson = _
    simp only [jsonToFieldValue, asF64, Json.asI64_eq_none x.2, x.2]
    rfl
  | .int i =>
    change (jsonToFieldValue (.number (toString i))).map fieldValueToJson = _
    rw [Scalar.reported]
    split_ifs with h
    · simp only [jsonToFieldValue, Json.asI64_toString h.1 h.2]
      rfl
    · simp only [jsonToFieldValue, asF64, Json.asI64_toString_eq_none h,
        Json.integerLiteral_toString]
      rfl

/-! ### Fields and evidence -/

/-- What a rule finds under a name. -/
def LogEvent.field (event : LogEvent) (name : String) : Option FieldValue :=
  (event.fields.find? fun f => f.1 = name).map Prod.snd

/-- The event of a payload. -/
def payloadEvent (module eventType : String) (payload : Json.Map) (now : ℕ) : LogEvent where
  module := module
  eventType := eventType
  fields := flattenFields payload.1
  timestamp := now

theorem flattenFields_cons (name : String) (v : Json) (fields : List (String × Json)) :
    flattenFields ((name, v) :: fields)
      = ((jsonToFieldValue v).map fun x => (name, x)).toList ++ flattenFields fields := by
  rw [flattenFields, List.filterMap_cons]
  cases jsonToFieldValue v <;> rfl

/-- The names are some of those of the payload. -/
theorem names_flattenFields (fields : List (String × Json)) :
    ((flattenFields fields).map Prod.fst).Sublist (fields.map Prod.fst) := by
  induction fields with
  | nil => exact .refl _
  | cons f fields ih =>
    obtain ⟨name, v⟩ := f
    rw [flattenFields_cons, List.map_append, List.map_cons]
    cases jsonToFieldValue v with
    | none => exact ih.cons name
    | some x => exact ih.cons_cons name

/-- Every scalar is under its own name. -/
theorem find?_flattenFields {fields : List (String × Json)} (h : (fields.map Prod.fst).Nodup)
    (name : String) :
    ((flattenFields fields).find? fun f => f.1 = name).map Prod.snd
      = ((Json.object fields).get name).bind jsonToFieldValue := by
  induction fields with
  | nil => rfl
  | cons f fields ih =>
    obtain ⟨k, v⟩ := f
    obtain ⟨hk, hfields⟩ := List.nodup_cons.mp h
    rw [flattenFields_cons, Json.get_object_cons]
    by_cases hname : k = name
    · subst hname
      rw [if_pos rfl, Option.bind_some]
      cases jsonToFieldValue v with
      | some x => simp
      | none =>
        -- the name does not come again
        have hnone : ((flattenFields fields).find? fun f => f.1 = k) = none := by
          refine List.find?_eq_none.mpr fun g hg => ?_
          intro heq
          have hmem : g.1 ∈ fields.map Prod.fst :=
            (names_flattenFields fields).subset (List.mem_map_of_mem hg)
          rw [of_decide_eq_true heq] at hmem
          exact hk hmem
        rw [Option.map_none, Option.toList_none, List.nil_append, hnone, Option.map_none]
    · rw [if_neg hname, ← ih hfields]
      cases jsonToFieldValue v with
      | none => rfl
      | some x => simp [hname]

theorem field_payloadEvent (module eventType : String) (payload : Json.Map) (now : ℕ)
    (name : String) :
    (payloadEvent module eventType payload now).field name
      = ((Json.object payload.1).get name).bind jsonToFieldValue :=
  find?_flattenFields payload.2.nodup name

/-- The fields as JSON are found where the fields are. -/
theorem get_map_fields (fields : List (String × FieldValue)) (name : String) :
    (Json.object (fields.map fun f => (f.1, fieldValueToJson f.2))).get name
      = ((fields.find? fun f => f.1 = name).map Prod.snd).map fieldValueToJson := by
  induction fields with
  | nil => rfl
  | cons f fields ih =>
    obtain ⟨k, x⟩ := f
    rw [List.map_cons, Json.get_object_cons, ih]
    by_cases h : k = name <;> simp [h]

theorem evidence_of_emitAlert {ruleName ts : String} {acts : List Action} {event : LogEvent}
    {alert : AgentAlert} (h : emitAlert ruleName acts event ts = some alert) :
    alert.evidence = .object (Json.insert "event_type" (.string event.eventType)
      (Json.ofMembers (event.fields.map fun f => (f.1, fieldValueToJson f.2)))) := by
  simp only [emitAlert, ite_eq_iff, Option.some.injEq] at h
  rcases h with ⟨-, hnone⟩ | ⟨-, halert⟩
  · cases hnone
  · rw [← halert]

/-- The evidence has what the fields have, and the type of the event. -/
theorem get_evidence {ruleName : String} {acts : List Action} {module eventType ts : String}
    {payload : Json.Map} {now : ℕ} {alert : AgentAlert}
    (h : emitAlert ruleName acts (payloadEvent module eventType payload now) ts = some alert)
    (name : String) :
    alert.evidence.get name
      = if name = "event_type" then some (.string eventType)
        else ((Json.object payload.1).get name).bind carried := by
  rw [evidence_of_emitAlert h, Json.get_insert]
  by_cases hname : "event_type" = name
  · rw [if_pos hname, if_pos hname.symm]
    rfl
  · have hnodup : (((payloadEvent module eventType payload now).fields.map
        fun f => (f.1, fieldValueToJson f.2)).map Prod.fst).Nodup := by
      rw [List.map_map]
      exact (names_flattenFields payload.1).nodup payload.2.nodup
    rw [if_neg hname, if_neg (Ne.symm hname), Json.get_ofMembers_of_nodup hnodup, get_map_fields,
      ← LogEvent.field, field_payloadEvent, Option.map_bind]
    rfl

/-- An event of the kernel. -/
theorem decodedToLogEvent_eq {d : Ipc.DecodedKernel} {payload : Json.Map}
    (h : d.payload = .object payload.1) (now : ℕ) :
    Ipc.decodedToLogEvent d now = payloadEvent "kernel_callback" d.eventType payload now := by
  rw [Ipc.decodedToLogEvent, h]
  rfl

/-- An event of a plugin. -/
theorem logEventOf_eq {ev : Plugin.Event} {payload : Json.Map}
    (h : ev.payload.1 = .object payload.1) (now : ℕ) :
    Plugin.logEventOf ev now = payloadEvent "plugin" ev.kind payload now := by
  rw [Plugin.logEventOf, h]
  rfl

/-- **Every scalar reaches rules and alerts as it was spooled**, but for an integer that is no
`i64`, which does so as a double, and in the evidence for what the event calls `event_type`. -/
theorem scalars_reach_alerts (v : Scalar) (module eventType : String) (payload : Json.Map)
    (now : ℕ) (name : String) (hname : (Json.object payload.1).get name = some v.toJson) :
    carried v.toJson = some v.reported ∧ (v.reported = v.toJson ↔ ¬ v.BeyondI64) ∧
      (v.BeyondI64 → ∃ (i : ℤ) (x : ℕ), v.toJson = .number (toString i) ∧
        v.reported = .number ((if decide (i < 0) = true then "-" else "") ++ Binary64.text x) ∧
        Scalar.IsRounding i.natAbs x) ∧
      ((payloadEvent module eventType payload now).field name).map fieldValueToJson
        = some v.reported ∧
      ∀ ruleName acts ts alert,
        emitAlert ruleName acts (payloadEvent module eventType payload now) ts = some alert →
          alert.evidence.get name
            = some (if name = "event_type" then .string eventType else v.reported) := by
  refine ⟨carried_toJson v, v.reported_eq_iff, Scalar.reported_of_beyond, ?_,
    fun ruleName acts ts alert halert => ?_⟩
  · rw [field_payloadEvent, hname]
    exact carried_toJson v
  · rw [get_evidence halert, hname, Option.bind_some, carried_toJson]
    split_ifs <;> rfl

/-! ### A driver is loaded -/

/-- A driver at an address of the kernel. -/
def driverLoad : Ipc.ImageLoadEvent where
  processId := 0
  imageBase := 0xFFFFF80012340000
  imageSize := 0x8000
  imagePath := []
  imagePathLen := 0

/-- An image load in the upper half of the address space. -/
def driverPayload : Json.Map where
  val := Json.ofMembers [
    ("pid", Ipc.num 0),
    ("scope", .string "kernel"),
    ("image_base", Ipc.num 0xFFFFF80012340000),
    ("image_size", Ipc.num 0x8000),
    ("image_path", .string "")]
  property := Json.ordered_ofMembers _

/-- The same event with its envelope. -/
def driverEvent : Ipc.DecodedKernel where
  kind := "ImageLoad"
  eventType := "module_load"
  payload := driverLoad.payload
  ts := ""
  tsFt100ns := 0
  version := 1
  dropCount := 0
  truncCount := 0

theorem payload_driverEvent : driverEvent.payload = .object driverPayload.1 := rfl

/-- Its base, as the engine sees it. -/
def driverBase : Scalar := .int 18446735277921927168

/-- Its size, as the engine sees it. -/
def driverSize : Scalar := .int 32768

theorem get_driverPayload :
    (Json.object driverPayload.1).get "image_base" = some driverBase.toJson ∧
      (Json.object driverPayload.1).get "image_size" = some driverSize.toJson := by
  rw [driverPayload]
  simp only [Json.ofMembers, List.foldl_cons, List.foldl_nil, Json.get_insert]
  exact ⟨rfl, rfl⟩

theorem text_driverBase : Binary64.text (Binary64.ofInteger 18446735277921927168)
    = "1.8446735277921927e+19" := by decide

/-- The event is matched by a rule. -/
theorem image_size_reaches_alerts :
    ((payloadEvent "kernel_callback" "module_load" driverPayload 0).field "image_size").map
        fieldValueToJson = some (.number "32768") ∧
      ∀ alert, emitAlert "drivers" [.alert "driver"]
          (payloadEvent "kernel_callback" "module_load" driverPayload 0) "" = some alert →
        alert.evidence.get "image_size" = some (.number "32768") := by
  obtain ⟨-, -, -, hfield, halert⟩ := scalars_reach_alerts driverSize "kernel_callback"
    "module_load" driverPayload 0 "image_size" get_driverPayload.2
  refine ⟨hfield, fun alert h => ?_⟩
  exact halert "drivers" [.alert "driver"] "" alert h

/-- An event of a plugin that says what type it is. -/
def typedEvent : Plugin.Event where
  seq := 0
  tsUnixNs := 0
  kind := "app"
  payload := ⟨.object [("event_type", .string "login")], by decide⟩

/-- The base comes back as a double, and the type that the plugin says is not in the evidence. -/
theorem image_base_rewritten :
    driverEvent.payload.get "image_base" = some (.number "18446735277921927168") ∧
      carried (.number "18446735277921927168") = some (.number "1.8446735277921927e+19") ∧
      carried (.number "18446735277921927168") ≠ some (.number "18446735277921927168") ∧
      (∃ alert,
        emitAlert "drivers" [.alert "driver"] (Ipc.decodedToLogEvent driverEvent 0) ""
            = some alert ∧
          alert.evidence.get "image_base" = some (.number "1.8446735277921927e+19")) ∧
      ∃ alert,
        emitAlert "logins" [.alert "login"] (Plugin.logEventOf typedEvent 0) "" = some alert ∧
          alert.evidence.get "event_type" = some (.string "app") := by
  have hcarried : carried driverBase.toJson = some (.number "1.8446735277921927e+19") := by
    rw [← text_driverBase]
    exact carried_toJson driverBase
  refine ⟨?_, hcarried, fun heq => ?_, ?_, ?_⟩
  · rw [payload_driverEvent, get_driverPayload.1]
    rfl
  · have hsame := hcarried.symm.trans heq
    exact absurd hsame (by decide)
  · rw [decodedToLogEvent_eq payload_driverEvent]
    obtain ⟨alert, halert⟩ : ∃ alert, emitAlert "drivers" [.alert "driver"]
        (payloadEvent "kernel_callback" "module_load" driverPayload 0) "" = some alert := ⟨_, rfl⟩
    refine ⟨alert, halert, ?_⟩
    rw [get_evidence halert, get_driverPayload.1]
    exact hcarried
  · let payload : Json.Map := ⟨[("event_type", .string "login")], List.pairwise_singleton _ _⟩
    have hpayload : typedEvent.payload.1 = .object payload.1 := rfl
    rw [logEventOf_eq hpayload]
    obtain ⟨alert, halert⟩ : ∃ alert, emitAlert "logins" [.alert "login"]
        (payloadEvent "plugin" "app" payload 0) "" = some alert := ⟨_, rfl⟩
    exact ⟨alert, halert, get_evidence halert "event_type"⟩

end Detection

end WazabiAgent
