import WazabiAgent.Detection.Events
import WazabiAgent.Plugin.Enrichment
import WazabiAgent.Plugin.Protocol

/-!
# Emission of plugin events

`emit_event` (`plugin/server.rs`) builds a JSON object from the state of the session and the event,
writes it as one line to the console and to the spool, and hands the event to detection.

The object is built member by member, and what the plugin chose freely goes into single members:
the kind, the two numbers, and the enriched payload under `raw`. The main result is that this
keeps the rest out of the plugin's reach.

## Main results

* `get_eventObject` — every member of the envelope can be read back from the object
* `attribution_not_spoofed` — what two events of one session can differ in
-/

namespace WazabiAgent

namespace Plugin

open Detection

/-! ### Time stamps -/

/-- `format_iso8601_ns`. The days are not negative, so that branch of the civil calendar algorithm
is left out. -/
def formatIso8601Ns (ns : UInt64) : String :=
  let totalSecs := ns.toNat / 1000000000
  let ms := ns.toNat % 1000000000 / 1000000
  let secs := totalSecs % 60
  let mins := totalSecs / 60 % 60
  let hours := totalSecs / 3600 % 24
  let days := totalSecs / 86400 + 719468
  let era := days / 146097
  let doe := days - era * 146097
  let yoe := (doe - doe / 1460 + doe / 36524 - doe / 146096) / 365
  let y := yoe + era * 400
  let doy := doe - (365 * yoe + yoe / 4 - yoe / 100)
  let mp := (5 * doy + 2) / 153
  let d := doy - (153 * mp + 2) / 5 + 1
  let m := if mp < 10 then mp + 3 else mp - 9
  let year := if m ≤ 2 then y + 1 else y
  Text.padded 4 year ++ "-" ++ Text.padded 2 m ++ "-" ++ Text.padded 2 d ++ "T" ++
    Text.padded 2 hours ++ ":" ++ Text.padded 2 mins ++ ":" ++ Text.padded 2 secs ++ "." ++
    Text.padded 3 ms ++ "Z"

example : formatIso8601Ns 1700000000123456789 = "2023-11-14T22:13:20.123Z" := by decide +kernel

/-! ### The line -/

section

variable (manifest : PluginManifest) (identity : ClientIdentity) (sessionId : String)

/-- The members before `raw`, in the order of their insertion. -/
def envelopeMembers (ev : Event) (nowNs : UInt64) : List (String × Json) :=
  [("ts", .string (formatIso8601Ns nowNs)),
    ("ts_unix_ns", .number (toString nowNs.toNat)),
    ("source", .string "plugin"),
    ("module", .string "plugin"),
    ("event_type", .string "plugin_event"),
    ("kind", .string ev.kind),
    ("plugin_id", .string manifest.pluginId),
    ("plugin_name", .string manifest.name),
    ("plugin_pid", .number (toString identity.pid.toNat)),
    ("session_id", .string sessionId),
    ("seq", .number (toString ev.seq.toNat)),
    ("plugin_ts_unix_ns", .number (toString ev.tsUnixNs.toNat))]

/-- The members of the object. -/
def eventObject (ev : Event) (nowNs : UInt64) : List (String × Json) :=
  Json.insert "raw" (enrichWithXmlDataFields ev.payload.1)
    (Json.ofMembers (envelopeMembers manifest identity sessionId ev nowNs))

/-- The encoded object and a line feed. -/
def lineOf (obj : List (String × Json)) : String := (Json.object obj).compact ++ "\n"

/-- What detection is handed. -/
def logEventOf (ev : Event) (now : ℕ) : LogEvent where
  module := "plugin"
  eventType := ev.kind
  fields :=
    match ev.payload.1 with
    | .object obj => flattenFields obj
    | _ => []
  timestamp := now

/-- `emit_event`, at the time `nowNs` of the calendar and `now` of the monotonic clock. -/
def emitEvent (sinks : Sinks) (ev : Event) (nowNs : UInt64) (now : ℕ) : Outputs :=
  if !allows sinks.filter "plugin" "plugin_event" then {}
  else
    let line := lineOf (eventObject manifest identity sessionId ev nowNs)
    { printed := if sinks.consoleOutput then [line] else []
      submitted := if sinks.spool then [line] else []
      processed := if sinks.detection then [logEventOf ev now] else [] }

end

/-! ### Attribution -/

variable {manifest : PluginManifest} {identity : ClientIdentity} {sessionId : String}

/-- The members that say where an event comes from, with the values of the session. -/
def attribution (manifest : PluginManifest) (identity : ClientIdentity) (sessionId : String) :
    List (String × Json) :=
  [("plugin_id", .string manifest.pluginId),
    ("plugin_name", .string manifest.name),
    ("plugin_pid", .number (toString identity.pid.toNat)),
    ("session_id", .string sessionId),
    ("source", .string "plugin"),
    ("module", .string "plugin"),
    ("event_type", .string "plugin_event")]

/-- Every member of the envelope can be read back. -/
theorem get_eventObject {ev : Event} {nowNs : UInt64} {member : String × Json}
    (h : member ∈ envelopeMembers manifest identity sessionId ev nowNs) :
    (Json.object (eventObject manifest identity sessionId ev nowNs)).get member.1
      = some member.2 := by
  simp only [envelopeMembers, List.mem_cons, List.not_mem_nil, or_false] at h
  rcases h with rfl | rfl | rfl | rfl | rfl | rfl | rfl | rfl | rfl | rfl | rfl | rfl <;>
    simp [eventObject, Json.ofMembers, envelopeMembers, Json.get_insert]

theorem mem_envelopeMembers_of_mem_attribution {ev : Event} {nowNs : UInt64}
    {member : String × Json} (h : member ∈ attribution manifest identity sessionId) :
    member ∈ envelopeMembers manifest identity sessionId ev nowNs := by
  simp only [attribution, List.mem_cons, List.not_mem_nil, or_false] at h
  rcases h with rfl | rfl | rfl | rfl | rfl | rfl | rfl <;> simp [envelopeMembers]

/-- The payload has no part in the envelope. -/
theorem envelopeMembers_congr {ev₁ ev₂ : Event} (nowNs : UInt64) (hseq : ev₁.seq = ev₂.seq)
    (hts : ev₁.tsUnixNs = ev₂.tsUnixNs) (hkind : ev₁.kind = ev₂.kind) :
    envelopeMembers manifest identity sessionId ev₁ nowNs
      = envelopeMembers manifest identity sessionId ev₂ nowNs := by
  simp only [envelopeMembers, hseq, hts, hkind]

theorem wellFormed_eventObject (ev : Event) (nowNs : UInt64) :
    (Json.object (eventObject manifest identity sessionId ev nowNs)).wellFormed = true := by
  rw [Json.wellFormed_object]
  refine Json.wellFormedFields_insert (wellFormed_enrich ev.payload.2)
    (Json.wellFormedFields_ofMembers fun member hmember => ?_)
  simp only [envelopeMembers, List.mem_cons, List.not_mem_nil, or_false] at hmember
  rcases hmember with rfl | rfl | rfl | rfl | rfl | rfl | rfl | rfl | rfl | rfl | rfl | rfl <;>
    simp [Json.wellFormed, Json.isNumeral_repr]

theorem ordered_eventObject (ev : Event) (nowNs : UInt64) :
    Json.Ordered (eventObject manifest identity sessionId ev nowNs) :=
  (Json.ordered_ofMembers _).insert

/-- What is submitted for an event: at most the line of `obj`, which is one object with the keys
in order, encoded without a line break. The event has no say in whether it is submitted. -/
structure SubmitsLine (sinks : Sinks) (out : Outputs) (obj : List (String × Json)) : Prop where
  submitted : out.submitted =
    if allows sinks.filter "plugin" "plugin_event" ∧ sinks.spool then
      [(Json.object obj).compact ++ "\n"] else []
  unbroken : '\n' ∉ (Json.object obj).compact.toList
  keys : Json.Ordered obj

theorem emitEvent_submitsLine (sinks : Sinks) (ev : Event) (nowNs : UInt64) (now : ℕ) :
    SubmitsLine sinks (emitEvent manifest identity sessionId sinks ev nowNs now)
      (eventObject manifest identity sessionId ev nowNs) where
  submitted := by
    unfold emitEvent
    cases allows sinks.filter "plugin" "plugin_event" <;> simp [lineOf]
  unbroken := Json.newline_not_mem_compact ⟨_, wellFormed_eventObject ev nowNs⟩
  keys := ordered_eventObject ev nowNs

/-- **A plugin cannot spoof attribution.** Two events of one session are submitted as one line
each, of an object that attributes them to the session whatever they contain; and if they differ
only in their payloads, the objects differ in `raw` at most. -/
theorem attribution_not_spoofed (manifest : PluginManifest) (identity : ClientIdentity)
    (sessionId : String) (sinks : Sinks) (ev₁ ev₂ : Event) (nowNs₁ nowNs₂ : UInt64)
    (now₁ now₂ : ℕ) :
    ∃ obj₁ obj₂ : List (String × Json),
      SubmitsLine sinks (emitEvent manifest identity sessionId sinks ev₁ nowNs₁ now₁) obj₁ ∧
      SubmitsLine sinks (emitEvent manifest identity sessionId sinks ev₂ nowNs₂ now₂) obj₂ ∧
      (∀ member ∈ attribution manifest identity sessionId,
        (Json.object obj₁).get member.1 = some member.2 ∧
          (Json.object obj₂).get member.1 = some member.2) ∧
      (nowNs₁ = nowNs₂ ∧ ev₁.seq = ev₂.seq ∧ ev₁.tsUnixNs = ev₂.tsUnixNs ∧ ev₁.kind = ev₂.kind →
        ∀ key, key ≠ "raw" → (Json.object obj₁).get key = (Json.object obj₂).get key) := by
  refine ⟨_, _, emitEvent_submitsLine sinks ev₁ nowNs₁ now₁,
    emitEvent_submitsLine sinks ev₂ nowNs₂ now₂, fun member hmember => ?_, ?_⟩
  · exact ⟨get_eventObject (mem_envelopeMembers_of_mem_attribution hmember),
      get_eventObject (mem_envelopeMembers_of_mem_attribution hmember)⟩
  · rintro ⟨rfl, hseq, hts, hkind⟩ key hkey
    rw [eventObject, eventObject, Json.get_insert, Json.get_insert, if_neg (Ne.symm hkey),
      if_neg (Ne.symm hkey), envelopeMembers_congr nowNs₁ hseq hts hkind]

end Plugin

end WazabiAgent
