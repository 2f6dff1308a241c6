import WazabiAgent.Lib.Json
import WazabiAgent.Lib.Significant

/-!
# Events as detection sees them, and the emission filter

A `LogEvent` is what the Waza engine is handed for one event: where it comes from, and the scalar
fields of its payload. The filter (`filter.rs`) is an allow-list on the module and the type of an
event, which the administrator sets to save uploads.

A floating-point number is kept as the text that `serde_json` writes it as. An integer that becomes
one, on the way into a field or, without a place in 64 bits, when it is read, is therefore rounded
and written anew.
-/

namespace WazabiAgent

namespace Detection

/-! ### Log events -/

/-- A scalar of the rule language. -/
inductive FieldValue
  | int (n : Int)
  | float (literal : String)
  | str (s : String)
  | bool (b : Bool)
  deriving DecidableEq

/-- `Number::as_f64`, as it is written. An integer of any size is the double that it is read as. -/
def asF64 (v : Json) : Option String :=
  match v with
  | .number literal =>
    match Json.integerLiteral literal with
    | some (negative, n) =>
      some ((if negative then "-" else "") ++ Binary64.text (Binary64.ofInteger n))
    | none => some literal
  | _ => none

/-- `json_to_field_value`. An integer beyond `i64` becomes a float. -/
def jsonToFieldValue (v : Json) : Option FieldValue :=
  match v with
  | .number _ =>
    match v.asI64 with
    | some n => some (.int n)
    | none => (asF64 v).map .float
  | .string s => some (.str s)
  | .bool b => some (.bool b)
  | _ => none

/-- `flatten_fields`, for the fields of an object. -/
def flattenFields (fields : List (String × Json)) : List (String × FieldValue) :=
  fields.filterMap fun f => (jsonToFieldValue f.2).map fun v => (f.1, v)

/-- An event as the rules see it. -/
structure LogEvent where
  module : String
  eventType : String
  fields : List (String × FieldValue)
  /-- A monotonic clock. -/
  timestamp : ℕ
  deriving DecidableEq

/-! ### The filter -/

/-- The `filter` section as the file has it. -/
structure FilterSection where
  modules : List String := []
  eventTypes : List String := []

/-- The sets of allowed modules and event types. -/
structure Filter where
  modules : List String
  eventTypes : List String

/-- The filter of the section. -/
def Filter.fromSection (s : FilterSection) : Filter where
  modules := s.modules
  eventTypes := s.eventTypes

/-- `Filter::allows`. A set that is empty does not restrict. -/
def Filter.allows (f : Filter) (module eventType : String) : Bool :=
  if f.modules ≠ [] ∧ module ∉ f.modules then false
  else if f.eventTypes ≠ [] ∧ eventType ∉ f.eventTypes then false
  else true

/-- The filter that `init` sets. -/
def filterOf (s : Option FilterSection) : Filter := .fromSection (s.getD {})

/-- `filter::allows`. Before `init` everything passes. -/
def allows (filter : Option Filter) (module eventType : String) : Bool :=
  match filter with
  | none => true
  | some f => f.allows module eventType

/-- The filter without a restriction. -/
def noFilter : Option Filter := some (filterOf none)

@[simp] theorem allows_noFilter (module eventType : String) :
    allows noFilter module eventType = true := rfl

/-- Where events go: the filter in force, and which of the three consumers there are. -/
structure Sinks where
  filter : Option Filter
  consoleOutput : Bool
  spool : Bool
  detection : Bool

/-- The same consumers behind another filter. -/
def Sinks.withFilter (sinks : Sinks) (filter : Option Filter) : Sinks :=
  { sinks with filter := filter }

/-- The same consumers with or without the engine. -/
def Sinks.withDetection (sinks : Sinks) (detection : Bool) : Sinks :=
  { sinks with detection := detection }

/-- What an event leads to: lines printed, lines submitted to the spool, and calls of
`DetectionEngine::process`. -/
structure Outputs where
  printed : List String := []
  submitted : List String := []
  processed : List LogEvent := []
  deriving DecidableEq

end Detection

end WazabiAgent
