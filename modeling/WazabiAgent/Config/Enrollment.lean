import WazabiAgent.Config.Document
import WazabiAgent.Lib.JsonNumber

/-!
# Automatic enrolment

With a shared token in the section `shipper` and no credentials, `AppConfig::load` enrols the
machine, writes the credentials into `agent.json` and goes on with them. What is written comes from
the JSON value of the file, what the agent goes on with from the section already read, so there are
two patches of the same thing. They differ in two places: the section forgets an encrypted token
whatever it is, the file only loses one that is the empty text; and the file is only patched where
root and section are objects, while a section is also read from an array. Besides, a number in the
file that is no integer of 64 bits is a double in the value, and is written out as that.

The request itself (`enroll::perform`) is the parameter `perform`, which returns an id and a token
that are not blank; and what `serde_json` writes for a double is the parameter `float`.

## Main definitions

* `persistEnrollment`, `autoenrollAndPersist` — the two patches
* `loadAgent` — `AppConfig::load` on a world with a file and a server
* `PersistsWhatItRuns` — the next start agrees with this one

## Main results

* `persistsWhatItRuns_iff` — exactly when it does
-/

namespace WazabiAgent

namespace Config

open Shipper Detection
open Text (isBlank)

/-! ### The patch of the file -/

/-- A map without a key. -/
def remove (key : String) (fields : List (String × Json)) : List (String × Json) :=
  fields.filter fun f => f.1 ≠ key

/-- A leftover of the skeleton: an encrypted token that is the empty text. -/
def isEmptyText (o : Option Json) : Bool := (o.bind Json.asStr).any fun s => s = ""

/-- What becomes of the members of the section. -/
def patchShipper (agentId agentToken : String) (fields : List (String × Json)) :
    List (String × Json) :=
  let fields := Json.insert "agent_id" (.string agentId) fields
  let fields := Json.insert "token_plain" (.string agentToken) fields
  let fields := remove "enrollment_token" fields
  if isEmptyText ((Json.object fields).get "token_encrypted_b64") then
    remove "token_encrypted_b64" fields
  else fields

/-- The value that is written, if `get_mut("shipper")` and `as_object_mut` find an object. -/
def patchRoot (agentId agentToken : String) (root : Json) : Option Json :=
  match root with
  | .object fields =>
    match root.get "shipper" with
    | some (.object shipper) =>
      some (.object (Json.insert "shipper" (.object (patchShipper agentId agentToken shipper)) fields))
    | _ => none
  | _ => none

/-- How a write of the file ends. -/
inductive Written
  | done
  /-- What is in the file then is not known. -/
  | failed (error : String) (left : AgentJson)

/-- The identity that the server gives the agent. -/
structure EnrollResult where
  agentId : String
  agentToken : String

/-- What one start of the agent meets besides `agent.json`. -/
structure Start where
  programData : Option String
  host : Host
  /-- The path of `agent.json` as its errors show it. -/
  path : String
  configError : Json → String
  overrides : OverridesFile
  /-- The URL, the shared token and the timeout. -/
  perform : String → String → ℕ → Except String EnrollResult
  /-- What a second read finds where the first found this. -/
  reread : AgentJson → AgentJson
  written : Written
  /-- What `serde_json` writes for a number that it has read as a double. -/
  float : String → String

/-- `persist_enrollment`: what it returns, and the file afterwards. -/
def persistEnrollment (start : Start) (agentId agentToken : String) (file : AgentJson) :
    Except String Unit × AgentJson :=
  match start.reread file with
  | .notFound =>
    (.error ("re-read " ++ start.path ++
      ": The system cannot find the file specified. (os error 2)"), .notFound)
  | .unreadable e => (.error ("re-read " ++ start.path ++ ": " ++ e), .unreadable e)
  | .malformed e => (.error ("re-parse " ++ start.path ++ ": " ++ e), .malformed e)
  | .json d =>
    match d.value start.float with
    | .error e => (.error ("re-parse " ++ start.path ++ ": " ++ e), .json d)
    | .ok root =>
      match patchRoot agentId agentToken root with
      | none => (.error "shipper section disappeared during enroll", .json d)
      | some root =>
        match start.written with
        | .done => (.ok (), .json (.ofValue root))
        | .failed e left => (.error ("write " ++ start.path ++ ": " ++ e), left)

/-! ### Loading with enrolment -/

/-- A world: the file, and what the server has been asked. -/
structure World where
  file : AgentJson
  enrolments : List (String × String × ℕ) := []

/-- `autoenroll_and_persist`. -/
def autoenrollAndPersist (start : Start) (s : ShipperSection) (w : World) :
    Except String ShipperSection × World :=
  match s.serverUrl with
  | none => (.error "shipper.server_url is required for auto-enroll", w)
  | some url =>
    match s.enrollmentToken with
    | none => (.error "shipper.enrollment_token is required for auto-enroll", w)
    | some token =>
      let timeout := max s.timeoutSecs 1
      let w := { w with enrolments := w.enrolments ++ [(url, token, timeout)] }
      match start.perform url token timeout with
      | .error e => (.error ("auto-enroll failed: " ++ e), w)
      | .ok result =>
        let (persisted, file) := persistEnrollment start result.agentId result.agentToken w.file
        (persisted.map fun _ => s.fillFromEnroll result.agentId result.agentToken,
          { w with file := file })

/-- What `load` makes of the section. -/
def loadShipper (start : Start) (s : ShipperSection) (w : World) :
    Except String (Option ShipperConfig) × World :=
  if s.enabled then
    let (s, w) := if s.needsAutoenroll then autoenrollAndPersist start s w else (.ok s, w)
    (s.bind fun s => (start.host.resolveShipper s).map some, w)
  else (.ok none, w)

/-- `AppConfig::load`. The skeleton that it writes in place of an absent file is left out. -/
def loadAgent (start : Start) (w : World) :
    Except String (AppConfig ShipperConfig FilterSection) × World :=
  let file := w.file.read start.configError
  (load start.programData (fun s => (loadShipper start s w).1) start.path file start.overrides,
    match file with
    | .parsed { shipper := some s, .. } => (loadShipper start s w).2
    | _ => w)

/-! ### The property -/

/-- The names that the enrolment may change in the section. -/
def credentialNames : List String :=
  ["agent_id", "token_plain", "enrollment_token", "token_encrypted_b64"]

/-- Every other key has the same value. A number may be written in another way. -/
def KeepsKeys (before after : Json) : Prop :=
  (∀ name, name ≠ "shipper" → Option.Rel Json.SameValue (after.get name) (before.get name)) ∧
    ∀ name, name ∉ credentialNames →
      Option.Rel Json.SameValue ((after.get "shipper").bind (Json.get name))
        ((before.get "shipper").bind (Json.get name))

/-- What the file says, with its numbers as they are there. -/
def AgentJson.value? : AgentJson → Option Json
  | .json d => (d.value id).toOption
  | _ => none

/-- A start that enrols and the next one: both succeed with the same configuration of the shipper,
the second without asking the server, and the file has changed where it had to only. -/
def PersistsWhatItRuns (first next : Start) (file : AgentJson) : Prop :=
  let run := loadAgent first { file := file }
  let again := loadAgent next { file := run.2.file }
  ∃ c c' : AppConfig ShipperConfig FilterSection, run.1 = .ok c ∧ again.1 = .ok c' ∧
    c.shipper.isSome ∧ c'.shipper = c.shipper ∧ again.2.enrolments = [] ∧
    ∃ v v', file.value? = some v ∧ run.2.file.value? = some v' ∧ KeepsKeys v v'

/-- The numbers that are to be kept are written out again as the numbers they were. -/
structure KeepsNumbers (float : String → String) (v : Json) : Prop where
  root : ∀ name x, name ≠ "shipper" → v.get name = some x → x.Exact float
  inShipper : ∀ name x, name ∉ credentialNames →
    (v.get "shipper").bind (Json.get name) = some x → x.Exact float

/-- The condition on the file. -/
structure Persistable (start : Start) (d : Document) (s : ShipperSection) : Prop where
  readable : d.skipped.isOk = true
  root_object : d.doc.isObject = true
  shipper_object : (d.doc.get "shipper").any Json.isObject = true
  no_leftover : s.tokenEncryptedB64 = none ∨ s.tokenEncryptedB64 = some ""
  http : s.serverUrl.any isHttpUrl = true
  numbers : KeepsNumbers start.float (d.doc.toValue id)

/-! ### What is read back -/

theorem get_remove (key name : String) (fields : List (String × Json)) :
    (Json.object (remove key fields)).get name
      = if name = key then none else (Json.object fields).get name := by
  induction fields with
  | nil => simp [remove, Json.get]
  | cons f fields ih =>
    obtain ⟨k, v⟩ := f
    rw [remove, List.filter_cons]
    by_cases hk : k = key
    · rw [if_neg (by simpa using hk), ← remove, ih, Json.get_object_cons]
      split_ifs with hname h <;> first | rfl | exact absurd (h.symm.trans hk) hname
    · rw [if_pos (by simpa using hk), ← remove, Json.get_object_cons, ih, Json.get_object_cons]
      split_ifs with h hname
      · exact absurd (h.trans hname) hk
      · rfl
      · rfl
      · rfl

theorem isValue_remove (key : String) {fields : List (String × Json)}
    (h : (Json.object fields).IsValue) : (Json.object (remove key fields)).IsValue := by
  obtain ⟨hordered, hfields⟩ := Json.isValue_object_iff.mp h
  exact Json.isValue_object (List.Pairwise.filter _ hordered) fun f hf =>
    hfields f (List.mem_of_mem_filter hf)

theorem isValue_patchShipper (agentId agentToken : String) {fields : List (String × Json)}
    (h : (Json.object fields).IsValue) :
    (Json.object (patchShipper agentId agentToken fields)).IsValue := by
  have hpatched := isValue_remove "enrollment_token"
    ((h.insert "agent_id" (Json.isValue_string agentId)).insert "token_plain"
      (Json.isValue_string agentToken))
  unfold patchShipper
  dsimp only
  split_ifs
  · exact isValue_remove _ hpatched
  · exact hpatched

/-- The members after the patch. -/
theorem get_patchShipper (agentId agentToken name : String) (fields : List (String × Json)) :
    (Json.object (patchShipper agentId agentToken fields)).get name =
      if name = "agent_id" then some (.string agentId)
      else if name = "token_plain" then some (.string agentToken)
      else if name = "enrollment_token" then none
      else if name = "token_encrypted_b64" ∧
        isEmptyText ((Json.object fields).get "token_encrypted_b64") then none
      else (Json.object fields).get name := by
  have hpatched (name : String) :
      (Json.object (remove "enrollment_token" (Json.insert "token_plain" (.string agentToken)
        (Json.insert "agent_id" (.string agentId) fields)))).get name =
      if name = "enrollment_token" then none
      else if name = "token_plain" then some (.string agentToken)
      else if name = "agent_id" then some (.string agentId)
      else (Json.object fields).get name := by
    simp only [get_remove, Json.get_insert, eq_comm]
  have hleft := hpatched "token_encrypted_b64"
  rw [if_neg (by decide), if_neg (by decide), if_neg (by decide)] at hleft
  unfold patchShipper
  dsimp only
  rw [hleft]
  cases isEmptyText ((Json.object fields).get "token_encrypted_b64") with
  | true =>
    rw [if_pos rfl, get_remove, hpatched]
    by_cases h1 : name = "agent_id"
    · subst h1; rfl
    by_cases h2 : name = "token_plain"
    · subst h2; rfl
    by_cases h3 : name = "enrollment_token"
    · subst h3; rfl
    simp [h1, h2, h3]
  | false =>
    rw [if_neg Bool.false_ne_true, hpatched]
    by_cases h1 : name = "agent_id"
    · subst h1; rfl
    by_cases h2 : name = "token_plain"
    · subst h2; rfl
    simp [h1, h2]

/-- The section as it is read back. An encrypted token is only forgotten if it is the empty text. -/
def persistedSection (s : ShipperSection) (agentId agentToken : String) : ShipperSection :=
  { s with
    agentId := some agentId
    tokenPlain := some agentToken
    tokenEncryptedB64 := s.tokenEncryptedB64.filter fun b64 => b64 ≠ ""
    enrollmentToken := none }

theorem leftover_patched {o : Option Json} {b64 : Option String}
    (h : Json.defaulted none (Json.optional Json.asStr) o = some b64) :
    Json.defaulted none (Json.optional Json.asStr) (if isEmptyText o then none else o)
      = some (b64.filter fun b64 => b64 ≠ "") := by
  rcases o with _ | (_ | _ | _ | text | _ | _)
  case some.string =>
    obtain rfl : some text = b64 := Option.some.inj h
    by_cases htext : text = ""
    · subst htext; rfl
    · have hempty : isEmptyText (some (.string text)) = false := by
        simp [isEmptyText, Json.asStr, htext]
      rw [hempty, if_neg Bool.false_ne_true, Option.filter_some, if_pos (decide_eq_true htext)]
      rfl
  case none =>
    obtain rfl : none = b64 := Option.some.inj h
    rfl
  case some.null =>
    obtain rfl : none = b64 := Option.some.inj h
    rfl
  all_goals simp [Json.defaulted, Json.optional, Json.asStr] at h

theorem shipperFields_patched {field patched : String → Option Json} {s : ShipperSection}
    {agentId agentToken : String} (h : shipperFields field = some s)
    (hother : ∀ name, name ∉ credentialNames → patched name = field name)
    (hid : patched "agent_id" = some (.string agentId))
    (htoken : patched "token_plain" = some (.string agentToken))
    (hshared : patched "enrollment_token" = none)
    (hleft : patched "token_encrypted_b64"
      = if isEmptyText (field "token_encrypted_b64") then none else field "token_encrypted_b64") :
    shipperFields patched = some (persistedSection s agentId agentToken) := by
  unfold shipperFields at h ⊢
  dsimp only at h ⊢
  obtain ⟨enabled, h1, h⟩ := Option.bind_eq_some_iff.mp h
  obtain ⟨serverUrl, h2, h⟩ := Option.bind_eq_some_iff.mp h
  obtain ⟨_, -, h⟩ := Option.bind_eq_some_iff.mp h
  obtain ⟨tenantId, h4, h⟩ := Option.bind_eq_some_iff.mp h
  obtain ⟨tags, h5, h⟩ := Option.bind_eq_some_iff.mp h
  obtain ⟨b64, h6, h⟩ := Option.bind_eq_some_iff.mp h
  obtain ⟨_, -, h⟩ := Option.bind_eq_some_iff.mp h
  obtain ⟨_, -, h⟩ := Option.bind_eq_some_iff.mp h
  obtain ⟨verifyTls, h9, h⟩ := Option.bind_eq_some_iff.mp h
  obtain ⟨timeout, h10, h⟩ := Option.bind_eq_some_iff.mp h
  obtain ⟨poll, h11, h⟩ := Option.bind_eq_some_iff.mp h
  obtain ⟨backoff, h12, hs⟩ := Option.bind_eq_some_iff.mp h
  obtain rfl := Option.some.inj hs
  have hb64 := leftover_patched h6
  rw [hother "enabled" (by decide), hother "server_url" (by decide), hid,
    hother "tenant_id" (by decide), hother "tags" (by decide), hleft, htoken, hshared,
    hother "verify_tls" (by decide), hother "timeout_secs" (by decide),
    hother "poll_interval_secs" (by decide), hother "max_backoff_secs" (by decide),
    h1, h2, h4, h5, hb64, h9, h10, h11, h12]
  rfl

/-- A patched section is read back. -/
theorem decodeShipper_patched {fields : List (String × Json)} {s : ShipperSection}
    (agentId agentToken : String) (hvalue : (Json.object fields).IsValue)
    (h : decodeShipper (.object fields) = some s) :
    decodeShipper (.object (patchShipper agentId agentToken fields))
      = some (persistedSection s agentId agentToken) := by
  have hnot (fields : List (String × Json)) : tooShort (.object fields) = false := rfl
  simp only [decodeShipper, hnot] at h ⊢
  rw [if_neg Bool.false_ne_true,
    Json.record_of_ordered
      (Json.isValue_object_iff.mp (isValue_patchShipper agentId agentToken hvalue)).1]
  rw [if_neg Bool.false_ne_true, Json.record_of_ordered (Json.isValue_object_iff.mp hvalue).1] at h
  refine shipperFields_patched h (fun name hname => ?_) ?_ ?_ ?_ ?_
  · simp only [credentialNames, List.mem_cons, List.not_mem_nil, or_false, not_or] at hname
    rw [get_patchShipper]
    simp [hname]
  all_goals simp [get_patchShipper, shipperNames]

theorem configFields_update {field patched : String → Option Json}
    {c : ConfigFile ShipperSection FilterSection} {s : Option ShipperSection}
    (h : configFields field = some c)
    (hother : ∀ name, name ≠ "shipper" → patched name = field name)
    (hs : optionalField decodeShipper (patched "shipper") = some s) :
    configFields patched = some { c with shipper := s } := by
  simp only [configFields, Option.bind_eq_some_iff] at h
  obtain ⟨agent, h1, shipper, -, filter, h3, detection, h4, control, h5, etw, h6, polling, h7,
    hc⟩ := h
  obtain rfl := Option.some.inj hc
  rw [configFields]
  rw [hother "agent" (by decide), hs, hother "filter" (by decide), hother "detection" (by decide),
    hother "control" (by decide), hother "etw" (by decide), hother "polling" (by decide),
    h1, h3, h4, h5, h6, h7]
  rfl

theorem shipper_of_configFields {field : String → Option Json}
    {c : ConfigFile ShipperSection FilterSection} (h : configFields field = some c) :
    optionalField decodeShipper (field "shipper") = some c.shipper := by
  simp only [configFields, Option.bind_eq_some_iff] at h
  obtain ⟨_, -, shipper, hs, _, -, _, -, _, -, _, -, _, -, hc⟩ := h
  obtain rfl := Option.some.inj hc
  exact hs

/-- Only a root and a section that are objects are patched. -/
theorem patchRoot_eq_some {v root : Json} {agentId agentToken : String}
    (h : patchRoot agentId agentToken v = some root) :
    ∃ fields shipper, v = .object fields ∧ v.get "shipper" = some (.object shipper) ∧
      root = .object
        (Json.insert "shipper" (.object (patchShipper agentId agentToken shipper)) fields) := by
  cases v with
  | object fields =>
    simp only [patchRoot] at h
    split at h
    case h_1 shipper hget => exact ⟨fields, shipper, rfl, hget, (Option.some.inj h).symm⟩
    case h_2 => exact absurd h (by simp)
  | _ => simp [patchRoot] at h

theorem isValue_patchRoot {v root : Json} {agentId agentToken : String} (hv : v.IsValue)
    (h : patchRoot agentId agentToken v = some root) : root.IsValue := by
  obtain ⟨fields, shipper, rfl, hget, rfl⟩ := patchRoot_eq_some h
  have hshipper := (Json.isValue_object_iff.mp hv).2 _ (Json.mem_of_get hget)
  exact hv.insert _ (isValue_patchShipper agentId agentToken hshipper)

/-- The written document configures the same, with the credentials in their place. -/
theorem decodeConfigFile_patchRoot {v root : Json} {c : ConfigFile ShipperSection FilterSection}
    {s : ShipperSection} {agentId agentToken : String} (hv : v.IsValue)
    (hc : decodeConfigFile v = some c) (hs : c.shipper = some s)
    (h : patchRoot agentId agentToken v = some root) :
    decodeConfigFile root
      = some { c with shipper := some (persistedSection s agentId agentToken) } := by
  obtain ⟨fields, shipper, rfl, hget, rfl⟩ := patchRoot_eq_some h
  obtain ⟨hordered, hfields⟩ := Json.isValue_object_iff.mp hv
  rw [decodeConfigFile, Json.record_of_ordered hordered] at hc
  rw [decodeConfigFile, Json.record_of_ordered hordered.insert]
  refine configFields_update hc (fun name hname => ?_) ?_
  · rw [Json.get_insert, if_neg (Ne.symm hname)]
  · have hread := shipper_of_configFields hc
    rw [if_pos (by decide), hget, hs] at hread
    have hsection : decodeShipper (.object shipper) = some s := by
      obtain ⟨s', hs', heq⟩ := Option.map_eq_some_iff.mp hread
      rw [hs', Option.some.inj heq]
    rw [if_pos (by decide), Json.get_insert, if_pos rfl]
    exact Option.map_eq_some_iff.mpr ⟨_, decodeShipper_patched agentId agentToken
      (hfields _ (Json.mem_of_get hget)) hsection, rfl⟩

/-! ### The two starts -/

theorem isObject_toValue (doc : Json) (float : String → String) :
    (doc.toValue float).isObject = doc.isObject := by
  cases doc with
  | array xs => rw [Json.toValue_array]; rfl
  | object fields => rw [Json.toValue_object]; rfl
  | number literal => rw [Json.toValue]; rfl
  | _ => rw [Json.toValue]

theorem get_toValue_of_decoded {fields : List (String × Json)}
    {c : ConfigFile ShipperSection FilterSection}
    (hc : decodeConfigFile (.object fields) = some c) (float : String → String) :
    ((Json.object fields).toValue float).get "shipper"
      = ((Json.object fields).get "shipper").map (Json.toValue float) :=
  Json.get_toValue (Json.once_of_record hc (by decide))

theorem exists_patchRoot_iff {doc : Json} {c : ConfigFile ShipperSection FilterSection}
    (hc : decodeConfigFile doc = some c) (agentId agentToken : String)
    (float : String → String) :
    (∃ root, patchRoot agentId agentToken (doc.toValue float) = some root) ↔
      doc.isObject = true ∧ (doc.get "shipper").any Json.isObject = true := by
  cases doc with
  | object fields =>
    have hget := get_toValue_of_decoded hc float
    rw [Json.toValue_object] at hget ⊢
    rw [patchRoot]
    rw [hget]
    rcases hs : (Json.object fields).get "shipper" with _ | v
    · simp
    · have hobj := isObject_toValue v float
      rw [Option.map_some]
      cases hv : v.toValue float <;> simp_all [Json.isObject]
  | array xs => simp [Json.toValue_array, patchRoot, Json.isObject]
  | _ => simp [Json.toValue, patchRoot, Json.isObject]

/-- `load` on a file with a section `shipper`. The overrides do not touch it. -/
theorem load_of_shipper {c : ConfigFile ShipperSection FilterSection} {s : ShipperSection}
    (hs : c.shipper = some s) (programData : Option String)
    (f : ShipperSection → Except String (Option ShipperConfig)) (path : String)
    (overrides : OverridesFile) :
    load programData f path (.parsed c) overrides =
      (f s).map (resolveSections programData (mergeServerOverrides c overrides)) := by
  have hkept : (mergeServerOverrides c overrides).shipper = some s := by
    rw [← hs, mergeServerOverrides]
    cases overrides.decoded <;> rfl
  simp only [load, hkept, Option.map_some, Option.getD_some]
  cases f s <;> rfl

theorem loadAgent_of_shipper (start : Start) {d : Document}
    {c : ConfigFile ShipperSection FilterSection} {s : ShipperSection}
    (hc : decodeConfigFile d.doc = some c) (hs : c.shipper = some s) :
    loadAgent start { file := .json d } =
      ((loadShipper start s { file := .json d }).1.map
        (resolveSections start.programData (mergeServerOverrides c start.overrides)),
        (loadShipper start s { file := .json d }).2) := by
  have hread : (AgentJson.json d).read start.configError = .parsed c := by
    rw [AgentJson.read, hc]
  rw [loadAgent]
  dsimp only
  rw [hread, load_of_shipper hs]
  obtain ⟨agent, shipper, filter, detection, control, etw, polling⟩ := c
  obtain rfl : shipper = some s := hs
  rfl

/-- A start that enrols: what the file asks for, what the server answers, and a file that nobody
else touches. -/
structure Enrols (start : Start) (d : Document) (c : ConfigFile ShipperSection FilterSection)
    (s : ShipperSection) (r : EnrollResult) : Prop where
  decoded : decodeConfigFile d.doc = some c
  shipper : c.shipper = some s
  enabled : s.enabled = true
  needs : s.needsAutoenroll = true
  answered : ∃ url token, s.serverUrl = some url ∧ s.enrollmentToken = some token ∧
    start.perform url token (max s.timeoutSecs 1) = .ok r
  id_clean : Clean r.agentId
  token_clean : Clean r.agentToken
  not_edited : start.reread (.json d) = .json d
  written : start.written = .done

variable {first next : Start} {d : Document} {c : ConfigFile ShipperSection FilterSection}
  {s : ShipperSection} {r : EnrollResult}

theorem Enrols.loadShipper_fst (h : Enrols first d c s r) :
    (loadShipper first s { file := .json d }).1 =
      ((persistEnrollment first r.agentId r.agentToken (.json d)).1.map fun _ =>
        s.fillFromEnroll r.agentId r.agentToken).bind fun s =>
          (first.host.resolveShipper s).map some := by
  obtain ⟨url, token, hurl, htoken, hperform⟩ := h.answered
  simp only [loadShipper, h.enabled, h.needs, if_true, autoenrollAndPersist, hurl, htoken, hperform]

theorem Enrols.loadShipper_file (h : Enrols first d c s r) :
    (loadShipper first s { file := .json d }).2.file =
      (persistEnrollment first r.agentId r.agentToken (.json d)).2 := by
  obtain ⟨url, token, hurl, htoken, hperform⟩ := h.answered
  simp only [loadShipper, h.enabled, h.needs, if_true, autoenrollAndPersist, hurl, htoken, hperform]

/-- The file cannot be patched: this start fails. -/
theorem Enrols.error_of_no_patch (h : Enrols first d c s r)
    (hpatch : ¬(d.skipped.isOk = true ∧
      ∃ root, patchRoot r.agentId r.agentToken (d.doc.toValue first.float) = some root)) :
    ∃ e, (loadAgent first { file := .json d }).1 = .error e := by
  rw [loadAgent_of_shipper first h.decoded h.shipper, h.loadShipper_fst]
  simp only [persistEnrollment, h.not_edited, Document.value]
  cases hok : d.skipped with
  | error e => exact ⟨_, rfl⟩
  | ok u =>
    have hnone : patchRoot r.agentId r.agentToken (d.doc.toValue first.float) = none := by
      refine Option.eq_none_iff_forall_ne_some.mpr fun root hroot => hpatch ⟨?_, root, hroot⟩
      rw [hok]
      rfl
    simp only [Except.map, hnone]
    exact ⟨_, rfl⟩

theorem Enrols.persistEnrollment_of_patch (h : Enrols first d c s r) (hok : d.skipped.isOk = true)
    {root : Json} (hroot : patchRoot r.agentId r.agentToken (d.doc.toValue first.float) = some root) :
    persistEnrollment first r.agentId r.agentToken (.json d)
      = (.ok (), .json (.ofValue root)) := by
  rw [persistEnrollment]
  rw [h.not_edited]
  cases hskipped : d.skipped with
  | error e => simp [hskipped, Except.isOk, Except.toBool] at hok
  | ok u => simp [Document.value, hskipped, Except.map, hroot, h.written]

/-- What the next start reads: an encrypted token may be left. -/
theorem Enrols.decoded_patched (h : Enrols first d c s r) {root : Json}
    (hroot : patchRoot r.agentId r.agentToken (d.doc.toValue first.float) = some root) :
    decodeConfigFile root
      = some { c with shipper := some (persistedSection s r.agentId r.agentToken) } :=
  decodeConfigFile_patchRoot (Json.isValue_toValue d.doc)
    (stable_decodeConfigFile _ _ _ h.decoded) h.shipper hroot

/-- The first start goes on without the encrypted token. -/
theorem Enrols.loadAgent_first (h : Enrols first d c s r) (hok : d.skipped.isOk = true)
    {root : Json} (hroot : patchRoot r.agentId r.agentToken (d.doc.toValue first.float) = some root) :
    (loadAgent first { file := .json d }).2.file = .json (.ofValue root) ∧
      (loadAgent first { file := .json d }).1 =
        (first.host.resolveShipper (s.fillFromEnroll r.agentId r.agentToken)).map
          fun config => resolveSections first.programData
            (mergeServerOverrides c first.overrides) (some config) := by
  have hpersist := h.persistEnrollment_of_patch hok hroot
  rw [loadAgent_of_shipper first h.decoded h.shipper, h.loadShipper_fst, h.loadShipper_file,
    hpersist]
  refine ⟨rfl, ?_⟩
  simp only [Except.map, Except.bind]
  cases first.host.resolveShipper (s.fillFromEnroll r.agentId r.agentToken) <;> rfl

/-- The next start does not enrol. -/
theorem Enrols.loadAgent_next (h : Enrols first d c s r) (next : Start) {root : Json}
    (hroot : patchRoot r.agentId r.agentToken (d.doc.toValue first.float) = some root) :
    (loadAgent next { file := .json (.ofValue root) }).2.enrolments = [] ∧
      (loadAgent next { file := .json (.ofValue root) }).1 =
        (next.host.resolveShipper (persistedSection s r.agentId r.agentToken)).map
          fun config => resolveSections next.programData
            (mergeServerOverrides
              { c with shipper := some (persistedSection s r.agentId r.agentToken) }
              next.overrides)
            (some config) := by
  have hload : loadShipper next (persistedSection s r.agentId r.agentToken)
      { file := .json (.ofValue root) } =
      ((next.host.resolveShipper (persistedSection s r.agentId r.agentToken)).map some,
        { file := .json (.ofValue root) }) := by
    have henabled : (persistedSection s r.agentId r.agentToken).enabled = true := h.enabled
    have hneeds : (persistedSection s r.agentId r.agentToken).needsAutoenroll = false := by
      simp [ShipperSection.needsAutoenroll, persistedSection, present, h.id_clean.1]
    simp only [loadShipper, henabled, hneeds, if_true, Bool.false_eq_true, if_false]
    rfl
  rw [loadAgent_of_shipper next (d := .ofValue root) (h.decoded_patched hroot) rfl, hload]
  refine ⟨rfl, ?_⟩
  cases next.host.resolveShipper (persistedSection s r.agentId r.agentToken) <;> rfl

/-- The patch leaves everything else as it is. -/
theorem get_patchRoot {agentId agentToken : String} {v root : Json}
    (h : patchRoot agentId agentToken v = some root) :
    (∀ name, name ≠ "shipper" → root.get name = v.get name) ∧
      ∀ name, name ∉ credentialNames →
        (root.get "shipper").bind (Json.get name) = (v.get "shipper").bind (Json.get name) := by
  obtain ⟨fields, shipper, rfl, hget, rfl⟩ := patchRoot_eq_some h
  refine ⟨fun name hname => ?_, fun name hname => ?_⟩
  · rw [Json.get_insert, if_neg (Ne.symm hname)]
  · simp only [credentialNames, List.mem_cons, List.not_mem_nil, or_false, not_or] at hname
    rw [Json.get_insert, if_pos rfl, hget, Option.bind_some, Option.bind_some, get_patchShipper]
    simp [hname]

/-- What is found in a value when it is written out again. -/
theorem get_toValue_of_isValue {v : Json} (hv : v.IsValue) (float : String → String)
    (name : String) : (v.toValue float).get name = (v.get name).map (Json.toValue float) := by
  cases v with
  | object fields => exact Json.get_toValue_of_nodup (Json.isValue_object_iff.mp hv).1.nodup name
  | array xs => rw [Json.toValue_array]; rfl
  | number literal => rw [Json.toValue]; rfl
  | _ => rw [Json.toValue]; rfl

theorem isValue_of_get {v x : Json} {name : String} (hv : v.IsValue) (h : v.get name = some x) :
    x.IsValue := by
  cases v with
  | object fields => exact (Json.isValue_object_iff.mp hv).2 _ (Json.mem_of_get h)
  | _ => simp [Json.get] at h

theorem rel_toValue_iff {float : String → String} {o : Option Json} (h : ∀ x ∈ o, x.IsValue) :
    Option.Rel Json.SameValue (o.map (Json.toValue float)) o ↔ ∀ x, o = some x → x.Exact float := by
  cases o with
  | none => exact iff_of_true .none (by simp)
  | some x =>
    rw [Option.map_some, Option.rel_some_some, Json.sameValue_toValue_iff (h x rfl)]
    simp

/-- The keys keep their values if the numbers do. -/
theorem keepsKeys_iff {agentId agentToken : String} {float : String → String} {v root : Json}
    (hv : v.IsValue) (h : patchRoot agentId agentToken (v.toValue float) = some root) :
    KeepsKeys v root ↔ KeepsNumbers float v := by
  obtain ⟨hroot, hsection⟩ := get_patchRoot h
  have hinner (name : String) : ((v.toValue float).get "shipper").bind (Json.get name)
      = ((v.get "shipper").bind (Json.get name)).map (Json.toValue float) := by
    rw [get_toValue_of_isValue hv]
    cases hs : v.get "shipper" with
    | none => rfl
    | some x => exact get_toValue_of_isValue (isValue_of_get hv hs) float name
  have hvalue (name : String) : ∀ x ∈ (v.get "shipper").bind (Json.get name), x.IsValue := by
    intro x hx
    obtain ⟨s, hs, hget⟩ := Option.bind_eq_some_iff.mp hx
    exact isValue_of_get (isValue_of_get hv hs) hget
  have hkeys : KeepsKeys v root ↔
      (∀ name, name ≠ "shipper" → ∀ x, v.get name = some x → x.Exact float) ∧
        ∀ name, name ∉ credentialNames →
          ∀ x, (v.get "shipper").bind (Json.get name) = some x → x.Exact float := by
    refine and_congr (forall_congr' fun name => imp_congr_right fun hname => ?_)
      (forall_congr' fun name => imp_congr_right fun hname => ?_)
    · rw [hroot name hname, get_toValue_of_isValue hv]
      exact rel_toValue_iff fun x hx => isValue_of_get hv hx
    · rw [hsection name hname, hinner]
      exact rel_toValue_iff (hvalue name)
  rw [hkeys]
  exact ⟨fun hk => ⟨fun name x hname => hk.1 name hname x, fun name x hname => hk.2 name hname x⟩,
    fun hk => ⟨fun name hname x => hk.root name x hname,
      fun name hname x => hk.inShipper name x hname⟩⟩

theorem filter_ne_empty_eq_none {o : Option String} :
    (o.filter fun b64 => b64 ≠ "") = none ↔ o = none ∨ o = some "" := by
  rcases o with _ | text
  · simp
  · by_cases h : text = "" <;> simp [h]

/-- **The two patches agree** exactly on a file whose root and section are objects, that has no
encrypted token but the empty one, whose URL has the scheme `http` or `https` written in small
letters, and whose other numbers are written out again as the numbers they were. -/
theorem persistsWhatItRuns_iff (h : Enrols first d c s r) :
    PersistsWhatItRuns first next (.json d) ↔ Persistable first d s := by
  by_cases hpatch : d.skipped.isOk = true ∧
      ∃ root, patchRoot r.agentId r.agentToken (d.doc.toValue first.float) = some root
  · obtain ⟨hok, root, hroot⟩ := hpatch
    obtain ⟨url, -, hurl, -, -⟩ := h.answered
    obtain ⟨hobject, hshipper⟩ := (exists_patchRoot_iff h.decoded _ _ _).mp ⟨root, hroot⟩
    obtain ⟨hfile, hrun⟩ := h.loadAgent_first hok hroot
    obtain ⟨henrolments, hagain⟩ := h.loadAgent_next next hroot
    rw [first.host.resolveShipper_of_plain (s := s.fillFromEnroll r.agentId r.agentToken) hurl rfl
      h.id_clean rfl] at hrun
    rw [next.host.resolveShipper_of_plain (s := persistedSection s r.agentId r.agentToken) hurl rfl
      h.id_clean rfl] at hagain
    have hforgotten : (s.fillFromEnroll r.agentId r.agentToken).tokenEncryptedB64.isSome = false :=
      rfl
    rw [hforgotten, if_neg Bool.false_ne_true] at hrun
    unfold PersistsWhatItRuns
    dsimp only
    rw [hfile, hrun, hagain, henrolments]
    cases hhttp : isHttpUrl url with
    | false =>
      refine iff_of_false ?_ fun hp => ?_
      · rintro ⟨_, _, h1, -⟩
        cases h1
      · have hany := hp.http
        rw [hurl, Option.any_some, hhttp] at hany
        cases hany
    | true =>
      cases hleft : (persistedSection s r.agentId r.agentToken).tokenEncryptedB64 with
      | some b64 =>
        refine iff_of_false ?_ fun hp => ?_
        · rintro ⟨_, _, -, h2, -⟩
          cases h2
        · rw [persistedSection, filter_ne_empty_eq_none.mpr hp.no_leftover] at hleft
          cases hleft
      | none =>
        -- only the numbers are left
        have hbefore : (AgentJson.json d).value? = some (d.doc.toValue id) := by
          cases hskipped : d.skipped with
          | error e => simp [hskipped, Except.isOk, Except.toBool] at hok
          | ok u => simp [AgentJson.value?, Document.value, hskipped, Except.map, Except.toOption]
        have hafter : (AgentJson.json (.ofValue root)).value? = some root :=
          congrArg some (isValue_patchRoot (Json.isValue_toValue d.doc) hroot)
        have hkeeps : KeepsKeys (d.doc.toValue id) root ↔
            KeepsNumbers first.float (d.doc.toValue id) :=
          keepsKeys_iff (Json.isValue_toValue d.doc) (by rwa [Json.toValue_toValue])
        constructor
        · rintro ⟨_, _, -, -, -, -, -, v, v', hv, hv', hkept⟩
          rw [hbefore] at hv
          rw [hafter] at hv'
          obtain rfl := Option.some.inj hv
          obtain rfl := Option.some.inj hv'
          exact ⟨hok, hobject, hshipper, filter_ne_empty_eq_none.mp hleft,
            by rw [hurl]; exact hhttp, hkeeps.mp hkept⟩
        · exact fun hp => ⟨_, _, rfl, rfl, rfl, rfl, rfl, _, _, hbefore, hafter,
            hkeeps.mpr hp.numbers⟩
  · obtain ⟨e, he⟩ := h.error_of_no_patch hpatch
    refine iff_of_false ?_ fun hp => hpatch ⟨hp.readable, ?_⟩
    · rintro ⟨config, config', h1, -⟩
      rw [he] at h1
      cases h1
    · exact (exists_patchRoot_iff h.decoded _ _ _).mpr ⟨hp.root_object, hp.shipper_object⟩

/-! ### Two files -/

/-- A file with a shared token and this encrypted one, and with a number that nothing reads. -/
def fresh (encrypted revision : String) : Document where
  doc := .object [("revision", .number revision), ("shipper", .object [
    ("server_url", .string "https://wazabi.example.com"),
    ("enrollment_token", .string "shared"),
    ("token_encrypted_b64", .string encrypted)])]
  skipped := .ok ()

/-- A section that has a token for the enrolment, and no identity yet. -/
def freshSection (encrypted : String) : ShipperSection where
  enabled := true
  serverUrl := some "https://wazabi.example.com"
  agentId := none
  tenantId := none
  tags := []
  tokenEncryptedB64 := some encrypted
  tokenPlain := none
  enrollmentToken := some "shared"
  verifyTls := true
  timeoutSecs := 30
  pollIntervalSecs := 5
  maxBackoffSecs := 300

/-- A start against a server that enrols whoever has the shared token. -/
def quietStart : Start where
  programData := none
  host := {
    computerName := some "HOST"
    dpapiUnprotect := fun _ => .error "CryptUnprotectData failed: error 13"
    fromUtf8 := fun _ => .ok ""
    quoted := id }
  path := "agent.json"
  configError := fun _ => "invalid type"
  overrides := .unreadable
  perform := fun _ token _ =>
    if token = "shared" then .ok { agentId := "5f1b3a8e", agentToken := "tok" }
    else .error "enroll rejected by server"
  reread := id
  written := .done
  float := fun literal => (asF64 (.number literal)).getD literal

theorem enrols_fresh {encrypted : String} (hblank : isBlank encrypted = true) (revision : String) :
    Enrols quietStart (fresh encrypted revision) { shipper := some (freshSection encrypted) }
      (freshSection encrypted) { agentId := "5f1b3a8e", agentToken := "tok" } where
  decoded := rfl
  shipper := rfl
  enabled := rfl
  needs := by
    simp only [ShipperSection.needsAutoenroll, freshSection, present, Option.any_some, hblank]
    decide
  answered := ⟨_, _, rfl, rfl, rfl⟩
  id_clean := by decide
  token_clean := by decide
  not_edited := rfl
  written := rfl

theorem keepsNumbers_of_exact {float : String → String} {v : Json} (h : v.Exact float) :
    KeepsNumbers float v where
  root _ _ _ hget := h.get hget
  inShipper _ _ _ hget := by
    obtain ⟨s, hs, hget⟩ := Option.bind_eq_some_iff.mp hget
    exact (h.get hs).get hget

/-- The leftover of the skeleton is empty, and the two starts agree. -/
theorem fresh_persisted : PersistsWhatItRuns quietStart quietStart (.json (fresh "" "3.5")) := by
  have hnumbers : ((fresh "" "3.5").doc.toValue id).Exact quietStart.float := by
    unfold Json.Exact Json.WrittenSame
    decide +kernel
  exact (persistsWhatItRuns_iff (enrols_fresh (by decide) "3.5")).mpr
    ⟨rfl, rfl, rfl, .inr rfl, by decide, keepsNumbers_of_exact hnumbers⟩

/-- With a blank in its place the machine is enrolled, and does not start any more. And a number of
65 bits that nothing reads comes back as another one. -/
theorem fresh_blank_not_persisted :
    ((∃ c s r, Enrols quietStart (fresh " " "3.5") c s r) ∧
      ¬PersistsWhatItRuns quietStart quietStart (.json (fresh " " "3.5"))) ∧
    (∃ c s r, Enrols quietStart (fresh "" "18446744073709551617") c s r) ∧
      ¬PersistsWhatItRuns quietStart quietStart (.json (fresh "" "18446744073709551617")) := by
  refine ⟨⟨⟨_, _, _, enrols_fresh (by decide) _⟩, ?_⟩, ⟨_, _, _, enrols_fresh (by decide) _⟩, ?_⟩
  · rintro ⟨c, c', -, hagain, -⟩
    have herror : (loadAgent quietStart { file := (loadAgent quietStart
        { file := .json (fresh " " "3.5") }).2.file }).1.isOk = false := by decide +kernel
    rw [hagain] at herror
    cases herror
  · rintro ⟨_, _, -, -, -, -, -, v, v', hv, hv', hkept⟩
    have hbefore : (AgentJson.json (fresh "" "18446744073709551617")).value?.bind
        (Json.get "revision") = some (.number "18446744073709551617") := by decide +kernel
    have hafter : (loadAgent quietStart
        { file := .json (fresh "" "18446744073709551617") }).2.file.value?.bind
          (Json.get "revision") = some (.number "1.8446744073709552e+19") := by decide +kernel
    rw [hv, Option.bind_some] at hbefore
    rw [hv', Option.bind_some] at hafter
    have hsame := hkept.1 "revision" (by decide)
    rw [hbefore, hafter, Option.rel_some_some, Json.SameValue] at hsame
    exact absurd hsame (by decide +kernel)

end Config

end WazabiAgent
