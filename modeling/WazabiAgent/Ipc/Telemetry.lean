import WazabiAgent.Ipc.Delivery
import WazabiAgent.Lib.JsonValue

/-!
# What a reader recovers of an event

A `Telemetry` is what can be read off a shipped kernel event by someone who knows the names of the
members, takes an absent text for the empty one, an absent count for 0 and an absent integrity level
for unresolved.

## Main definitions

* `KernelFact` — the fields of an event that its operation uses
* `Telemetry.ofJson`, `KernelFact.ofRaw` — the reader

## Main results

* `ofRaw_payload` — the reader of `raw` finds the event
-/

namespace WazabiAgent

namespace Ipc

/-! ### What a reader recovers -/

/-- What the driver saw, without the layout it is sent in. -/
inductive KernelFact
  | processCreate (processId parentProcessId creatingProcessId : ℕ)
      (imagePath commandLine parentImagePath userSid : String) (integrityLevel : ℕ)
  | processExit (processId : ℕ) (exitCode : Int)
  | imageLoad (processId imageBase imageSize : ℕ) (imagePath : String)
  /-- Type, size and preview of the data, for an operation that has data. -/
  | registry (processId operation : ℕ) (keyPath valueName : String)
      (data : Option (ℕ × ℕ × List UInt8))
  | threadCreate (processId threadId creatingProcessId : ℕ)
  | threadExit (processId threadId : ℕ)
  | handleAccess (sourceProcessId targetProcessId desiredAccess originalDesiredAccess
      operation : ℕ)

/-- What a delivery tells. -/
structure Telemetry where
  timestamp : Int
  dropCount : ℕ
  truncCount : ℕ
  fact : KernelFact

/-- The event, of its operation's fields. -/
def KernelEvent.fact : KernelEvent → KernelFact
  | processCreate processId parentProcessId creatingProcessId imagePath commandLine
      parentImagePath userSid integrityLevel =>
    .processCreate processId.toNat parentProcessId.toNat creatingProcessId.toNat imagePath.text
      commandLine.text parentImagePath.text userSid.text integrityLevel.toNat
  | processExit processId exitCode => .processExit processId.toNat exitCode.toInt
  | imageLoad processId imageBase imageSize imagePath =>
    .imageLoad processId.toNat imageBase.toNat imageSize.toNat imagePath.text
  | registry processId operation valueType dataSize keyPath valueName dataPreview =>
    .registry processId.toNat operation.toNat keyPath.text valueName.text
      (if operation = 1 then some (valueType.toNat, dataSize.toNat, dataPreview.shown) else none)
  | threadCreate processId threadId creatingProcessId =>
    .threadCreate processId.toNat threadId.toNat creatingProcessId.toNat
  | threadExit processId threadId => .threadExit processId.toNat threadId.toNat
  | handleAccess sourceProcessId targetProcessId desiredAccess originalDesiredAccess operation =>
    .handleAccess sourceProcessId.toNat targetProcessId.toNat desiredAccess.toNat
      originalDesiredAccess.toNat operation.toNat

/-- What this delivery tells. -/
def Delivery.telemetry (d : Delivery) : Telemetry where
  timestamp := d.timestamp.toInt
  dropCount := d.dropCount.toNat
  truncCount := d.truncCount.toNat
  fact := d.event.fact

/-- A hexadecimal digit. -/
def unhexDigit (c : Char) : Option ℕ :=
  if '0' ≤ c ∧ c ≤ '9' then some (c.toNat - 48)
  else if 'a' ≤ c ∧ c ≤ 'f' then some (c.toNat - 87)
  else none

/-- Reads bytes back from hex digits. -/
def unhex : List Char → Option (List UInt8)
  | [] => some []
  | [_] => none
  | a :: b :: rest => do
    let x ← unhexDigit a
    let y ← unhexDigit b
    let bytes ← unhex rest
    return UInt8.ofNat (16 * x + y) :: bytes

/-- A number that must be there. -/
def natAt (j : Json) (key : String) : Option ℕ := (j.get key).bind Json.asU64

/-- A number, which may be left out. -/
def natOr (default : ℕ) (j : Json) (key : String) : Option ℕ :=
  Json.defaulted default Json.asU64 (j.get key)

/-- A text, which may be left out where it is empty. -/
def textAt (j : Json) (key : String) : Option String := Json.defaulted "" Json.asStr (j.get key)

/-- The reader of the member `raw`. -/
def KernelFact.ofRaw (eventType : String) (raw : Json) : Option KernelFact :=
  if eventType = "process_create" then do
    return .processCreate (← natAt raw "pid") (← natAt raw "parent_pid")
      (← natAt raw "creating_pid") (← textAt raw "image_path") (← textAt raw "command_line")
      (← textAt raw "parent_image_path") (← textAt raw "user_sid")
      (← natOr 0xFFFFFFFF raw "integrity_level")
  else if eventType = "process_terminate" then do
    return .processExit (← natAt raw "pid") (← (raw.get "exit_code").bind Json.asI64)
  else if eventType = "module_load" then do
    return .imageLoad (← natAt raw "pid") (← natAt raw "image_base") (← natAt raw "image_size")
      (← textAt raw "image_path")
  else if eventType = "registry_write" then do
    let operation ← natAt raw "op_code"
    let data ←
      if operation = 1 then do
        let hex ← textAt raw "data_preview_hex"
        pure (some (← natAt raw "value_type", ← natAt raw "data_size", ← unhex hex.toList))
      else pure none
    return .registry (← natAt raw "pid") operation (← textAt raw "key_path")
      (← textAt raw "value_name") data
  else if eventType = "thread_create" then do
    return .threadCreate (← natAt raw "pid") (← natAt raw "tid") (← natAt raw "creating_pid")
  else if eventType = "thread_exit" then do
    return .threadExit (← natAt raw "pid") (← natAt raw "tid")
  else if eventType = "process_handle_access" then do
    return .handleAccess (← natAt raw "source_pid") (← natAt raw "target_pid")
      (← natAt raw "desired_access") (← natAt raw "original_desired_access")
      (← natAt raw "op_code")
  else none

/-- The reader of the line. -/
def Telemetry.ofJson (v : Json) : Option Telemetry := do
  let eventType ← (v.get "event_type").bind Json.asStr
  let timestamp ← (v.get "ts_ft_100ns").bind Json.asI64
  let dropCount ← natOr 0 v "drop_count"
  let truncCount ← natOr 0 v "trunc_count"
  let fact ← KernelFact.ofRaw eventType (← v.get "raw")
  return ⟨timestamp, dropCount, truncCount, fact⟩

/-! ### The payload as a map -/

theorem get_insertText (key text name : String) (obj : List (String × Json)) :
    (Json.object (insertText key text obj)).get name
      = if key = name ∧ text ≠ "" then some (.string text) else (Json.object obj).get name := by
  rw [insertText]
  by_cases htext : text = ""
  · rw [if_pos htext, if_neg (by simp [htext])]
  · rw [if_neg htext, Json.get_insert]
    simp [htext]

theorem get_insertSome (key name : String) (value : Option Json) (obj : List (String × Json)) :
    (Json.object (insertSome key value obj)).get name
      = if key = name then value.or ((Json.object obj).get name)
        else (Json.object obj).get name := by
  cases value with
  | none => simp [insertSome]
  | some v => simp [insertSome, Json.get_insert]

/-- The names under which what Windows answers is put. -/
def lookupKeys : List String := ["user", "user_domain", "user_full", "session_id", "elevated"]

theorem get_insertUser (env : KernelEnv) (userSid name : String) (obj : List (String × Json))
    (hname : name ∉ lookupKeys) :
    (Json.object (insertUser env userSid obj)).get name
      = (Json.object (insertText "user_sid" userSid obj)).get name := by
  simp only [lookupKeys, List.mem_cons, not_or] at hname
  obtain ⟨huser, hdomain, hfull, -⟩ := hname
  rw [insertUser, insertText]
  split_ifs with hsid
  · rfl
  · cases env.resolveUser userSid with
    | none => rfl
    | some account =>
      simp [Json.get_insert, Ne.symm huser, Ne.symm hdomain, Ne.symm hfull]

theorem get_insertIntegrity (il : ℕ) (name : String) (obj : List (String × Json)) :
    (Json.object (insertIntegrity il obj)).get name
      = if il = 0xFFFFFFFF then (Json.object obj).get name
        else if name = "integrity_label" then some (.string (integrityLabelStr il))
        else if name = "integrity_level" then some (num il)
        else (Json.object obj).get name := by
  rw [insertIntegrity]
  split_ifs with hil hlabel hlevel <;> simp_all [Json.get_insert, eq_comm]

/-! ### The reader finds the event -/

section Reading

variable {j : Json} {key : String}

theorem natAt_num {n : ℕ} (hget : j.get key = some (num n)) (hn : n < UInt64.size) :
    natAt j key = some n := by
  rw [natAt, hget, Option.bind_some]
  exact Json.asU64_toString hn

theorem textAt_string {text : String} (hget : j.get key = some (.string text)) :
    textAt j key = some text := by
  rw [textAt, hget]
  rfl

/-- A text that is left out where it is empty. -/
theorem textAt_insertText {text : String}
    (hget : j.get key = if text ≠ "" then some (.string text) else none) :
    textAt j key = some text := by
  rw [textAt, hget]
  split_ifs with htext
  · rfl
  · rw [not_not.mp htext]
    rfl

end Reading

/-- The members of `ProcessCreate` without the answers of Windows. -/
def ProcessCreateEvent.members (evt : ProcessCreateEvent) : List (String × Json) :=
  let parentImagePath := decodePath imagePathMax evt.parentImagePath evt.parentImagePathLen
  let obj := Json.ofMembers [
    ("pid", num evt.processId),
    ("parent_pid", num evt.parentProcessId),
    ("creating_pid", num evt.creatingProcessId),
    ("image_path", .string (decodePath imagePathMax evt.imagePath evt.imagePathLen))]
  let obj := insertText "command_line"
    (decodePath commandLineMax evt.commandLine evt.commandLineLen) obj
  let obj := insertText "parent_image_path" parentImagePath obj
  let obj := insertText "parent_image_name" ((basename parentImagePath).getD "") obj
  let obj := insertText "user_sid" (decodePath userSidMax evt.userSid evt.userSidLen) obj
  insertIntegrity evt.integrityLevel obj

theorem get_processCreate (env : KernelEnv) (evt : ProcessCreateEvent) {name : String}
    (hname : name ∉ lookupKeys) :
    (evt.payload env).get name = (Json.object evt.members).get name := by
  have hsession : "session_id" ≠ name := by
    rintro rfl
    exact hname (by decide)
  have helevated : "elevated" ≠ name := by
    rintro rfl
    exact hname (by decide)
  rw [ProcessCreateEvent.payload, ProcessCreateEvent.members]
  rw [get_insertSome, if_neg helevated, get_insertSome, if_neg hsession, get_insertIntegrity,
    get_insertUser _ _ _ _ hname, ← get_insertIntegrity]

theorem ofRaw_processCreate (env : KernelEnv) {evt : ProcessCreateEvent}
    (hpid : evt.processId < UInt64.size) (hparent : evt.parentProcessId < UInt64.size)
    (hcreating : evt.creatingProcessId < UInt64.size)
    (hlevel : evt.integrityLevel < UInt64.size) :
    KernelFact.ofRaw "process_create" (evt.payload env) = some (.processCreate evt.processId
      evt.parentProcessId evt.creatingProcessId
      (decodePath imagePathMax evt.imagePath evt.imagePathLen)
      (decodePath commandLineMax evt.commandLine evt.commandLineLen)
      (decodePath imagePathMax evt.parentImagePath evt.parentImagePathLen)
      (decodePath userSidMax evt.userSid evt.userSidLen) evt.integrityLevel) := by
  have hget {name : String} (hname : name ∉ lookupKeys) := get_processCreate env evt hname
  simp only [ProcessCreateEvent.members, get_insertIntegrity, get_insertText,
    Json.get_ofMembers] at hget
  generalize decodePath imagePathMax evt.imagePath evt.imagePathLen = imagePath at hget ⊢
  generalize decodePath commandLineMax evt.commandLine evt.commandLineLen = commandLine at hget ⊢
  generalize decodePath imagePathMax evt.parentImagePath evt.parentImagePathLen = parent at hget ⊢
  generalize decodePath userSidMax evt.userSid evt.userSidLen = userSid at hget ⊢
  have h₁ : natAt (evt.payload env) "pid" = some evt.processId :=
    natAt_num (by simp [hget, lookupKeys, Json.get_object_cons]) hpid
  have h₂ : natAt (evt.payload env) "parent_pid" = some evt.parentProcessId :=
    natAt_num (by simp [hget, lookupKeys, Json.get_object_cons]) hparent
  have h₃ : natAt (evt.payload env) "creating_pid" = some evt.creatingProcessId :=
    natAt_num (by simp [hget, lookupKeys, Json.get_object_cons]) hcreating
  have h₄ : textAt (evt.payload env) "image_path" = some imagePath :=
    textAt_string (by simp [hget, lookupKeys, Json.get_object_cons])
  have h₅ : textAt (evt.payload env) "command_line" = some commandLine :=
    textAt_insertText (by simp [hget, lookupKeys, Json.get_object_cons, Json.get_object_nil])
  have h₆ : textAt (evt.payload env) "parent_image_path" = some parent :=
    textAt_insertText (by simp [hget, lookupKeys, Json.get_object_cons, Json.get_object_nil])
  have h₇ : textAt (evt.payload env) "user_sid" = some userSid :=
    textAt_insertText (by simp [hget, lookupKeys, Json.get_object_cons, Json.get_object_nil])
  have h₈ : natOr 0xFFFFFFFF (evt.payload env) "integrity_level" = some evt.integrityLevel := by
    by_cases hil : evt.integrityLevel = 0xFFFFFFFF
    · simp [natOr, hget, lookupKeys, Json.get_object_cons, Json.get_object_nil, hil,
        Json.defaulted]
    · have hfound : (evt.payload env).get "integrity_level" = some (num evt.integrityLevel) := by
        simp [hget, lookupKeys, hil]
      rw [natOr, hfound]
      exact Json.asU64_toString hlevel
  rw [KernelFact.ofRaw, if_pos rfl, h₁, h₂, h₃, h₄, h₅, h₆, h₇, h₈]
  rfl

theorem ofRaw_processExit {evt : ProcessExitEvent} (hpid : evt.processId < UInt64.size)
    (hlow : -2 ^ 63 ≤ evt.exitCode) (hhigh : evt.exitCode < 2 ^ 63) :
    KernelFact.ofRaw "process_terminate" evt.payload
      = some (.processExit evt.processId evt.exitCode) := by
  have h₁ : natAt evt.payload "pid" = some evt.processId :=
    natAt_num (by simp [ProcessExitEvent.payload, Json.get_ofMembers, Json.get_object_cons]) hpid
  have h₂ : (evt.payload.get "exit_code").bind Json.asI64 = some evt.exitCode := by
    have hfound : evt.payload.get "exit_code" = some (.number (toString evt.exitCode)) := by
      simp [ProcessExitEvent.payload, Json.get_ofMembers, Json.get_object_cons]
    rw [hfound]
    exact Json.asI64_toString hlow hhigh
  rw [KernelFact.ofRaw, if_neg (by decide), if_pos rfl, h₁, h₂]
  rfl

theorem ofRaw_imageLoad {evt : ImageLoadEvent} (hpid : evt.processId < UInt64.size)
    (hbase : evt.imageBase < UInt64.size) (hsize : evt.imageSize < UInt64.size) :
    KernelFact.ofRaw "module_load" evt.payload = some (.imageLoad evt.processId evt.imageBase
      evt.imageSize (decodePath imagePathMax evt.imagePath evt.imagePathLen)) := by
  have hget (name : String) : evt.payload.get name = _ := Json.get_ofMembers _ name
  have h₁ : natAt evt.payload "pid" = some evt.processId :=
    natAt_num (by simp [hget, Json.get_object_cons]) hpid
  have h₂ : natAt evt.payload "image_base" = some evt.imageBase :=
    natAt_num (by simp [hget, Json.get_object_cons]) hbase
  have h₃ : natAt evt.payload "image_size" = some evt.imageSize :=
    natAt_num (by simp [hget, Json.get_object_cons]) hsize
  have h₄ : textAt evt.payload "image_path"
      = some (decodePath imagePathMax evt.imagePath evt.imagePathLen) :=
    textAt_string (by simp [hget, Json.get_object_cons])
  rw [KernelFact.ofRaw, if_neg (by decide), if_neg (by decide), if_pos rfl, h₁, h₂, h₃, h₄]
  rfl

theorem unhexDigit_hexDigit {n : ℕ} (h : n < 16) : unhexDigit (Json.hexDigit n) = some n := by
  interval_cases n <;> rfl

theorem unhex_hexOf (bytes : List UInt8) : unhex (hexOf bytes).toList = some bytes := by
  rw [hexOf, String.toList_ofList]
  induction bytes with
  | nil => rfl
  | cons b bytes ih =>
    have hlt : b.toNat < 256 := b.toNat_lt
    have hbyte : UInt8.ofNat (16 * (b.toNat / 16) + b.toNat % 16) = b := by
      rw [Nat.div_add_mod, UInt8.ofNat_toNat]
    rw [List.flatMap_cons, List.cons_append, List.cons_append, List.nil_append, unhex,
      unhexDigit_hexDigit (by omega), unhexDigit_hexDigit (by omega), ih]
    exact congrArg (fun b => some (b :: bytes)) hbyte

/-- The members of a registry event that every operation has. -/
def RegistryEvent.members (evt : RegistryEvent) : List (String × Json) :=
  insertText "value_name" (decodePath registryValueNameMax evt.valueName evt.valueNameLen)
    (Json.ofMembers [
      ("pid", num evt.processId),
      ("op", .string (registryOpName evt.operation)),
      ("op_code", num evt.operation),
      ("key_path", .string (decodePath registryKeyPathMax evt.keyPath evt.keyPathLen))])

/-- The preview, as far as it is shown. -/
def RegistryEvent.shown (evt : RegistryEvent) : List UInt8 :=
  evt.dataPreview.take (min evt.dataPreviewLen registryDataPreviewMax)

theorem RegistryEvent.payload_eq (evt : RegistryEvent) :
    evt.payload = .object (if evt.operation = 1 then
      Json.insert "data_truncated" (.bool (evt.dataSize > evt.dataPreviewLen))
        (Json.insert "data_preview_hex" (.string (hexOf evt.shown))
        (Json.insert "data_size" (num evt.dataSize)
        (Json.insert "value_type" (num evt.valueType) evt.members)))
    else evt.members) := by
  have hname : (if evt.valueNameLen = 0 then ""
      else decodePath registryValueNameMax evt.valueName evt.valueNameLen)
      = decodePath registryValueNameMax evt.valueName evt.valueNameLen := by
    rw [decodePath]
    split_ifs with h₁ h₂
    · rfl
    · exact absurd (.inl h₁) h₂
    · rfl
    · rfl
  rw [RegistryEvent.payload]
  rw [hname]
  exact (apply_ite Json.object _ _ _).symm

theorem ofRaw_registry {evt : RegistryEvent} (hpid : evt.processId < UInt64.size)
    (hop : evt.operation < UInt64.size) (htype : evt.valueType < UInt64.size)
    (hsize : evt.dataSize < UInt64.size) :
    KernelFact.ofRaw "registry_write" evt.payload = some (.registry evt.processId evt.operation
      (decodePath registryKeyPathMax evt.keyPath evt.keyPathLen)
      (decodePath registryValueNameMax evt.valueName evt.valueNameLen)
      (if evt.operation = 1 then some (evt.valueType, evt.dataSize, evt.shown) else none)) := by
  have hget (name : String) : (Json.object evt.members).get name = _ :=
    get_insertText _ _ name _
  simp only [Json.get_ofMembers] at hget
  -- no member of the data has one of these names
  have hmember {name : String} (hname : name ∉ ["data_truncated", "data_preview_hex", "data_size",
      "value_type"]) : evt.payload.get name = (Json.object evt.members).get name := by
    simp only [List.mem_cons, not_or] at hname
    rw [evt.payload_eq]
    split_ifs
    · simp [Json.get_insert, Ne.symm hname.1, Ne.symm hname.2.1, Ne.symm hname.2.2.1,
        Ne.symm hname.2.2.2.1]
    · rfl
  have h₁ : natAt evt.payload "pid" = some evt.processId :=
    natAt_num (by simp [hmember, hget, Json.get_object_cons]) hpid
  have h₂ : natAt evt.payload "op_code" = some evt.operation :=
    natAt_num (by simp [hmember, hget, Json.get_object_cons]) hop
  have h₃ : textAt evt.payload "key_path"
      = some (decodePath registryKeyPathMax evt.keyPath evt.keyPathLen) :=
    textAt_string (by simp [hmember, hget, Json.get_object_cons])
  have h₄ : textAt evt.payload "value_name"
      = some (decodePath registryValueNameMax evt.valueName evt.valueNameLen) :=
    textAt_insertText (by simp [hmember, hget, Json.get_object_cons, Json.get_object_nil])
  rw [KernelFact.ofRaw, if_neg (by decide), if_neg (by decide), if_neg (by decide), if_pos rfl,
    h₁, h₂, h₃, h₄]
  by_cases hset : evt.operation = 1
  · have hdata := evt.payload_eq
    rw [if_pos hset] at hdata
    have h₅ : natAt evt.payload "value_type" = some evt.valueType :=
      natAt_num (by simp [hdata, Json.get_insert]) htype
    have h₆ : natAt evt.payload "data_size" = some evt.dataSize :=
      natAt_num (by simp [hdata, Json.get_insert]) hsize
    have h₇ : textAt evt.payload "data_preview_hex" = some (hexOf evt.shown) :=
      textAt_string (by simp [hdata, Json.get_insert])
    rw [h₅, h₆, h₇]
    simp [hset, unhex_hexOf]
  · simp [hset]

theorem ofRaw_threadCreate {evt : ThreadCreateEvent} (hpid : evt.processId < UInt64.size)
    (htid : evt.threadId < UInt64.size) (hcreating : evt.creatingProcessId < UInt64.size) :
    KernelFact.ofRaw "thread_create" evt.payload
      = some (.threadCreate evt.processId evt.threadId evt.creatingProcessId) := by
  have hget (name : String) : evt.payload.get name = _ := Json.get_ofMembers _ name
  have h₁ : natAt evt.payload "pid" = some evt.processId :=
    natAt_num (by simp [hget, Json.get_object_cons]) hpid
  have h₂ : natAt evt.payload "tid" = some evt.threadId :=
    natAt_num (by simp [hget, Json.get_object_cons]) htid
  have h₃ : natAt evt.payload "creating_pid" = some evt.creatingProcessId :=
    natAt_num (by simp [hget, Json.get_object_cons]) hcreating
  rw [KernelFact.ofRaw, if_neg (by decide), if_neg (by decide), if_neg (by decide),
    if_neg (by decide), if_pos rfl, h₁, h₂, h₃]
  rfl

theorem ofRaw_threadExit {evt : ThreadExitEvent} (hpid : evt.processId < UInt64.size)
    (htid : evt.threadId < UInt64.size) :
    KernelFact.ofRaw "thread_exit" evt.payload = some (.threadExit evt.processId evt.threadId) := by
  have hget (name : String) : evt.payload.get name = _ := Json.get_ofMembers _ name
  have h₁ : natAt evt.payload "pid" = some evt.processId :=
    natAt_num (by simp [hget, Json.get_object_cons]) hpid
  have h₂ : natAt evt.payload "tid" = some evt.threadId :=
    natAt_num (by simp [hget, Json.get_object_cons]) htid
  rw [KernelFact.ofRaw, if_neg (by decide), if_neg (by decide), if_neg (by decide),
    if_neg (by decide), if_neg (by decide), if_pos rfl, h₁, h₂]
  rfl

theorem ofRaw_handleAccess {evt : ProcessHandleAccessEvent}
    (hsource : evt.sourceProcessId < UInt64.size) (htarget : evt.targetProcessId < UInt64.size)
    (hdesired : evt.desiredAccess < UInt64.size)
    (horiginal : evt.originalDesiredAccess < UInt64.size) (hop : evt.operation < UInt64.size) :
    KernelFact.ofRaw "process_handle_access" evt.payload
      = some (.handleAccess evt.sourceProcessId evt.targetProcessId evt.desiredAccess
        evt.originalDesiredAccess evt.operation) := by
  have hget (name : String) : evt.payload.get name = _ := Json.get_ofMembers _ name
  have h₁ : natAt evt.payload "source_pid" = some evt.sourceProcessId :=
    natAt_num (by simp [hget, Json.get_object_cons]) hsource
  have h₂ : natAt evt.payload "target_pid" = some evt.targetProcessId :=
    natAt_num (by simp [hget, Json.get_object_cons]) htarget
  have h₃ : natAt evt.payload "desired_access" = some evt.desiredAccess :=
    natAt_num (by simp [hget, Json.get_object_cons]) hdesired
  have h₄ : natAt evt.payload "original_desired_access" = some evt.originalDesiredAccess :=
    natAt_num (by simp [hget, Json.get_object_cons]) horiginal
  have h₅ : natAt evt.payload "op_code" = some evt.operation :=
    natAt_num (by simp [hget, Json.get_object_cons]) hop
  rw [KernelFact.ofRaw, if_neg (by decide), if_neg (by decide), if_neg (by decide),
    if_neg (by decide), if_neg (by decide), if_neg (by decide), if_pos rfl, h₁, h₂, h₃, h₄, h₅]
  rfl

/-- The reader of `raw` finds the event. -/
theorem ofRaw_payload (env : KernelEnv) (e : KernelEvent) :
    KernelFact.ofRaw e.eventType (e.payload env) = some e.fact := by
  have h₁₆ (x : UInt16) : x.toNat < UInt64.size := x.toNat_lt.trans (by decide)
  have h₃₂ (x : UInt32) : x.toNat < UInt64.size := x.toNat_lt.trans (by decide)
  cases e with
  | processCreate =>
    refine (ofRaw_processCreate env (h₃₂ _) (h₃₂ _) (h₃₂ _) (h₃₂ _)).trans ?_
    simp only [WideText.decodePath_eq]
    rfl
  | processExit processId exitCode =>
    refine ofRaw_processExit (h₃₂ _) ?_ ?_
    · exact le_trans (by decide) exitCode.le_toInt
    · exact lt_trans exitCode.toInt_lt (by decide)
  | imageLoad =>
    refine (ofRaw_imageLoad (h₃₂ _) (UInt64.toNat_lt _) (UInt64.toNat_lt _)).trans ?_
    simp only [WideText.decodePath_eq]
    rfl
  | registry processId operation valueType dataSize keyPath valueName dataPreview =>
    refine (ofRaw_registry (h₃₂ _) (h₁₆ _) (h₃₂ _) (h₃₂ _)).trans ?_
    have hshown : (dataPreview.shown ++ dataPreview.rest).take
        (min dataPreview.shown.length registryDataPreviewMax) = dataPreview.shown := by
      have hfits := dataPreview.fits
      rw [min_eq_left (by omega), List.take_left]
    have hop : operation.toNat = 1 ↔ operation = 1 := UInt16.toNat_inj (b := 1)
    simp only [WideText.decodePath_eq, RegistryEvent.shown, hshown, hop]
    rfl
  | threadCreate => exact ofRaw_threadCreate (h₃₂ _) (h₃₂ _) (h₃₂ _)
  | threadExit => exact ofRaw_threadExit (h₃₂ _) (h₃₂ _)
  | handleAccess => exact ofRaw_handleAccess (h₃₂ _) (h₃₂ _) (h₃₂ _) (h₃₂ _) (h₁₆ _)

end Ipc

end WazabiAgent
