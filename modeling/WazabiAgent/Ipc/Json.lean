import WazabiAgent.Detection.Events
import WazabiAgent.Lib.Binary
import WazabiAgent.Lib.JsonText

/-!
# Kernel events as JSON

The driver hands the agent packed records. `decode_kernel_event` (`ipc/json.rs`) checks the header
and turns the record into a JSON payload, from which the spool line and the detection event are
made.

What the code asks Windows about an event (the account of a SID, the session and the elevation of
a process, the calendar time of a `FILETIME`) is the parameter `KernelEnv` of each event.

## Main definitions

* `Ipc.decodeKernelEvent` — header checks and dispatch on the event type
* `Ipc.encodeKernelEvent`, `encodeKernelEventAndLog` — what the pump calls
-/

namespace WazabiAgent

namespace Ipc

open Binary Binary.Reader Detection

/-! ### Records -/

/-- The version of the header that the driver writes. -/
def eventVersion : ℕ := 6

/-- The characters that an event has for the path of an image. -/
def imagePathMax : ℕ := 512

/-- The characters that an event has for a command line. -/
def commandLineMax : ℕ := 4096

/-- The characters that an event has for a user's SID. -/
def userSidMax : ℕ := 192

/-- The characters that an event has for the path of a registry key. -/
def registryKeyPathMax : ℕ := 512

/-- The characters that an event has for the name of a registry value. -/
def registryValueNameMax : ℕ := 128

/-- The bytes that an event has for the preview of a value's data. -/
def registryDataPreviewMax : ℕ := 256

/-- What every event begins with. -/
structure EventHeader where
  version : ℕ
  type : ℕ
  timestamp : Int
  size : ℕ
  dropCount : ℕ
  truncCount : ℕ

/-- Reads the header, field after field. -/
def EventHeader.read : Reader EventHeader := do
  let version ← u16
  let type ← u16
  let timestamp ← i64
  let size ← u32
  let dropCount ← u32
  let truncCount ← u32
  return ⟨version, type, timestamp, size, dropCount, truncCount⟩

/-- The creation of a process; a text is an array of UTF-16 units and a length. -/
structure ProcessCreateEvent where
  processId : ℕ
  parentProcessId : ℕ
  creatingProcessId : ℕ
  imagePath : List ℕ
  imagePathLen : ℕ
  commandLine : List ℕ
  commandLineLen : ℕ
  parentImagePath : List ℕ
  parentImagePathLen : ℕ
  userSid : List ℕ
  userSidLen : ℕ
  integrityLevel : ℕ

/-- Reads the event, field after field. -/
def ProcessCreateEvent.read : Reader ProcessCreateEvent := do
  let _ ← EventHeader.read
  let processId ← u32
  let parentProcessId ← u32
  let creatingProcessId ← u32
  let imagePath ← u16s imagePathMax
  let imagePathLen ← u16
  let commandLine ← u16s commandLineMax
  let commandLineLen ← u16
  let parentImagePath ← u16s imagePathMax
  let parentImagePathLen ← u16
  let userSid ← u16s userSidMax
  let userSidLen ← u16
  let integrityLevel ← u32
  return ⟨processId, parentProcessId, creatingProcessId, imagePath, imagePathLen, commandLine,
    commandLineLen, parentImagePath, parentImagePathLen, userSid, userSidLen, integrityLevel⟩

/-- The end of a process. -/
structure ProcessExitEvent where
  processId : ℕ
  exitCode : Int

/-- Reads the event, field after field. -/
def ProcessExitEvent.read : Reader ProcessExitEvent := do
  let _ ← EventHeader.read
  let processId ← u32
  let exitCode ← i32
  return ⟨processId, exitCode⟩

/-- An image mapped into a process, or into the kernel (process 0). -/
structure ImageLoadEvent where
  processId : ℕ
  imageBase : ℕ
  imageSize : ℕ
  imagePath : List ℕ
  imagePathLen : ℕ

/-- Reads the event, field after field. -/
def ImageLoadEvent.read : Reader ImageLoadEvent := do
  let _ ← EventHeader.read
  let processId ← u32
  let imageBase ← u64
  let imageSize ← u64
  let imagePath ← u16s imagePathMax
  let imagePathLen ← u16
  return ⟨processId, imageBase, imageSize, imagePath, imagePathLen⟩

/-- An operation on a registry value, with a preview of its data. -/
structure RegistryEvent where
  processId : ℕ
  operation : ℕ
  valueType : ℕ
  dataSize : ℕ
  keyPath : List ℕ
  keyPathLen : ℕ
  valueName : List ℕ
  valueNameLen : ℕ
  dataPreview : List UInt8
  dataPreviewLen : ℕ

/-- Reads the event, field after field. -/
def RegistryEvent.read : Reader RegistryEvent := do
  let _ ← EventHeader.read
  let processId ← u32
  let operation ← u16
  let valueType ← u32
  let dataSize ← u32
  let keyPath ← u16s registryKeyPathMax
  let keyPathLen ← u16
  let valueName ← u16s registryValueNameMax
  let valueNameLen ← u16
  let dataPreview ← bytes registryDataPreviewMax
  let dataPreviewLen ← u16
  return ⟨processId, operation, valueType, dataSize, keyPath, keyPathLen, valueName, valueNameLen,
    dataPreview, dataPreviewLen⟩

/-- The creation of a thread, and the process that asked for it. -/
structure ThreadCreateEvent where
  processId : ℕ
  threadId : ℕ
  creatingProcessId : ℕ

/-- Reads the event, field after field. -/
def ThreadCreateEvent.read : Reader ThreadCreateEvent := do
  let _ ← EventHeader.read
  let processId ← u32
  let threadId ← u32
  let creatingProcessId ← u32
  return ⟨processId, threadId, creatingProcessId⟩

/-- The end of a thread. -/
structure ThreadExitEvent where
  processId : ℕ
  threadId : ℕ

/-- Reads the event, field after field. -/
def ThreadExitEvent.read : Reader ThreadExitEvent := do
  let _ ← EventHeader.read
  let processId ← u32
  let threadId ← u32
  return ⟨processId, threadId⟩

/-- A handle to a process, opened or duplicated, with the access asked for and the access granted.
-/
structure ProcessHandleAccessEvent where
  sourceProcessId : ℕ
  targetProcessId : ℕ
  desiredAccess : ℕ
  originalDesiredAccess : ℕ
  operation : ℕ

/-- Reads the event, field after field. -/
def ProcessHandleAccessEvent.read : Reader ProcessHandleAccessEvent := do
  let _ ← EventHeader.read
  let sourceProcessId ← u32
  let targetProcessId ← u32
  let desiredAccess ← u32
  let originalDesiredAccess ← u32
  let operation ← u16
  return ⟨sourceProcessId, targetProcessId, desiredAccess, originalDesiredAccess, operation⟩

/-! ### Payloads -/

/-- The answers of Windows about one event. -/
structure KernelEnv where
  formatTimestamp : Int → String
  resolveUser : String → Option (String × String)
  sessionIdForPid : ℕ → Option ℕ
  isElevatedForPid : ℕ → Option Bool

/-- `read_packed::<T>`, for a `T` of the given size. -/
def readPacked {α : Type} (sizeOf : ℕ) (read : Reader α) (buf : List UInt8) (headerSize : ℕ)
    (name : String) : Except String α :=
  if headerSize < sizeOf then
    .error (name ++ " too small: size=" ++ toString headerSize ++ ", expected " ++ toString sizeOf)
  else .ok (read.run buf).1

/-- `decode_path::<N>`. -/
def decodePath (n : ℕ) (arr : List ℕ) (len : ℕ) : String :=
  if len = 0 ∨ len > n then "" else String.ofList (utf16Lossy (arr.take len))

/-- `basename`: what follows the last separator, if anything does. -/
def basename (path : String) : Option String :=
  if path.toList.any fun c => c = '\\' ∨ c = '/' then
    let name := (path.toList.reverse.takeWhile fun c => c ≠ '\\' ∧ c ≠ '/').reverse
    if name = [] then none else some (String.ofList name)
  else none

/-- A number as a JSON value. -/
def num (n : ℕ) : Json := .number (toString n)

/-- Put a text there, unless it is empty. -/
def insertText (key text : String) (obj : List (String × Json)) : List (String × Json) :=
  if text = "" then obj else Json.insert key (.string text) obj

/-- A member that is written only when there is a value. -/
def insertSome (key : String) (value : Option Json) (obj : List (String × Json)) :
    List (String × Json) :=
  match value with
  | none => obj
  | some v => Json.insert key v obj

/-- `integrity_label_str`. -/
def integrityLabelStr (rid : ℕ) : String :=
  if rid = 0 then "untrusted"
  else if rid = 0x1000 then "low"
  else if rid = 0x2000 then "medium"
  else if rid = 0x2100 then "medium_plus"
  else if rid = 0x3000 then "high"
  else if rid = 0x4000 then "system"
  else if rid = 0x5000 then "protected"
  else "unknown"

/-- The members that resolving the account of a SID adds. -/
def insertUser (env : KernelEnv) (userSid : String) (obj : List (String × Json)) :
    List (String × Json) :=
  if userSid = "" then obj
  else
    let obj := Json.insert "user_sid" (.string userSid) obj
    match env.resolveUser userSid with
    | none => obj
    | some (account, domain) =>
      let full := if domain = "" then account else domain ++ "\\" ++ account
      Json.insert "user_full" (.string full)
        (Json.insert "user_domain" (.string domain) (Json.insert "user" (.string account) obj))

/-- The integrity level and its label; `0xFFFFFFFF` stands for a level that is not known. -/
def insertIntegrity (il : ℕ) (obj : List (String × Json)) : List (String × Json) :=
  if il = 0xFFFFFFFF then obj
  else
    Json.insert "integrity_label" (.string (integrityLabelStr il))
      (Json.insert "integrity_level" (num il) obj)

/-- The payload of a process creation. -/
def encodeProcessCreate (env : KernelEnv) (buf : List UInt8) (size : ℕ) : Except String Json := do
  let evt ← readPacked 10672 ProcessCreateEvent.read buf size "ProcessCreate"
  let imagePath := decodePath imagePathMax evt.imagePath evt.imagePathLen
  let commandLine := decodePath commandLineMax evt.commandLine evt.commandLineLen
  let parentImagePath := decodePath imagePathMax evt.parentImagePath evt.parentImagePathLen
  let userSid := decodePath userSidMax evt.userSid evt.userSidLen
  let parentImageName := (basename parentImagePath).getD ""
  let obj := Json.ofMembers [
    ("pid", num evt.processId),
    ("parent_pid", num evt.parentProcessId),
    ("creating_pid", num evt.creatingProcessId),
    ("image_path", .string imagePath)]
  let obj := insertText "command_line" commandLine obj
  let obj := insertText "parent_image_path" parentImagePath obj
  let obj := insertText "parent_image_name" parentImageName obj
  let obj := insertUser env userSid obj
  let obj := insertIntegrity evt.integrityLevel obj
  let obj := insertSome "session_id" ((env.sessionIdForPid evt.processId).map num) obj
  let obj := insertSome "elevated" ((env.isElevatedForPid evt.processId).map .bool) obj
  return .object obj

/-- The payload of the end of a process. -/
def encodeProcessExit (buf : List UInt8) (size : ℕ) : Except String Json := do
  let evt ← readPacked 32 ProcessExitEvent.read buf size "ProcessExit"
  return .object (Json.ofMembers [
    ("pid", num evt.processId),
    ("exit_code", .number (toString evt.exitCode)),
    ("clean_exit", .bool (evt.exitCode = 0))])

/-- The payload of an image load. -/
def encodeImageLoad (buf : List UInt8) (size : ℕ) : Except String Json := do
  let evt ← readPacked 1070 ImageLoadEvent.read buf size "ImageLoad"
  return .object (Json.ofMembers [
    ("pid", num evt.processId),
    ("scope", .string (if evt.processId = 0 then "kernel" else "user")),
    ("image_base", num evt.imageBase),
    ("image_size", num evt.imageSize),
    ("image_path", .string (decodePath imagePathMax evt.imagePath evt.imagePathLen))])

/-- `registry_op_name`. -/
def registryOpName (op : ℕ) : String :=
  if op = 1 then "SetValue"
  else if op = 2 then "DeleteValue"
  else if op = 3 then "DeleteKey"
  else if op = 4 then "RenameKey"
  else if op = 5 then "CreateKey"
  else "Unknown"

/-- `{:02x}` of each byte. -/
def hexOf (bytes : List UInt8) : String :=
  String.ofList
    (bytes.flatMap fun b => [Json.hexDigit (b.toNat / 16), Json.hexDigit (b.toNat % 16)])

/-- The payload of a registry operation. -/
def encodeRegistry (buf : List UInt8) (size : ℕ) : Except String Json := do
  let evt ← readPacked 1580 RegistryEvent.read buf size "RegistryModify"
  let keyPath := decodePath registryKeyPathMax evt.keyPath evt.keyPathLen
  let valueName :=
    if evt.valueNameLen = 0 then ""
    else decodePath registryValueNameMax evt.valueName evt.valueNameLen
  let obj := Json.ofMembers [
    ("pid", num evt.processId),
    ("op", .string (registryOpName evt.operation)),
    ("op_code", num evt.operation),
    ("key_path", .string keyPath)]
  let obj := insertText "value_name" valueName obj
  if evt.operation = 1 then
    let take := min evt.dataPreviewLen registryDataPreviewMax
    let obj := Json.insert "value_type" (num evt.valueType) obj
    let obj := Json.insert "data_size" (num evt.dataSize) obj
    let obj := Json.insert "data_preview_hex" (.string (hexOf (evt.dataPreview.take take))) obj
    let obj := Json.insert "data_truncated" (.bool (evt.dataSize > evt.dataPreviewLen)) obj
    return .object obj
  else return .object obj

/-- The payload of a thread creation. -/
def encodeThreadCreate (buf : List UInt8) (size : ℕ) : Except String Json := do
  let evt ← readPacked 36 ThreadCreateEvent.read buf size "ThreadCreate"
  return .object (Json.ofMembers [
    ("pid", num evt.processId),
    ("tid", num evt.threadId),
    ("creating_pid", num evt.creatingProcessId),
    ("remote_injection",
      .bool (evt.creatingProcessId ≠ evt.processId ∧ evt.creatingProcessId ≠ 0))])

/-- The payload of the end of a thread. -/
def encodeThreadExit (buf : List UInt8) (size : ℕ) : Except String Json := do
  let evt ← readPacked 32 ThreadExitEvent.read buf size "ThreadExit"
  return .object (Json.ofMembers [("pid", num evt.processId), ("tid", num evt.threadId)])

/-- The payload of a handle access; its `pid` is the process that asks. -/
def encodeHandleAccess (buf : List UInt8) (size : ℕ) : Except String Json := do
  let evt ← readPacked 42 ProcessHandleAccessEvent.read buf size "ProcessHandleAccess"
  let opName :=
    if evt.operation = 1 then "Open" else if evt.operation = 2 then "Duplicate" else "Unknown"
  return .object (Json.ofMembers [
    ("pid", num evt.sourceProcessId),
    ("source_pid", num evt.sourceProcessId),
    ("target_pid", num evt.targetProcessId),
    ("desired_access", num evt.desiredAccess),
    ("original_desired_access", num evt.originalDesiredAccess),
    ("op", .string opName),
    ("op_code", num evt.operation)])

/-! ### One event -/

/-- An event that the encoder took, before the envelope. -/
structure DecodedKernel where
  kind : String
  eventType : String
  payload : Json
  ts : String
  tsFt100ns : Int
  version : ℕ
  dropCount : ℕ
  truncCount : ℕ

/-- The payload of an event, with its names for the agent and for the server. -/
def encodePayload (env : KernelEnv) (buf : List UInt8) (h : EventHeader) :
    Except String (String × String × Json) :=
  let named (kind eventType : String) (payload : Except String Json) :=
    payload.map fun p => (kind, eventType, p)
  match h.type with
  | 1 => named "ProcessCreate" "process_create" (encodeProcessCreate env buf h.size)
  | 2 => named "ProcessExit" "process_terminate" (encodeProcessExit buf h.size)
  | 3 => named "ImageLoad" "module_load" (encodeImageLoad buf h.size)
  | 4 => named "RegistryModify" "registry_write" (encodeRegistry buf h.size)
  | 5 => named "ThreadCreate" "thread_create" (encodeThreadCreate buf h.size)
  | 6 => named "ThreadExit" "thread_exit" (encodeThreadExit buf h.size)
  | 7 => named "ProcessHandleAccess" "process_handle_access" (encodeHandleAccess buf h.size)
  | other =>
    .ok ("Unknown", "process_create",
      .object (Json.ofMembers [("type", num other), ("size", num h.size)]))

/-- `size_of::<EventHeader>()`. -/
def headerSize : ℕ := 24

/-- `decode_kernel_event`. -/
def decodeKernelEvent (env : KernelEnv) (buf : List UInt8) : Except String DecodedKernel :=
  if buf.length < headerSize then
    .error ("event too short: " ++ toString buf.length ++ " bytes, expected at least "
      ++ toString headerSize)
  else
    let h := (EventHeader.read.run buf).1
    if h.version ≠ eventVersion then .error ("unknown event version " ++ toString h.version)
    else if h.size > buf.length then
      .error ("header.size=" ++ toString h.size ++ " exceeds delivered " ++ toString buf.length)
    else
      (encodePayload env buf h).map fun (kind, eventType, payload) => {
        kind := kind
        eventType := eventType
        payload := payload
        ts := env.formatTimestamp h.timestamp
        tsFt100ns := h.timestamp
        version := h.version
        dropCount := h.dropCount
        truncCount := h.truncCount }

/-- A text of the payload, unless it is empty. -/
def textOf (payload : Json) (key : String) : Option String :=
  ((payload.get key).bind Json.asStr).filter fun s => s ≠ ""

/-- A number of the payload, cut to 32 bits. -/
def u32Of (payload : Json) (key : String) : Option ℕ :=
  ((payload.get key).bind Json.asU64).map fun n => n % UInt32.size

/-- `extract_process`: the `process` block, as the members that are not skipped. -/
def extractProcess (payload : Json) : Option Json := do
  let pid ← u32Of payload "pid"
  if pid = 0 then none
  else
    let path := textOf payload "image_path"
    let userSid := textOf payload "user_sid"
    some (.object (List.reduceOption [
      some ("pid", num pid),
      (u32Of payload "parent_pid").map fun n => ("ppid", num n),
      (path.bind basename).map fun s => ("name", .string s),
      path.map fun s => ("path", .string s),
      (textOf payload "command_line").map fun s => ("command_line", .string s),
      ((textOf payload "user_full").or userSid).map fun s => ("user", .string s),
      userSid.map fun s => ("user_sid", .string s),
      (textOf payload "user_domain").map fun s => ("user_domain", .string s),
      (textOf payload "integrity_label").map fun s => ("integrity_label", .string s),
      (u32Of payload "session_id").map fun n => ("session_id", num n),
      ((payload.get "elevated").bind Json.asBool).map fun b => ("elevated", .bool b)]))

/-- `Envelope`: the document of a line. -/
def envelope (d : DecodedKernel) : Json :=
  .object (List.reduceOption [
    some ("ts", .string d.ts),
    some ("module", .string "kernel_callback"),
    some ("event_type", .string d.eventType),
    (extractProcess d.payload).map fun p => ("process", p),
    some ("raw", d.payload),
    some ("ts_ft_100ns", .number (toString d.tsFt100ns)),
    some ("source", .string "kernel"),
    some ("kind", .string d.kind),
    some ("event_version", num d.version),
    if d.dropCount = 0 then none else some ("drop_count", num d.dropCount),
    if d.truncCount = 0 then none else some ("trunc_count", num d.truncCount)])

/-- `encode_decoded`, the envelope and a line feed. -/
def encodeDecoded (d : DecodedKernel) : String := (envelope d).compact ++ "\n"

/-- `decoded_to_log_event`. -/
def decodedToLogEvent (d : DecodedKernel) (now : ℕ) : LogEvent where
  module := "kernel_callback"
  eventType := d.eventType
  fields :=
    match d.payload with
    | .object obj => flattenFields obj
    | _ => []
  timestamp := now

/-- `encode_kernel_event`. -/
def encodeKernelEvent (filter : Option Filter) (env : KernelEnv) (buf : List UInt8) :
    Except String (Option String) := do
  let d ← decodeKernelEvent env buf
  if !allows filter "kernel_callback" d.eventType then return none
  return some (encodeDecoded d)

/-- `encode_kernel_event_and_log`. -/
def encodeKernelEventAndLog (env : KernelEnv) (buf : List UInt8) (now : ℕ) :
    Except String (String × LogEvent) := do
  let d ← decodeKernelEvent env buf
  return (encodeDecoded d, decodedToLogEvent d now)

end Ipc

end WazabiAgent
