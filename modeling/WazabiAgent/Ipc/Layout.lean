import WazabiAgent.Ipc.Json

/-!
# The packed structs of the driver

The sizes of the structs of `ipc/events.rs` are not computed from their declarations: the size of a
packed struct is the number of bytes that reading its fields takes. The source asserts three of
them.
-/

namespace WazabiAgent

namespace Ipc

open Binary Binary.Reader

theorem width_header : Width 24 EventHeader.read :=
  .of_eq (
    width_u16.bind fun _ => width_u16.bind fun _ => width_i64.bind fun _ => width_u32.bind fun _ =>
    width_u32.bind fun _ => width_u32.bind fun _ => width_pure _) rfl

/-- The layout of the header. -/
def EventHeader.packed : Packed EventHeader where
  size := 24
  read := EventHeader.read
  width := width_header

/-- The layout of a process creation. -/
def ProcessCreateEvent.packed : Packed ProcessCreateEvent where
  size := 10672
  read := ProcessCreateEvent.read
  width := .of_eq (
    width_header.bind fun _ => width_u32.bind fun _ => width_u32.bind fun _ =>
    width_u32.bind fun _ =>
    (width_u16s imagePathMax).bind fun _ => width_u16.bind fun _ =>
    (width_u16s commandLineMax).bind fun _ => width_u16.bind fun _ =>
    (width_u16s imagePathMax).bind fun _ => width_u16.bind fun _ =>
    (width_u16s userSidMax).bind fun _ => width_u16.bind fun _ => width_u32.bind fun _ =>
    width_pure _) rfl

/-- The layout of the end of a process. -/
def ProcessExitEvent.packed : Packed ProcessExitEvent where
  size := 32
  read := ProcessExitEvent.read
  width := .of_eq (
    width_header.bind fun _ => width_u32.bind fun _ => width_i32.bind fun _ => width_pure _) rfl

/-- The layout of an image load. -/
def ImageLoadEvent.packed : Packed ImageLoadEvent where
  size := 1070
  read := ImageLoadEvent.read
  width := .of_eq (
    width_header.bind fun _ => width_u32.bind fun _ => width_u64.bind fun _ =>
    width_u64.bind fun _ => (width_u16s imagePathMax).bind fun _ => width_u16.bind fun _ =>
    width_pure _) rfl

/-- The layout of a registry operation. -/
def RegistryEvent.packed : Packed RegistryEvent where
  size := 1580
  read := RegistryEvent.read
  width := .of_eq (
    width_header.bind fun _ => width_u32.bind fun _ => width_u16.bind fun _ =>
    width_u32.bind fun _ => width_u32.bind fun _ =>
    (width_u16s registryKeyPathMax).bind fun _ => width_u16.bind fun _ =>
    (width_u16s registryValueNameMax).bind fun _ => width_u16.bind fun _ =>
    (width_bytes registryDataPreviewMax).bind fun _ => width_u16.bind fun _ => width_pure _) rfl

/-- The layout of a thread creation. -/
def ThreadCreateEvent.packed : Packed ThreadCreateEvent where
  size := 36
  read := ThreadCreateEvent.read
  width := .of_eq (
    width_header.bind fun _ => width_u32.bind fun _ => width_u32.bind fun _ =>
    width_u32.bind fun _ => width_pure _) rfl

/-- The layout of the end of a thread. -/
def ThreadExitEvent.packed : Packed ThreadExitEvent where
  size := 32
  read := ThreadExitEvent.read
  width := .of_eq (
    width_header.bind fun _ => width_u32.bind fun _ => width_u32.bind fun _ => width_pure _) rfl

/-- The layout of a handle access. -/
def ProcessHandleAccessEvent.packed : Packed ProcessHandleAccessEvent where
  size := 42
  read := ProcessHandleAccessEvent.read
  width := .of_eq (
    width_header.bind fun _ => width_u32.bind fun _ => width_u32.bind fun _ =>
    width_u32.bind fun _ => width_u32.bind fun _ => width_u16.bind fun _ => width_pure _) rfl

/-! ### The payload of a struct -/

/-- The payload as a function of the fields. -/
def ProcessCreateEvent.payload (env : KernelEnv) (evt : ProcessCreateEvent) : Json :=
  let imagePath := decodePath imagePathMax evt.imagePath evt.imagePathLen
  let commandLine := decodePath commandLineMax evt.commandLine evt.commandLineLen
  let parentImagePath := decodePath imagePathMax evt.parentImagePath evt.parentImagePathLen
  let userSid := decodePath userSidMax evt.userSid evt.userSidLen
  let parentImageName := (basename parentImagePath).getD ""
  let obj := Json.ofMembers [
    ("pid", num evt.processId),
    ("parent_pid", num evt.parentProcessId),
    ("creating_pid", num evt.creatingProcessId),
    ("image_path", .string imagePath)]
  let obj := insertText "command_line" commandLine obj
  let obj := insertText "parent_image_path" parentImagePath obj
  let obj := insertText "parent_image_name" parentImageName obj
  let obj := insertUser env userSid obj
  let obj := insertIntegrity evt.integrityLevel obj
  let obj := insertSome "session_id" ((env.sessionIdForPid evt.processId).map num) obj
  let obj := insertSome "elevated" ((env.isElevatedForPid evt.processId).map .bool) obj
  .object obj

/-- The payload as a function of the fields. -/
def ProcessExitEvent.payload (evt : ProcessExitEvent) : Json :=
  .object (Json.ofMembers [
    ("pid", num evt.processId),
    ("exit_code", .number (toString evt.exitCode)),
    ("clean_exit", .bool (evt.exitCode = 0))])

/-- The payload as a function of the fields. -/
def ImageLoadEvent.payload (evt : ImageLoadEvent) : Json :=
  .object (Json.ofMembers [
    ("pid", num evt.processId),
    ("scope", .string (if evt.processId = 0 then "kernel" else "user")),
    ("image_base", num evt.imageBase),
    ("image_size", num evt.imageSize),
    ("image_path", .string (decodePath imagePathMax evt.imagePath evt.imagePathLen))])

/-- The payload as a function of the fields. -/
def RegistryEvent.payload (evt : RegistryEvent) : Json :=
  let keyPath := decodePath registryKeyPathMax evt.keyPath evt.keyPathLen
  let valueName :=
    if evt.valueNameLen = 0 then ""
    else decodePath registryValueNameMax evt.valueName evt.valueNameLen
  let obj := Json.ofMembers [
    ("pid", num evt.processId),
    ("op", .string (registryOpName evt.operation)),
    ("op_code", num evt.operation),
    ("key_path", .string keyPath)]
  let obj := insertText "value_name" valueName obj
  if evt.operation = 1 then
    let take := min evt.dataPreviewLen registryDataPreviewMax
    let obj := Json.insert "value_type" (num evt.valueType) obj
    let obj := Json.insert "data_size" (num evt.dataSize) obj
    let obj := Json.insert "data_preview_hex" (.string (hexOf (evt.dataPreview.take take))) obj
    let obj := Json.insert "data_truncated" (.bool (evt.dataSize > evt.dataPreviewLen)) obj
    .object obj
  else .object obj

/-- The payload as a function of the fields. -/
def ThreadCreateEvent.payload (evt : ThreadCreateEvent) : Json :=
  .object (Json.ofMembers [
    ("pid", num evt.processId),
    ("tid", num evt.threadId),
    ("creating_pid", num evt.creatingProcessId),
    ("remote_injection",
      .bool (evt.creatingProcessId ≠ evt.processId ∧ evt.creatingProcessId ≠ 0))])

/-- The payload as a function of the fields. -/
def ThreadExitEvent.payload (evt : ThreadExitEvent) : Json :=
  .object (Json.ofMembers [("pid", num evt.processId), ("tid", num evt.threadId)])

/-- The payload as a function of the fields. -/
def ProcessHandleAccessEvent.payload (evt : ProcessHandleAccessEvent) : Json :=
  let opName :=
    if evt.operation = 1 then "Open" else if evt.operation = 2 then "Duplicate" else "Unknown"
  .object (Json.ofMembers [
    ("pid", num evt.sourceProcessId),
    ("source_pid", num evt.sourceProcessId),
    ("target_pid", num evt.targetProcessId),
    ("desired_access", num evt.desiredAccess),
    ("original_desired_access", num evt.originalDesiredAccess),
    ("op", .string opName),
    ("op_code", num evt.operation)])

/-! ### The encoders -/

/-- `read_packed::<T>`. -/
def readStruct {α : Type} (T : Packed α) (buf : List UInt8) (size : ℕ) (name : String) :
    Except String α :=
  readPacked T.size T.read buf size name

variable (env : KernelEnv) (buf : List UInt8) (size : ℕ)

theorem encodeProcessCreate_eq :
    encodeProcessCreate env buf size
      = (readStruct ProcessCreateEvent.packed buf size "ProcessCreate").map
        (ProcessCreateEvent.payload env) := by
  change _ = (readPacked 10672 ProcessCreateEvent.read buf size "ProcessCreate").map _
  rw [encodeProcessCreate]
  cases readPacked 10672 ProcessCreateEvent.read buf size "ProcessCreate" <;> rfl

theorem encodeProcessExit_eq :
    encodeProcessExit buf size
      = (readStruct ProcessExitEvent.packed buf size "ProcessExit").map
        ProcessExitEvent.payload := by
  change _ = (readPacked 32 ProcessExitEvent.read buf size "ProcessExit").map _
  rw [encodeProcessExit]
  cases readPacked 32 ProcessExitEvent.read buf size "ProcessExit" <;> rfl

theorem encodeImageLoad_eq :
    encodeImageLoad buf size
      = (readStruct ImageLoadEvent.packed buf size "ImageLoad").map ImageLoadEvent.payload := by
  change _ = (readPacked 1070 ImageLoadEvent.read buf size "ImageLoad").map _
  rw [encodeImageLoad]
  cases readPacked 1070 ImageLoadEvent.read buf size "ImageLoad" <;> rfl

theorem encodeRegistry_eq :
    encodeRegistry buf size
      = (readStruct RegistryEvent.packed buf size "RegistryModify").map RegistryEvent.payload := by
  change _ = (readPacked 1580 RegistryEvent.read buf size "RegistryModify").map _
  rw [encodeRegistry]
  cases readPacked 1580 RegistryEvent.read buf size "RegistryModify" with
  | error e => rfl
  | ok evt => exact (apply_ite Except.ok (evt.operation = 1) _ _).symm

theorem encodeThreadCreate_eq :
    encodeThreadCreate buf size
      = (readStruct ThreadCreateEvent.packed buf size "ThreadCreate").map
        ThreadCreateEvent.payload := by
  change _ = (readPacked 36 ThreadCreateEvent.read buf size "ThreadCreate").map _
  rw [encodeThreadCreate]
  cases readPacked 36 ThreadCreateEvent.read buf size "ThreadCreate" <;> rfl

theorem encodeThreadExit_eq :
    encodeThreadExit buf size
      = (readStruct ThreadExitEvent.packed buf size "ThreadExit").map ThreadExitEvent.payload := by
  change _ = (readPacked 32 ThreadExitEvent.read buf size "ThreadExit").map _
  rw [encodeThreadExit]
  cases readPacked 32 ThreadExitEvent.read buf size "ThreadExit" <;> rfl

theorem encodeHandleAccess_eq :
    encodeHandleAccess buf size
      = (readStruct ProcessHandleAccessEvent.packed buf size "ProcessHandleAccess").map
        ProcessHandleAccessEvent.payload := by
  change _ = (readPacked 42 ProcessHandleAccessEvent.read buf size "ProcessHandleAccess").map _
  rw [encodeHandleAccess]
  cases readPacked 42 ProcessHandleAccessEvent.read buf size "ProcessHandleAccess" <;> rfl

end Ipc

end WazabiAgent
