import WazabiAgent.Ipc.Layout

/-!
# Kernel events on the console

`parse_and_print` (`ipc/parser.rs`) is the older reader of the driver's records: it checks the
header like `decode_kernel_event` does and prints one line per event. The line is the result here.

Both decoders cast the buffer to a packed struct and read it whole, with nothing between them and
the memory beyond but their own checks. A computation that reads memory that way is a `Raw`: it
fails with a text, and it leaves behind which parts of the buffer it has read, also where it fails.

What `format_timestamp` makes of a `FILETIME` is a parameter.

## Main definitions

* `Access`, `Raw` — raw reads of a buffer
* `parseAndPrint` — the console decoder
-/

namespace WazabiAgent

namespace Ipc

open Binary

/-! ### Raw reads -/

/-- One read of memory: `size` bytes from `offset` on, counted from the start of the buffer. -/
structure Access where
  offset : ℕ
  size : ℕ
  deriving DecidableEq

/-- A parser that records the bytes it looks at. -/
abbrev Raw := ExceptT String (StateM (List Access))

/-- The result. -/
def Raw.result {α : Type} (m : Raw α) : Except String α := (m.run.run []).1

/-- What was read, in order. -/
def Raw.accesses {α : Type} (m : Raw α) : List Access := (m.run.run []).2

/-- `ptr::read_unaligned(buf.as_ptr() as *const T)`. -/
def readUnaligned {α : Type} (T : Packed α) (buf : List UInt8) : Raw α := do
  modify (· ++ [⟨0, T.size⟩])
  return (T.read.run buf).1

/-- `read_packed_event::<T>`. -/
def readPackedEvent {α : Type} (T : Packed α) (buf : List UInt8) (headerSize : ℕ)
    (name : String) : Raw α :=
  if headerSize < T.size then
    throw (name ++ " too small: size=" ++ toString headerSize ++ ", expected " ++ toString T.size)
  else readUnaligned T buf

/-! ### Texts -/

/-- `{:x}`. -/
def hexLower (n : ℕ) : String := String.ofList (Nat.toDigits 16 n)

/-- `{:0wx}`. -/
def hexPadded (w n : ℕ) : String :=
  let digits := Nat.toDigits 16 n
  String.ofList (List.replicate (w - digits.length) '0' ++ digits)

/-- `decode_packed_path::<N>`. -/
def decodePackedPath (n : ℕ) (arr : List ℕ) (len : ℕ) : String :=
  if len = 0 ∨ len > n then "<unknown>" else String.ofList (utf16Lossy (arr.take len))

/-- `integrity_label`. -/
def integrityLabel (rid : ℕ) : String :=
  if rid = 0x0000 then "untrusted"
  else if rid = 0x1000 then "low"
  else if rid = 0x2000 then "medium"
  else if rid = 0x2100 then "medium+"
  else if rid = 0x3000 then "high"
  else if rid = 0x4000 then "system"
  else if rid = 0x5000 then "protected"
  else if rid = 0xFFFFFFFF then "?"
  else "?(0x" ++ hexLower rid ++ ")"

/-- `registry_op_label`. -/
def registryOpLabel (op : ℕ) : String :=
  if op = 1 then "SetValue   "
  else if op = 2 then "DeleteValue"
  else if op = 3 then "DeleteKey  "
  else if op = 4 then "RenameKey  "
  else if op = 5 then "CreateKey  "
  else "Op?        "

/-- `chunks_exact(2)`, read as 16-bit units. -/
def unitsOf : List UInt8 → List ℕ
  | a :: b :: rest => fromLeBytes [a, b] :: unitsOf rest
  | _ => []

/-- `render_data_preview`. -/
def renderDataPreview (valueType : ℕ) (preview : List UInt8) : String :=
  if valueType = 1 ∨ valueType = 2 ∨ valueType = 7 then
    if preview.length < 2 then "\"\""
    else
      let trimmed := ((unitsOf preview).reverse.dropWhile fun u => u = 0).reverse
      let s := (utf16Lossy trimmed).map fun c => if c = '\x00' then '|' else c
      "\"" ++ String.ofList s ++ "\""
  else if valueType = 4 ∧ preview.length ≥ 4 then
    let v := fromLeBytes (preview.take 4)
    "0x" ++ hexPadded 8 v ++ " (" ++ toString v ++ ")"
  else if valueType = 11 ∧ preview.length ≥ 8 then
    let v := fromLeBytes (preview.take 8)
    "0x" ++ hexPadded 16 v ++ " (" ++ toString v ++ ")"
  else
    let hexLimit := 32
    let out := " ".intercalate ((preview.take (min preview.length hexLimit)).map fun b =>
      hexPadded 2 b.toNat)
    if preview.length > hexLimit then out ++ " …" else out

/-- The names of the access bits. -/
def knownAccess : List (ℕ × String) :=
  [(0x0001, "TERMINATE"), (0x0002, "CREATE_THREAD"), (0x0008, "VM_OPERATION"), (0x0010, "VM_READ"),
    (0x0020, "VM_WRITE"), (0x0040, "DUP_HANDLE"), (0x0080, "CREATE_PROCESS"),
    (0x0400, "QUERY_INFORMATION"), (0x0800, "SUSPEND_RESUME"),
    (0x1000, "QUERY_LIMITED_INFORMATION"), (0x00100000, "SYNCHRONIZE")]

/-- `decode_process_access`. -/
def decodeProcessAccess (mask : ℕ) : String :=
  let set := knownAccess.filter fun k => mask &&& k.1 ≠ 0
  let parts := set.map Prod.snd
  let leftover := set.foldl (fun leftover k => leftover &&& (0xFFFFFFFF - k.1)) mask
  if leftover ≠ 0 then "|".intercalate (parts ++ ["0x" ++ hexLower leftover])
  else if parts = [] then "0"
  else "|".intercalate parts

/-! ### Lines -/

/-- What every line has. -/
structure EventCtx where
  /-- The time, formatted. -/
  timestamp : String
  dropMarker : String
  truncMarker : String

/-- The line, from its middle. -/
def EventCtx.line (ctx : EventCtx) (text : String) : String :=
  "[" ++ ctx.timestamp ++ "] " ++ text ++ ctx.dropMarker ++ ctx.truncMarker

/-- A text between quotes. -/
def quoted (s : String) : String := "\"" ++ s ++ "\""

/-- The line of a process creation. -/
def printProcessCreate (buf : List UInt8) (size : ℕ) (ctx : EventCtx) : Raw String := do
  let evt ← readPackedEvent ProcessCreateEvent.packed buf size "ProcessCreate"
  let imagePath := decodePackedPath imagePathMax evt.imagePath evt.imagePathLen
  let commandLine := decodePackedPath commandLineMax evt.commandLine evt.commandLineLen
  let parentPath := decodePackedPath imagePathMax evt.parentImagePath evt.parentImagePathLen
  let userSid := decodePackedPath userSidMax evt.userSid evt.userSidLen
  return ctx.line ("ProcessCreate pid=" ++ toString evt.processId
    ++ " ppid=" ++ toString evt.parentProcessId ++ " creator=" ++ toString evt.creatingProcessId
    ++ " user=" ++ quoted userSid ++ " il=" ++ integrityLabel evt.integrityLevel
    ++ " parent=" ++ quoted parentPath ++ " path=" ++ quoted imagePath
    ++ " cmd=" ++ quoted commandLine)

/-- The line of the end of a process. -/
def printProcessExit (buf : List UInt8) (size : ℕ) (ctx : EventCtx) : Raw String := do
  let evt ← readPackedEvent ProcessExitEvent.packed buf size "ProcessExit"
  return ctx.line ("ProcessExit  pid=" ++ toString evt.processId
    ++ " exit=0x" ++ hexLower (ofSigned UInt32.size evt.exitCode)
    ++ " (" ++ toString evt.exitCode ++ ")")

/-- The line of an image load. -/
def printImageLoad (buf : List UInt8) (size : ℕ) (ctx : EventCtx) : Raw String := do
  let evt ← readPackedEvent ImageLoadEvent.packed buf size "ImageLoad"
  let imagePath := decodePackedPath imagePathMax evt.imagePath evt.imagePathLen
  let scope := if evt.processId = 0 then "kernel" else "user"
  return ctx.line ("ImageLoad    pid=" ++ toString evt.processId ++ " (" ++ scope
    ++ ") base=0x" ++ hexLower evt.imageBase ++ " size=0x" ++ hexLower evt.imageSize
    ++ " path=" ++ quoted imagePath)

/-- The line of a registry operation. -/
def printRegistryModify (buf : List UInt8) (size : ℕ) (ctx : EventCtx) : Raw String := do
  let evt ← readPackedEvent RegistryEvent.packed buf size "RegistryModify"
  let keyPath := decodePackedPath registryKeyPathMax evt.keyPath evt.keyPathLen
  let valueName :=
    if evt.valueNameLen = 0 then "(default)"
    else decodePackedPath registryValueNameMax evt.valueName evt.valueNameLen
  let text := "Registry " ++ registryOpLabel evt.operation ++ " pid=" ++ toString evt.processId
    ++ " key=" ++ quoted keyPath
  if evt.operation = 1 then
    let preview := evt.dataPreview.take (min evt.dataPreviewLen registryDataPreviewMax)
    let truncated :=
      if evt.dataSize > evt.dataPreviewLen then
        " (truncated, real size=" ++ toString evt.dataSize ++ " bytes)"
      else ""
    return ctx.line (text ++ " value=" ++ quoted valueName ++ " type=" ++ toString evt.valueType
      ++ " data=" ++ renderDataPreview evt.valueType preview ++ truncated)
  else if evt.operation = 2 then return ctx.line (text ++ " value=" ++ quoted valueName)
  else return ctx.line text

/-- The line of a thread creation. -/
def printThreadCreate (buf : List UInt8) (size : ℕ) (ctx : EventCtx) : Raw String := do
  let evt ← readPackedEvent ThreadCreateEvent.packed buf size "ThreadCreate"
  let creator := evt.creatingProcessId
  let injectionMarker :=
    if creator ≠ evt.processId ∧ creator ≠ 0 then
      " [REMOTE INJECTION from pid=" ++ toString creator ++ "]"
    else ""
  return ctx.line ("ThreadCreate pid=" ++ toString evt.processId ++ " tid=" ++ toString evt.threadId
    ++ " creator=" ++ toString creator ++ injectionMarker)

/-- The line of the end of a thread. -/
def printThreadExit (buf : List UInt8) (size : ℕ) (ctx : EventCtx) : Raw String := do
  let evt ← readPackedEvent ThreadExitEvent.packed buf size "ThreadExit"
  return ctx.line ("ThreadExit   pid=" ++ toString evt.processId
    ++ " tid=" ++ toString evt.threadId)

/-- The line of a handle access. -/
def printProcessHandleAccess (buf : List UInt8) (size : ℕ) (ctx : EventCtx) : Raw String := do
  let evt ← readPackedEvent ProcessHandleAccessEvent.packed buf size "ProcessHandleAccess"
  let label := if evt.operation = 1 then "Open " else if evt.operation = 2 then "Dup  " else "Op?  "
  -- the rights that were granted are shown where they are not the ones asked for
  let stripped :=
    if evt.desiredAccess ≠ evt.originalDesiredAccess then
      " granted=" ++ decodeProcessAccess evt.desiredAccess
    else ""
  return ctx.line ("ProcAccess  " ++ label ++ " src_pid=" ++ toString evt.sourceProcessId
    ++ " target_pid=" ++ toString evt.targetProcessId
    ++ " access=" ++ decodeProcessAccess evt.originalDesiredAccess ++ stripped)

/-- The `match` of `parse_and_print`. -/
def printEvent (buf : List UInt8) (h : EventHeader) (ctx : EventCtx) : Raw String :=
  match h.type with
  | 1 => printProcessCreate buf h.size ctx
  | 2 => printProcessExit buf h.size ctx
  | 3 => printImageLoad buf h.size ctx
  | 4 => printRegistryModify buf h.size ctx
  | 5 => printThreadCreate buf h.size ctx
  | 6 => printThreadExit buf h.size ctx
  | 7 => printProcessHandleAccess buf h.size ctx
  | other => return ctx.line ("event type=" ++ toString other ++ " size=" ++ toString h.size)

/-- What is printed around the text of an event. -/
def eventCtx (formatTimestamp : Int → String) (h : EventHeader) : EventCtx where
  timestamp := formatTimestamp h.timestamp
  dropMarker :=
    if h.dropCount > 0 then " (DROPPED " ++ toString h.dropCount ++ " events since last)" else ""
  truncMarker :=
    if h.truncCount > 0 then " (TRUNCATED " ++ toString h.truncCount ++ " fields since last)"
    else ""

/-- `parse_and_print`, the line it prints. -/
def parseAndPrint (formatTimestamp : Int → String) (buf : List UInt8) : Raw String :=
  if buf.length < headerSize then
    throw ("event too short: " ++ toString buf.length ++ " bytes, expected ≥ "
      ++ toString headerSize)
  else do
    let h ← readUnaligned EventHeader.packed buf
    if h.version ≠ eventVersion then throw ("unknown event version " ++ toString h.version)
    else if h.size > buf.length then
      throw ("header.size=" ++ toString h.size ++ " exceeds delivered " ++ toString buf.length)
    else printEvent buf h (eventCtx formatTimestamp h)

end Ipc

end WazabiAgent
