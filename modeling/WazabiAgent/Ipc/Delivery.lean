import WazabiAgent.Ipc.Layout

/-!
# What the driver delivers

A `Delivery` is what the driver writes for one event: a struct of `ipc/events.rs` with its header,
its numbers of machine width, its texts in UTF-16 at the head of a field of fixed size, and anything
in the rest of the field.

## Main definitions

* `WideText`, `Preview` — fields of fixed size
* `KernelEvent`, `Delivery.bytes` — an event, and its packed layout

## Main results

* `decodeKernelEvent_bytes` — what the agent makes of a packed event
-/

namespace WazabiAgent

namespace Ipc

open Binary Binary.Reader

/-! ### Fields of fixed size -/

/-- A text in a field of `n` units. -/
structure WideText (n : ℕ) where
  text : String
  rest : List UInt16
  fits : (encodeUtf16 text.toList).length + rest.length = n

namespace WideText

variable {n : ℕ} (t : WideText n)

/-- The field, `[u16; n]`. -/
def units : List ℕ := encodeUtf16 t.text.toList ++ t.rest.map UInt16.toNat

/-- The field that has its length, `u16`. -/
def len : ℕ := (encodeUtf16 t.text.toList).length

/-- The units as the driver lays them out. -/
def bytes : List UInt8 := t.units.flatMap (toLeBytes 2)

theorem length_units : t.units.length = n := by
  rw [units, List.length_append, List.length_map]
  exact t.fits

theorem reads : Reads (u16s n) t.bytes t.units := by
  have hunits : ∀ u ∈ t.units, u < 2 ^ 16 := by
    intro u hu
    rcases List.mem_append.mp hu with hu | hu
    · exact lt_of_mem_encodeUtf16 hu
    · obtain ⟨x, -, rfl⟩ := List.mem_map.mp hu
      exact x.toNat_lt
  have hread := reads_u16s hunits
  rwa [t.length_units] at hread

theorem len_lt (hn : n < 2 ^ 16) : t.len < 2 ^ 16 := by
  have hfits := t.fits
  rw [len]
  omega

/-- `decode_path` finds the text. -/
theorem decodePath_eq : decodePath n t.units t.len = t.text := by
  have htake : t.units.take t.len = encodeUtf16 t.text.toList := List.take_left
  have hle : ¬ t.len > n := by
    have hfits := t.fits
    rw [len]
    omega
  rw [decodePath]
  rw [htake, utf16Lossy_encodeUtf16, String.ofList_toList]
  split_ifs with hempty
  · have hlen : encodeUtf16 t.text.toList = [] :=
      List.length_eq_zero_iff.mp (hempty.resolve_right hle)
    have htext : t.text.toList = [] := by rw [← utf16Lossy_encodeUtf16 t.text.toList, hlen]; rfl
    rw [← String.ofList_toList (s := t.text), htext]
  · rfl

end WideText

/-- Bytes at the head of a field of `n` bytes. -/
structure Preview (n : ℕ) where
  shown : List UInt8
  rest : List UInt8
  fits : shown.length + rest.length = n

/-! ### Events -/

/-- What the driver tells, a case per callback. -/
inductive KernelEvent
  | processCreate (processId parentProcessId creatingProcessId : UInt32)
      (imagePath : WideText imagePathMax) (commandLine : WideText commandLineMax)
      (parentImagePath : WideText imagePathMax) (userSid : WideText userSidMax)
      (integrityLevel : UInt32)
  | processExit (processId : UInt32) (exitCode : Int32)
  | imageLoad (processId : UInt32) (imageBase imageSize : UInt64)
      (imagePath : WideText imagePathMax)
  | registry (processId : UInt32) (operation : UInt16) (valueType dataSize : UInt32)
      (keyPath : WideText registryKeyPathMax) (valueName : WideText registryValueNameMax)
      (dataPreview : Preview registryDataPreviewMax)
  | threadCreate (processId threadId creatingProcessId : UInt32)
  | threadExit (processId threadId : UInt32)
  | handleAccess (sourceProcessId targetProcessId desiredAccess originalDesiredAccess : UInt32)
      (operation : UInt16)

namespace KernelEvent

/-- `EVENT_TYPE_*`. -/
def type : KernelEvent → ℕ
  | processCreate .. => 1
  | processExit .. => 2
  | imageLoad .. => 3
  | registry .. => 4
  | threadCreate .. => 5
  | threadExit .. => 6
  | handleAccess .. => 7

/-- `size_of` the struct. -/
def size : KernelEvent → ℕ
  | processCreate .. => ProcessCreateEvent.packed.size
  | processExit .. => ProcessExitEvent.packed.size
  | imageLoad .. => ImageLoadEvent.packed.size
  | registry .. => RegistryEvent.packed.size
  | threadCreate .. => ThreadCreateEvent.packed.size
  | threadExit .. => ThreadExitEvent.packed.size
  | handleAccess .. => ProcessHandleAccessEvent.packed.size

/-- The fields behind the header, packed. -/
def body : KernelEvent → List UInt8
  | processCreate processId parentProcessId creatingProcessId imagePath commandLine
      parentImagePath userSid integrityLevel =>
    [toLeBytes 4 processId.toNat, toLeBytes 4 parentProcessId.toNat,
      toLeBytes 4 creatingProcessId.toNat, imagePath.bytes, toLeBytes 2 imagePath.len,
      commandLine.bytes, toLeBytes 2 commandLine.len, parentImagePath.bytes,
      toLeBytes 2 parentImagePath.len, userSid.bytes, toLeBytes 2 userSid.len,
      toLeBytes 4 integrityLevel.toNat].flatten
  | processExit processId exitCode =>
    [toLeBytes 4 processId.toNat, toLeBytes 4 (ofSigned (2 ^ 32) exitCode.toInt)].flatten
  | imageLoad processId imageBase imageSize imagePath =>
    [toLeBytes 4 processId.toNat, toLeBytes 8 imageBase.toNat, toLeBytes 8 imageSize.toNat,
      imagePath.bytes, toLeBytes 2 imagePath.len].flatten
  | registry processId operation valueType dataSize keyPath valueName dataPreview =>
    [toLeBytes 4 processId.toNat, toLeBytes 2 operation.toNat, toLeBytes 4 valueType.toNat,
      toLeBytes 4 dataSize.toNat, keyPath.bytes, toLeBytes 2 keyPath.len, valueName.bytes,
      toLeBytes 2 valueName.len, dataPreview.shown ++ dataPreview.rest,
      toLeBytes 2 dataPreview.shown.length].flatten
  | threadCreate processId threadId creatingProcessId =>
    [toLeBytes 4 processId.toNat, toLeBytes 4 threadId.toNat,
      toLeBytes 4 creatingProcessId.toNat].flatten
  | threadExit processId threadId =>
    [toLeBytes 4 processId.toNat, toLeBytes 4 threadId.toNat].flatten
  | handleAccess sourceProcessId targetProcessId desiredAccess originalDesiredAccess operation =>
    [toLeBytes 4 sourceProcessId.toNat, toLeBytes 4 targetProcessId.toNat,
      toLeBytes 4 desiredAccess.toNat, toLeBytes 4 originalDesiredAccess.toNat,
      toLeBytes 2 operation.toNat].flatten

end KernelEvent

/-- An event with its header, of the current version. -/
structure Delivery where
  timestamp : Int64
  dropCount : UInt32
  truncCount : UInt32
  event : KernelEvent

namespace Delivery

/-- The header that the driver writes. -/
def header (d : Delivery) : EventHeader where
  version := eventVersion
  type := d.event.type
  timestamp := d.timestamp.toInt
  size := d.event.size
  dropCount := d.dropCount.toNat
  truncCount := d.truncCount.toNat

/-- The bytes of the header. -/
def headerBytes (d : Delivery) : List UInt8 :=
  [toLeBytes 2 eventVersion, toLeBytes 2 d.event.type,
    toLeBytes 8 (ofSigned (2 ^ 64) d.timestamp.toInt), toLeBytes 4 d.event.size,
    toLeBytes 4 d.dropCount.toNat, toLeBytes 4 d.truncCount.toNat].flatten

/-- The bytes of the delivery: the header and the fields behind it. -/
def bytes (d : Delivery) : List UInt8 := d.headerBytes ++ d.event.body

end Delivery

/-! ### What the agent makes of a packed event -/

theorem KernelEvent.type_lt (e : KernelEvent) : e.type < 2 ^ 16 := by
  cases e <;> exact Nat.le_of_ble_eq_true rfl

theorem KernelEvent.size_lt (e : KernelEvent) : e.size < 2 ^ 32 := by
  cases e <;> exact Nat.le_of_ble_eq_true rfl

theorem reads_header (d : Delivery) : Reads EventHeader.read d.headerBytes d.header :=
  (reads_u16 (by decide)).bind ((reads_u16 d.event.type_lt).bind
    ((reads_i64 d.timestamp.le_toInt d.timestamp.toInt_lt).bind
    ((reads_u32 d.event.size_lt).bind ((reads_u32 d.dropCount.toNat_lt).bind
    ((reads_u32 d.truncCount.toNat_lt).bind (reads_pure _))))))

theorem WideText.reads_field {n : ℕ} {α : Type} (t : WideText n) (hn : n < 2 ^ 16)
    {rest : List ℕ → ℕ → Reader α} {bs : List UInt8} {a : α}
    (h : Reads (rest t.units t.len) bs a) :
    Reads (u16s n >>= fun units => u16 >>= fun len => rest units len)
      (t.bytes ++ (toLeBytes 2 t.len ++ bs)) a :=
  t.reads.bind ((reads_u16 (t.len_lt hn)).bind h)

theorem readStruct_of_reads {α : Type} {T : Packed α} {bs : List UInt8} {a : α}
    (h : Reads T.read bs a) (trailing : List UInt8) (name : String) :
    readStruct T (bs ++ trailing) T.size name = .ok a := by
  rw [readStruct, readPacked]
  rw [if_neg (Nat.lt_irrefl _), h trailing]

section Structs

variable {d : Delivery} {processId parentProcessId creatingProcessId : UInt32}

theorem reads_processCreate {imagePath parentImagePath : WideText imagePathMax}
    {commandLine : WideText commandLineMax} {userSid : WideText userSidMax}
    {integrityLevel : UInt32}
    (hd : d.event = .processCreate processId parentProcessId creatingProcessId imagePath commandLine
      parentImagePath userSid integrityLevel) :
    Reads ProcessCreateEvent.read d.bytes {
      processId := processId.toNat
      parentProcessId := parentProcessId.toNat
      creatingProcessId := creatingProcessId.toNat
      imagePath := imagePath.units
      imagePathLen := imagePath.len
      commandLine := commandLine.units
      commandLineLen := commandLine.len
      parentImagePath := parentImagePath.units
      parentImagePathLen := parentImagePath.len
      userSid := userSid.units
      userSidLen := userSid.len
      integrityLevel := integrityLevel.toNat } := by
  refine (reads_header d).bind ?_
  rw [hd]
  exact (reads_u32 processId.toNat_lt).bind ((reads_u32 parentProcessId.toNat_lt).bind
    ((reads_u32 creatingProcessId.toNat_lt).bind (imagePath.reads_field (by decide)
    (commandLine.reads_field (by decide) (parentImagePath.reads_field (by decide)
    (userSid.reads_field (by decide) ((reads_u32 integrityLevel.toNat_lt).bind
    (reads_pure _))))))))

theorem reads_processExit {exitCode : Int32} (hd : d.event = .processExit processId exitCode) :
    Reads ProcessExitEvent.read d.bytes ⟨processId.toNat, exitCode.toInt⟩ := by
  refine (reads_header d).bind ?_
  rw [hd]
  exact (reads_u32 processId.toNat_lt).bind
    ((reads_i32 exitCode.le_toInt exitCode.toInt_lt).bind (reads_pure _))

theorem reads_imageLoad {imageBase imageSize : UInt64} {imagePath : WideText imagePathMax}
    (hd : d.event = .imageLoad processId imageBase imageSize imagePath) :
    Reads ImageLoadEvent.read d.bytes {
      processId := processId.toNat
      imageBase := imageBase.toNat
      imageSize := imageSize.toNat
      imagePath := imagePath.units
      imagePathLen := imagePath.len } := by
  refine (reads_header d).bind ?_
  rw [hd]
  exact (reads_u32 processId.toNat_lt).bind ((reads_u64 imageBase.toNat_lt).bind
    ((reads_u64 imageSize.toNat_lt).bind (imagePath.reads_field (by decide) (reads_pure _))))

theorem reads_registry {operation : UInt16} {valueType dataSize : UInt32}
    {keyPath : WideText registryKeyPathMax} {valueName : WideText registryValueNameMax}
    {dataPreview : Preview registryDataPreviewMax}
    (hd : d.event = .registry processId operation valueType dataSize keyPath valueName
      dataPreview) :
    Reads RegistryEvent.read d.bytes {
      processId := processId.toNat
      operation := operation.toNat
      valueType := valueType.toNat
      dataSize := dataSize.toNat
      keyPath := keyPath.units
      keyPathLen := keyPath.len
      valueName := valueName.units
      valueNameLen := valueName.len
      dataPreview := dataPreview.shown ++ dataPreview.rest
      dataPreviewLen := dataPreview.shown.length } := by
  have hpreview := reads_bytes (dataPreview.shown ++ dataPreview.rest)
  have hlen : dataPreview.shown.length < 2 ^ 16 := by
    have hfits := dataPreview.fits
    change dataPreview.shown.length + dataPreview.rest.length = 256 at hfits
    omega
  rw [List.length_append, dataPreview.fits] at hpreview
  refine (reads_header d).bind ?_
  rw [hd]
  exact (reads_u32 processId.toNat_lt).bind ((reads_u16 operation.toNat_lt).bind
    ((reads_u32 valueType.toNat_lt).bind ((reads_u32 dataSize.toNat_lt).bind
    (keyPath.reads_field (by decide) (valueName.reads_field (by decide)
    (hpreview.bind ((reads_u16 hlen).bind (reads_pure _))))))))

theorem reads_threadCreate {threadId : UInt32}
    (hd : d.event = .threadCreate processId threadId creatingProcessId) :
    Reads ThreadCreateEvent.read d.bytes
      ⟨processId.toNat, threadId.toNat, creatingProcessId.toNat⟩ := by
  refine (reads_header d).bind ?_
  rw [hd]
  exact (reads_u32 processId.toNat_lt).bind ((reads_u32 threadId.toNat_lt).bind
    ((reads_u32 creatingProcessId.toNat_lt).bind (reads_pure _)))

theorem reads_threadExit {threadId : UInt32} (hd : d.event = .threadExit processId threadId) :
    Reads ThreadExitEvent.read d.bytes ⟨processId.toNat, threadId.toNat⟩ := by
  refine (reads_header d).bind ?_
  rw [hd]
  exact (reads_u32 processId.toNat_lt).bind ((reads_u32 threadId.toNat_lt).bind (reads_pure _))

theorem reads_handleAccess {sourceProcessId targetProcessId desiredAccess originalDesiredAccess :
      UInt32} {operation : UInt16}
    (hd : d.event = .handleAccess sourceProcessId targetProcessId desiredAccess
      originalDesiredAccess operation) :
    Reads ProcessHandleAccessEvent.read d.bytes
      ⟨sourceProcessId.toNat, targetProcessId.toNat, desiredAccess.toNat,
        originalDesiredAccess.toNat, operation.toNat⟩ := by
  refine (reads_header d).bind ?_
  rw [hd]
  exact (reads_u32 sourceProcessId.toNat_lt).bind ((reads_u32 targetProcessId.toNat_lt).bind
    ((reads_u32 desiredAccess.toNat_lt).bind ((reads_u32 originalDesiredAccess.toNat_lt).bind
    ((reads_u16 operation.toNat_lt).bind (reads_pure _)))))

end Structs

namespace KernelEvent

/-- The payload: what the encoder makes of the struct. -/
def payload (env : KernelEnv) : KernelEvent → Json
  | processCreate processId parentProcessId creatingProcessId imagePath commandLine
      parentImagePath userSid integrityLevel =>
    ProcessCreateEvent.payload env {
      processId := processId.toNat
      parentProcessId := parentProcessId.toNat
      creatingProcessId := creatingProcessId.toNat
      imagePath := imagePath.units
      imagePathLen := imagePath.len
      commandLine := commandLine.units
      commandLineLen := commandLine.len
      parentImagePath := parentImagePath.units
      parentImagePathLen := parentImagePath.len
      userSid := userSid.units
      userSidLen := userSid.len
      integrityLevel := integrityLevel.toNat }
  | processExit processId exitCode =>
    ProcessExitEvent.payload ⟨processId.toNat, exitCode.toInt⟩
  | imageLoad processId imageBase imageSize imagePath =>
    ImageLoadEvent.payload {
      processId := processId.toNat
      imageBase := imageBase.toNat
      imageSize := imageSize.toNat
      imagePath := imagePath.units
      imagePathLen := imagePath.len }
  | registry processId operation valueType dataSize keyPath valueName dataPreview =>
    RegistryEvent.payload {
      processId := processId.toNat
      operation := operation.toNat
      valueType := valueType.toNat
      dataSize := dataSize.toNat
      keyPath := keyPath.units
      keyPathLen := keyPath.len
      valueName := valueName.units
      valueNameLen := valueName.len
      dataPreview := dataPreview.shown ++ dataPreview.rest
      dataPreviewLen := dataPreview.shown.length }
  | threadCreate processId threadId creatingProcessId =>
    ThreadCreateEvent.payload ⟨processId.toNat, threadId.toNat, creatingProcessId.toNat⟩
  | threadExit processId threadId => ThreadExitEvent.payload ⟨processId.toNat, threadId.toNat⟩
  | handleAccess sourceProcessId targetProcessId desiredAccess originalDesiredAccess operation =>
    ProcessHandleAccessEvent.payload ⟨sourceProcessId.toNat, targetProcessId.toNat,
      desiredAccess.toNat, originalDesiredAccess.toNat, operation.toNat⟩

/-- The agent's name of the type. -/
def kind : KernelEvent → String
  | processCreate .. => "ProcessCreate"
  | processExit .. => "ProcessExit"
  | imageLoad .. => "ImageLoad"
  | registry .. => "RegistryModify"
  | threadCreate .. => "ThreadCreate"
  | threadExit .. => "ThreadExit"
  | handleAccess .. => "ProcessHandleAccess"

/-- The server's name of the type. -/
def eventType : KernelEvent → String
  | processCreate .. => "process_create"
  | processExit .. => "process_terminate"
  | imageLoad .. => "module_load"
  | registry .. => "registry_write"
  | threadCreate .. => "thread_create"
  | threadExit .. => "thread_exit"
  | handleAccess .. => "process_handle_access"

end KernelEvent

namespace Delivery

/-- What the encoder makes of it. -/
def decoded (d : Delivery) (env : KernelEnv) : DecodedKernel where
  kind := d.event.kind
  eventType := d.event.eventType
  payload := d.event.payload env
  ts := env.formatTimestamp d.timestamp.toInt
  tsFt100ns := d.timestamp.toInt
  version := eventVersion
  dropCount := d.dropCount.toNat
  truncCount := d.truncCount.toNat

end Delivery

/-- The record has the size of its struct, and its payload is the event's. -/
theorem encodePayload_bytes (env : KernelEnv) (d : Delivery) (trailing : List UInt8) :
    d.bytes.length = d.event.size ∧ encodePayload env (d.bytes ++ trailing) d.header
      = .ok (d.event.kind, d.event.eventType, d.event.payload env) := by
  obtain ⟨event, hd⟩ : ∃ event, d.event = event := ⟨_, rfl⟩
  rw [Delivery.header, hd]
  cases event with
  | processCreate =>
    have hread := reads_processCreate hd
    refine ⟨hread.length_eq ProcessCreateEvent.packed.width, ?_⟩
    dsimp only [encodePayload, KernelEvent.type, KernelEvent.size]
    rw [encodeProcessCreate_eq, readStruct_of_reads (T := ProcessCreateEvent.packed) hread]
    rfl
  | processExit =>
    have hread := reads_processExit hd
    refine ⟨hread.length_eq ProcessExitEvent.packed.width, ?_⟩
    dsimp only [encodePayload, KernelEvent.type, KernelEvent.size]
    rw [encodeProcessExit_eq, readStruct_of_reads (T := ProcessExitEvent.packed) hread]
    rfl
  | imageLoad =>
    have hread := reads_imageLoad hd
    refine ⟨hread.length_eq ImageLoadEvent.packed.width, ?_⟩
    dsimp only [encodePayload, KernelEvent.type, KernelEvent.size]
    rw [encodeImageLoad_eq, readStruct_of_reads (T := ImageLoadEvent.packed) hread]
    rfl
  | registry =>
    have hread := reads_registry hd
    refine ⟨hread.length_eq RegistryEvent.packed.width, ?_⟩
    dsimp only [encodePayload, KernelEvent.type, KernelEvent.size]
    rw [encodeRegistry_eq, readStruct_of_reads (T := RegistryEvent.packed) hread]
    rfl
  | threadCreate =>
    have hread := reads_threadCreate hd
    refine ⟨hread.length_eq ThreadCreateEvent.packed.width, ?_⟩
    dsimp only [encodePayload, KernelEvent.type, KernelEvent.size]
    rw [encodeThreadCreate_eq, readStruct_of_reads (T := ThreadCreateEvent.packed) hread]
    rfl
  | threadExit =>
    have hread := reads_threadExit hd
    refine ⟨hread.length_eq ThreadExitEvent.packed.width, ?_⟩
    dsimp only [encodePayload, KernelEvent.type, KernelEvent.size]
    rw [encodeThreadExit_eq, readStruct_of_reads (T := ThreadExitEvent.packed) hread]
    rfl
  | handleAccess =>
    have hread := reads_handleAccess hd
    refine ⟨hread.length_eq ProcessHandleAccessEvent.packed.width, ?_⟩
    dsimp only [encodePayload, KernelEvent.type, KernelEvent.size]
    rw [encodeHandleAccess_eq, readStruct_of_reads (T := ProcessHandleAccessEvent.packed) hread]
    rfl

theorem decodeKernelEvent_bytes (env : KernelEnv) (d : Delivery) (trailing : List UInt8) :
    decodeKernelEvent env (d.bytes ++ trailing) = .ok (d.decoded env) := by
  obtain ⟨hlen, hpayload⟩ := encodePayload_bytes env d trailing
  have hheader : (EventHeader.read.run (d.bytes ++ trailing)).1 = d.header := by
    rw [Delivery.bytes, List.append_assoc, reads_header d]
  have hmin : headerSize ≤ d.event.size := by
    cases d.event <;> exact Nat.le_of_ble_eq_true rfl
  have htotal : d.event.size ≤ (d.bytes ++ trailing).length := by
    rw [List.length_append, hlen]
    exact Nat.le_add_right _ _
  have hversion : ¬ d.header.version ≠ eventVersion := not_not.mpr rfl
  have hsize : ¬ d.header.size > (d.bytes ++ trailing).length := Nat.not_lt.mpr htotal
  rw [decodeKernelEvent]
  rw [if_neg (Nat.not_lt.mpr (hmin.trans htotal)), hheader]
  dsimp only
  rw [if_neg hversion, if_neg hsize, hpayload]
  rfl

end Ipc

end WazabiAgent
