import WazabiAgent.Ipc.Bounds
import WazabiAgent.Ipc.RoundTrip

/-!
# Registry previews

The driver sends the first bytes of a registry value, the number of them, and the size of the value.
Both decoders cut the number to the size of the array before they take the bytes, and compare the
size of the value with the number that was not cut.

## Main definitions

* `RegistryEvent.setValueLine` — the console line, by what stands behind the data
* `RegistryEvent.PreviewOk` — the JSON and the line say what they show

## Main results

* `registry_preview_iff` — the events of which they do
-/

namespace WazabiAgent

namespace Ipc

open Binary Binary.Reader

/-! ### The preview of a record -/

/-- What a reader leaves. -/
theorem length_run_snd {α : Type} {n : ℕ} {r : Reader α} (h : Width n r) (buf : List UInt8) :
    (r.run buf).2.length = buf.length - n := by
  rw [h buf, List.length_drop]

/-- The array is whole. -/
theorem length_dataPreview {buf : List UInt8} (h : RegistryEvent.packed.size ≤ buf.length) :
    (RegistryEvent.read.run buf).1.dataPreview.length = registryDataPreviewMax := by
  have hsize : 1580 ≤ buf.length := h
  have hbind {α β : Type} (r : Reader α) (f : α → Reader β) (bs : List UInt8) :
      (r >>= f).run bs = (f (r.run bs).1).run (r.run bs).2 := rfl
  have hpure {α : Type} (a : α) (bs : List UInt8) : (pure a : Reader α).run bs = (a, bs) := rfl
  have hbytes (n : ℕ) (bs : List UInt8) : ((bytes n).run bs).1 = bs.take n := rfl
  rw [RegistryEvent.read]
  simp only [hbind, hpure, hbytes]
  -- as many bytes are left as the fields before the array do not take
  rw [List.length_take, length_run_snd width_u16, length_run_snd (width_u16s _),
    length_run_snd width_u16, length_run_snd (width_u16s _), length_run_snd width_u32,
    length_run_snd width_u32, length_run_snd width_u16, length_run_snd width_u32,
    length_run_snd width_header, registryKeyPathMax, registryValueNameMax, registryDataPreviewMax]
  omega

/-! ### What is shown -/

namespace RegistryEvent

variable (evt : RegistryEvent) (ctx : EventCtx)

/-- The size of the data, on the console. -/
def truncationMarker : String := " (truncated, real size=" ++ toString evt.dataSize ++ " bytes)"

/-- The line of a value that is set, with this text behind the data. -/
def setValueLine (marker : String) : String :=
  let keyPath := decodePackedPath registryKeyPathMax evt.keyPath evt.keyPathLen
  let valueName :=
    if evt.valueNameLen = 0 then "(default)"
    else decodePackedPath registryValueNameMax evt.valueName evt.valueNameLen
  ctx.line ("Registry " ++ registryOpLabel evt.operation ++ " pid=" ++ toString evt.processId
    ++ " key=" ++ quoted keyPath ++ " value=" ++ quoted valueName
    ++ " type=" ++ toString evt.valueType
    ++ " data=" ++ renderDataPreview evt.valueType evt.shown ++ marker)

/-- The JSON has the bytes that are there, and a flag that says whether these are all; the line has
the marker exactly where the flag is set. -/
def PreviewOk (payload : Json) (line : String) : Prop :=
  ∃ hex shown truncated,
    payload.get "data_preview_hex" = some (.string hex) ∧
    unhex hex.toList = some shown ∧
    shown = evt.dataPreview.take (min evt.dataPreviewLen registryDataPreviewMax) ∧
    payload.get "data_truncated" = some (.bool truncated) ∧
    (truncated = true ↔ shown.length < evt.dataSize) ∧
    line = evt.setValueLine ctx (if truncated then evt.truncationMarker else "")

/-- The flag is not of what is shown where the number of bytes is more than the array has, and the
size of the value is between the two. -/
theorem previewOk_iff (hlen : evt.dataPreview.length = registryDataPreviewMax)
    (hop : evt.operation = 1) :
    evt.PreviewOk ctx evt.payload
        (evt.setValueLine ctx
          (if evt.dataSize > evt.dataPreviewLen then evt.truncationMarker else "")) ↔
      ¬ (registryDataPreviewMax < evt.dataSize ∧ evt.dataSize ≤ evt.dataPreviewLen) := by
  have hpayload := evt.payload_eq
  rw [if_pos hop] at hpayload
  have hhex : evt.payload.get "data_preview_hex" = some (.string (hexOf evt.shown)) := by
    simp [hpayload, Json.get_insert]
  have hflag : evt.payload.get "data_truncated"
      = some (.bool (evt.dataSize > evt.dataPreviewLen)) := by
    simp [hpayload, Json.get_insert]
  have hshown : evt.shown.length = min evt.dataPreviewLen registryDataPreviewMax := by
    rw [RegistryEvent.shown, List.length_take, hlen, Nat.min_assoc, Nat.min_self]
  have hexact : (evt.dataSize > evt.dataPreviewLen ↔ evt.shown.length < evt.dataSize) ↔
      ¬ (registryDataPreviewMax < evt.dataSize ∧ evt.dataSize ≤ evt.dataPreviewLen) := by
    rw [hshown]
    omega
  rw [← hexact]
  constructor
  · rintro ⟨hex, shown, truncated, hhex', hunhex, rfl, hflag', htruncated, -⟩
    obtain rfl := Json.bool.inj (Option.some.inj (hflag.symm.trans hflag'))
    rwa [decide_eq_true_iff] at htruncated
  · intro h
    refine ⟨_, _, _, hhex, unhex_hexOf _, rfl, hflag, ?_, ?_⟩
    · rw [decide_eq_true_iff]
      exact h
    · simp only [decide_eq_true_iff]

end RegistryEvent

/-! ### The decoders -/

variable {buf : List UInt8}

theorem decodeKernelEvent_registry (env : KernelEnv) (hsized : WellSized buf)
    (htype : (EventHeader.read.run buf).1.type = 4) :
    ∃ d, decodeKernelEvent env buf = .ok d ∧
      d.payload = (RegistryEvent.read.run buf).1.payload := by
  obtain ⟨hheader, hversion, hsize, hfits⟩ := hsized
  have hread : ¬ (EventHeader.read.run buf).1.size < RegistryEvent.packed.size :=
    Nat.not_lt.mpr (hfits _ (by rw [htype]; rfl))
  rw [decodeKernelEvent, if_neg (Nat.not_lt.mpr hheader)]
  dsimp only
  rw [if_neg (not_not.mpr hversion), if_neg (Nat.not_lt.mpr hsize), encodePayload, htype]
  dsimp only
  rw [encodeRegistry_eq, readStruct, readPacked, if_neg hread, RegistryEvent.packed]
  generalize (RegistryEvent.read.run buf).1 = evt
  exact ⟨_, rfl, rfl⟩

/-- A struct that is there is read. -/
theorem run_readPackedEvent_bind {α β : Type} {T : Packed α} {size : ℕ} {name : String}
    {reads : List Access} (f : α → Raw β) (h : ¬ size < T.size) :
    (readPackedEvent T buf size name >>= f).run.run reads
      = (f (T.read.run buf).1).run.run (reads ++ [⟨0, T.size⟩]) := by
  rw [readPackedEvent, if_neg h]
  rfl

theorem printEvent_registry {h : EventHeader} {ctx : EventCtx} (htype : h.type = 4) :
    printEvent buf h ctx = printRegistryModify buf h.size ctx := by
  rw [printEvent, htype]
  rfl

theorem parseAndPrint_setValue (formatTimestamp : Int → String) (hsized : WellSized buf)
    (htype : (EventHeader.read.run buf).1.type = 4)
    (hop : (RegistryEvent.read.run buf).1.operation = 1) :
    let evt := (RegistryEvent.read.run buf).1
    (parseAndPrint formatTimestamp buf).result
      = .ok (evt.setValueLine (eventCtx formatTimestamp (EventHeader.read.run buf).1)
        (if evt.dataSize > evt.dataPreviewLen then evt.truncationMarker else "")) := by
  obtain ⟨hheader, hversion, hsize, hfits⟩ := hsized
  have hread : ¬ (EventHeader.read.run buf).1.size < RegistryEvent.packed.size :=
    Nat.not_lt.mpr (hfits _ (by rw [htype]; rfl))
  rw [parseAndPrint, if_neg (Nat.not_lt.mpr hheader), Raw.result, run_header_bind,
    if_neg (not_not.mpr hversion), if_neg (Nat.not_lt.mpr hsize)]
  dsimp only
  rw [printEvent_registry htype, printRegistryModify, run_readPackedEvent_bind _ hread,
    RegistryEvent.packed]
  dsimp only
  revert hop
  generalize (RegistryEvent.read.run buf).1 = evt
  intro hop
  rw [if_pos hop]
  rfl

/-- **Registry previews say what they show, but for one kind of record.** Every record of a value
that is set is decoded and printed. What is shown of its data is what it is said to be, except where
the value is larger than the array but not than the number of bytes that the record gives. -/
theorem registry_preview_iff (env : KernelEnv) (formatTimestamp : Int → String)
    (hsized : WellSized buf) (htype : (EventHeader.read.run buf).1.type = 4)
    (hop : (RegistryEvent.read.run buf).1.operation = 1) :
    let evt := (RegistryEvent.read.run buf).1
    let ctx := eventCtx formatTimestamp (EventHeader.read.run buf).1
    ∃ d line, decodeKernelEvent env buf = .ok d ∧
      (parseAndPrint formatTimestamp buf).result = .ok line ∧
      (evt.PreviewOk ctx d.payload line ↔
        ¬ (registryDataPreviewMax < evt.dataSize ∧ evt.dataSize ≤ evt.dataPreviewLen)) := by
  intro evt ctx
  obtain ⟨d, hd, hpayload⟩ := decodeKernelEvent_registry env hsized htype
  have hread : RegistryEvent.packed.size ≤ buf.length :=
    (hsized.2.2.2 _ (by rw [htype]; rfl)).trans hsized.2.2.1
  refine ⟨d, _, hd, parseAndPrint_setValue formatTimestamp hsized htype hop, ?_⟩
  rw [hpayload]
  exact RegistryEvent.previewOk_iff evt ctx (length_dataPreview hread) hop

/-! ### Records -/

/-- A record of a value of this size, with this number of bytes in the preview. -/
def setValueRecord (dataSize previewLen : ℕ) : List UInt8 :=
  toLeBytes 2 eventVersion ++ toLeBytes 2 4 ++ toLeBytes 8 0 ++ toLeBytes 4 1580 ++ toLeBytes 8 0 ++
  toLeBytes 4 1234 ++ toLeBytes 2 1 ++ toLeBytes 4 3 ++ toLeBytes 4 dataSize ++
  List.replicate 1284 0 ++ List.replicate 256 7 ++ toLeBytes 2 previewLen

theorem wellSized_registry (hlen : 1580 ≤ buf.length)
    (hversion : (EventHeader.read.run buf).1.version = eventVersion)
    (htype : (EventHeader.read.run buf).1.type = 4)
    (hsize : (EventHeader.read.run buf).1.size = 1580) : WellSized buf := by
  refine ⟨?_, hversion, ?_, ?_⟩
  · rw [headerSize]
    omega
  · rwa [hsize]
  · rw [htype, hsize]
    rintro n ⟨⟩
    exact Nat.le_refl 1580

/-- Four bytes of four. -/
theorem registry_preview_of_dword :
    let evt := (RegistryEvent.read.run (setValueRecord 4 4)).1
    let ctx := eventCtx (fun _ => "") (EventHeader.read.run (setValueRecord 4 4)).1
    ∃ d line, decodeKernelEvent quietEnv (setValueRecord 4 4) = .ok d ∧
      (parseAndPrint (fun _ => "") (setValueRecord 4 4)).result = .ok line ∧
      evt.PreviewOk ctx d.payload line := by
  have hsized : WellSized (setValueRecord 4 4) :=
    wellSized_registry (by decide +kernel) (by decide +kernel) (by decide +kernel)
      (by decide +kernel)
  have hdata : (RegistryEvent.read.run (setValueRecord 4 4)).1.dataSize = 4 := by decide +kernel
  obtain ⟨d, line, hd, hline, hok⟩ := registry_preview_iff quietEnv (fun _ => "") hsized
    (by decide +kernel) (by decide +kernel)
  refine ⟨d, line, hd, hline, hok.mpr fun h => absurd h.1 ?_⟩
  rw [hdata]
  decide

/-- A number of bytes beyond the array: all 256 bytes of it are shown, 44 are left out, and the flag
says that there are no more. -/
theorem long_preview_not_marked :
    let evt := (RegistryEvent.read.run (setValueRecord 300 300)).1
    let ctx := eventCtx (fun _ => "") (EventHeader.read.run (setValueRecord 300 300)).1
    ∃ d line, decodeKernelEvent quietEnv (setValueRecord 300 300) = .ok d ∧
      (parseAndPrint (fun _ => "") (setValueRecord 300 300)).result = .ok line ∧
      evt.shown.length = 256 ∧ evt.dataSize = 300 ∧
      d.payload.get "data_truncated" = some (.bool false) ∧ ¬ evt.PreviewOk ctx d.payload line := by
  have hsized : WellSized (setValueRecord 300 300) :=
    wellSized_registry (by decide +kernel) (by decide +kernel) (by decide +kernel)
      (by decide +kernel)
  have htype : (EventHeader.read.run (setValueRecord 300 300)).1.type = 4 := by decide +kernel
  have hop : (RegistryEvent.read.run (setValueRecord 300 300)).1.operation = 1 := by decide +kernel
  have hdata : (RegistryEvent.read.run (setValueRecord 300 300)).1.dataSize = 300 := by
    decide +kernel
  have hlen : (RegistryEvent.read.run (setValueRecord 300 300)).1.dataPreviewLen = 300 := by
    decide +kernel
  have hpreview : (RegistryEvent.read.run (setValueRecord 300 300)).1.dataPreview.length
      = registryDataPreviewMax := length_dataPreview (by decide +kernel)
  obtain ⟨d, hd, hpayload⟩ := decodeKernelEvent_registry quietEnv hsized htype
  intro evt ctx
  have hiff := RegistryEvent.previewOk_iff evt ctx hpreview hop
  refine ⟨d, _, hd, parseAndPrint_setValue (fun _ => "") hsized htype hop, ?_, hdata, ?_, ?_⟩
  · rw [RegistryEvent.shown, List.length_take, hpreview, hlen]
    rfl
  · rw [hpayload, RegistryEvent.payload_eq, if_pos hop, hdata, hlen]
    simp [Json.get_insert]
  · rw [hpayload]
    refine mt hiff.mp (not_not.mpr ?_)
    rw [hdata, hlen]
    decide

end Ipc

end WazabiAgent
