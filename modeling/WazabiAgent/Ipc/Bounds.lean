import WazabiAgent.Ipc.Parser

/-!
# Raw reads stay inside the buffer

`decode_kernel_event` once more, with its raw reads; its result is the function of `Ipc/Json`. It
and `parse_and_print` check the same things in the same order, in two files. The checks are stated
once here, and both decoders shown to make them.

## Main definitions

* `decodeKernelEventRaw` — the decoder with its reads
* `Guarded`, `WellSized` — what a body checks, and what a decoder checks

## Main results

* `decodeKernelEventRaw_result` — it is `decodeKernelEvent`
* `kernel_decoders_agree` — which buffers are decoded, and what is read of them
-/

namespace WazabiAgent

namespace Ipc

open Binary

/-! ### The decoder with its reads -/

/-- The `match` of `decode_kernel_event`. The function `read_packed` is `read_packed_event`. -/
def encodePayloadRaw (env : KernelEnv) (buf : List UInt8) (h : EventHeader) :
    Raw (String × String × Json) :=
  let named (kind eventType : String) (payload : Raw Json) :=
    (fun p => (kind, eventType, p)) <$> payload
  match h.type with
  | 1 => named "ProcessCreate" "process_create"
      (ProcessCreateEvent.payload env <$>
        readPackedEvent ProcessCreateEvent.packed buf h.size "ProcessCreate")
  | 2 => named "ProcessExit" "process_terminate"
      (ProcessExitEvent.payload <$>
        readPackedEvent ProcessExitEvent.packed buf h.size "ProcessExit")
  | 3 => named "ImageLoad" "module_load"
      (ImageLoadEvent.payload <$>
        readPackedEvent ImageLoadEvent.packed buf h.size "ImageLoad")
  | 4 => named "RegistryModify" "registry_write"
      (RegistryEvent.payload <$>
        readPackedEvent RegistryEvent.packed buf h.size "RegistryModify")
  | 5 => named "ThreadCreate" "thread_create"
      (ThreadCreateEvent.payload <$>
        readPackedEvent ThreadCreateEvent.packed buf h.size "ThreadCreate")
  | 6 => named "ThreadExit" "thread_exit"
      (ThreadExitEvent.payload <$>
        readPackedEvent ThreadExitEvent.packed buf h.size "ThreadExit")
  | 7 => named "ProcessHandleAccess" "process_handle_access"
      (ProcessHandleAccessEvent.payload <$>
        readPackedEvent ProcessHandleAccessEvent.packed buf h.size "ProcessHandleAccess")
  | other =>
    return ("Unknown", "process_create",
      .object (Json.ofMembers [("type", num other), ("size", num h.size)]))

/-- `decode_kernel_event`. -/
def decodeKernelEventRaw (env : KernelEnv) (buf : List UInt8) : Raw DecodedKernel :=
  if buf.length < headerSize then
    throw ("event too short: " ++ toString buf.length ++ " bytes, expected at least "
      ++ toString headerSize)
  else do
    let h ← readUnaligned EventHeader.packed buf
    if h.version ≠ eventVersion then throw ("unknown event version " ++ toString h.version)
    else if h.size > buf.length then
      throw ("header.size=" ++ toString h.size ++ " exceeds delivered " ++ toString buf.length)
    else
      (fun (kind, eventType, payload) => {
        kind := kind
        eventType := eventType
        payload := payload
        ts := env.formatTimestamp h.timestamp
        tsFt100ns := h.timestamp
        version := h.version
        dropCount := h.dropCount
        truncCount := h.truncCount }) <$> encodePayloadRaw env buf h

/-! ### It is the decoder of `Ipc/Json` -/

variable {α β : Type} {buf : List UInt8}

theorem run_map (f : α → β) (m : Raw α) (reads : List Access) :
    (f <$> m).run.run reads = ((m.run.run reads).1.map f, (m.run.run reads).2) := by
  rw [ExceptT.run_map, StateT.run_map]
  rfl

theorem run_readPackedEvent (T : Packed α) (buf : List UInt8) (size : ℕ) (name : String)
    (reads : List Access) :
    (readPackedEvent T buf size name).run.run reads =
      (readStruct T buf size name, if size < T.size then reads else reads ++ [⟨0, T.size⟩]) := by
  rw [readPackedEvent, readStruct, readPacked]
  split_ifs
  · rfl
  · rfl

theorem run_named (T : Packed α) (payload : α → Json) (buf : List UInt8) (size : ℕ)
    (name kind eventType : String) (reads : List Access) :
    (((fun p => (kind, eventType, p)) <$> payload <$>
        readPackedEvent T buf size name : Raw (String × String × Json)).run.run reads).1
      = ((readStruct T buf size name).map payload).map fun p => (kind, eventType, p) := by
  rw [run_map, run_map, run_readPackedEvent]

theorem encodePayloadRaw_result (env : KernelEnv) (buf : List UInt8) (h : EventHeader)
    (reads : List Access) :
    ((encodePayloadRaw env buf h).run.run reads).1 = encodePayload env buf h := by
  unfold encodePayloadRaw encodePayload
  rw [encodeProcessCreate_eq, encodeProcessExit_eq, encodeImageLoad_eq, encodeRegistry_eq,
    encodeThreadCreate_eq, encodeThreadExit_eq, encodeHandleAccess_eq]
  generalize h.type = type
  match type with
  | 1 => exact run_named _ _ _ _ _ _ _ _
  | 2 => exact run_named _ _ _ _ _ _ _ _
  | 3 => exact run_named _ _ _ _ _ _ _ _
  | 4 => exact run_named _ _ _ _ _ _ _ _
  | 5 => exact run_named _ _ _ _ _ _ _ _
  | 6 => exact run_named _ _ _ _ _ _ _ _
  | 7 => exact run_named _ _ _ _ _ _ _ _
  | 0 | _ + 8 => rfl

/-- The header is read whole. -/
theorem run_header_bind (buf : List UInt8) (body : EventHeader → Raw α) :
    (readUnaligned EventHeader.packed buf >>= body).run.run []
      = (body (EventHeader.read.run buf).1).run.run [⟨0, headerSize⟩] := rfl

theorem decodeKernelEventRaw_result (env : KernelEnv) (buf : List UInt8) :
    (decodeKernelEventRaw env buf).result = decodeKernelEvent env buf := by
  rw [decodeKernelEventRaw, decodeKernelEvent]
  split_ifs with hshort
  · rfl
  · rw [Raw.result, run_header_bind]
    generalize (EventHeader.read.run buf).1 = h
    dsimp only
    split_ifs with hversion hsize
    · rfl
    · rfl
    · rw [run_map, encodePayloadRaw_result]

/-! ### What is checked -/

/-- `size_of` the struct that an event of this type is, if the type is known. -/
def structSize : ℕ → Option ℕ
  | 1 => some ProcessCreateEvent.packed.size
  | 2 => some ProcessExitEvent.packed.size
  | 3 => some ImageLoadEvent.packed.size
  | 4 => some RegistryEvent.packed.size
  | 5 => some ThreadCreateEvent.packed.size
  | 6 => some ThreadExitEvent.packed.size
  | 7 => some ProcessHandleAccessEvent.packed.size
  | _ => none

/-- The record has the size of its struct, and reads it and nothing else; or it is too small for it,
and nothing is read. -/
def Guarded (size : ℕ) (needs : Option ℕ) (m : Raw α) : Prop :=
  ∀ reads, if ∀ n ∈ needs, n ≤ size then
    ∃ a, m.run.run reads = (.ok a, reads ++ needs.toList.map fun n => ⟨0, n⟩)
  else ∃ e, m.run.run reads = (.error e, reads)

theorem guarded_readPackedEvent (T : Packed α) (buf : List UInt8) (size : ℕ) (name : String) :
    Guarded size (some T.size) (readPackedEvent T buf size name) := by
  intro reads
  rw [run_readPackedEvent]
  rw [readStruct, readPacked]
  by_cases hsize : size < T.size
  · rw [if_neg (by simpa using hsize), if_pos hsize, if_pos hsize]
    exact ⟨_, rfl⟩
  · rw [if_pos (by simpa using hsize), if_neg hsize, if_neg hsize]
    exact ⟨_, rfl⟩

theorem guarded_pure (size : ℕ) (a : α) : Guarded size none (pure a : Raw α) := by
  intro reads
  rw [if_pos (by simp)]
  exact ⟨a, by simp; rfl⟩

theorem Guarded.bind {size : ℕ} {needs : Option ℕ} {m : Raw α} {f : α → Raw β}
    (h : Guarded size needs m) (hf : ∀ a, Guarded size none (f a)) :
    Guarded size needs (m >>= f) := by
  intro reads
  have hm := h reads
  rw [ExceptT.run_bind, StateT.run_bind]
  split_ifs at hm ⊢ with hfits
  · obtain ⟨a, ha⟩ := hm
    have hfa := hf a (reads ++ needs.toList.map fun n => ⟨0, n⟩)
    rw [if_pos (by simp)] at hfa
    obtain ⟨b, hb⟩ := hfa
    rw [Option.toList_none, List.map_nil, List.append_nil] at hb
    refine ⟨b, ?_⟩
    rw [ha]
    exact hb
  · obtain ⟨e, he⟩ := hm
    exact ⟨e, by rw [he]; rfl⟩

theorem Guarded.map {size : ℕ} {needs : Option ℕ} {m : Raw α} (h : Guarded size needs m)
    (f : α → β) : Guarded size needs (f <$> m) := by
  rw [map_eq_pure_bind]
  exact h.bind fun a => guarded_pure size (f a)

theorem guarded_encodePayloadRaw (env : KernelEnv) (buf : List UInt8) (h : EventHeader) :
    Guarded h.size (structSize h.type) (encodePayloadRaw env buf h) := by
  unfold encodePayloadRaw structSize
  generalize h.type = type
  split
  · exact ((guarded_readPackedEvent _ buf h.size _).map _).map _
  · exact ((guarded_readPackedEvent _ buf h.size _).map _).map _
  · exact ((guarded_readPackedEvent _ buf h.size _).map _).map _
  · exact ((guarded_readPackedEvent _ buf h.size _).map _).map _
  · exact ((guarded_readPackedEvent _ buf h.size _).map _).map _
  · exact ((guarded_readPackedEvent _ buf h.size _).map _).map _
  · exact ((guarded_readPackedEvent _ buf h.size _).map _).map _
  · exact guarded_pure h.size _

theorem guarded_printEvent (buf : List UInt8) (h : EventHeader) (ctx : EventCtx) :
    Guarded h.size (structSize h.type) (printEvent buf h ctx) := by
  unfold printEvent structSize
  generalize h.type = type
  match type with
  | 1 => exact (guarded_readPackedEvent _ buf h.size _).map _
  | 2 => exact (guarded_readPackedEvent _ buf h.size _).map _
  | 3 => exact (guarded_readPackedEvent _ buf h.size _).map _
  | 4 =>
    refine (guarded_readPackedEvent _ buf h.size _).bind fun evt => ?_
    dsimp only
    split_ifs
    all_goals exact guarded_pure h.size _
  | 5 => exact (guarded_readPackedEvent _ buf h.size _).map _
  | 6 => exact (guarded_readPackedEvent _ buf h.size _).map _
  | 7 => exact (guarded_readPackedEvent _ buf h.size _).map _
  | 0 | _ + 8 => exact guarded_pure h.size _

/-- What both decoders check. -/
def WellSized (buf : List UInt8) : Prop :=
  headerSize ≤ buf.length ∧
    let h := (EventHeader.read.run buf).1
    h.version = eventVersion ∧ h.size ≤ buf.length ∧ ∀ n ∈ structSize h.type, n ≤ h.size

/-- The read is of bytes of the buffer. -/
def Access.Inside (buf : List UInt8) (a : Access) : Prop := a.offset + a.size ≤ buf.length

theorem inside_header (h : ¬ buf.length < headerSize) :
    ∀ a ∈ [(⟨0, headerSize⟩ : Access)], a.Inside buf := by
  intro a ha
  rw [List.mem_singleton.mp ha, Access.Inside]
  dsimp only
  omega

/-- A header that is checked like this, and a body that checks the rest. -/
theorem checked {body : EventHeader → Raw α} {short : String}
    {version tooLarge : EventHeader → String}
    (hbody : ∀ h, Guarded h.size (structSize h.type) (body h)) {m : Raw α}
    (hm : m = if buf.length < headerSize then throw short
      else do
        let h ← readUnaligned EventHeader.packed buf
        if h.version ≠ eventVersion then throw (version h)
        else if h.size > buf.length then throw (tooLarge h)
        else body h) :
    (∀ a ∈ m.accesses, a.Inside buf) ∧ ((∃ a, m.result = .ok a) ↔ WellSized buf) := by
  have herror (e : String) : ¬ ∃ a : α, Except.error e = Except.ok a := by
    rintro ⟨a, ha⟩
    cases ha
  subst hm
  rw [WellSized, Raw.accesses, Raw.result]
  by_cases hshort : buf.length < headerSize
  · rw [if_pos hshort]
    exact ⟨fun a ha => absurd ha List.not_mem_nil,
      iff_of_false (herror short) fun h => absurd h.1 (Nat.not_le.mpr hshort)⟩
  · rw [if_neg hshort, run_header_bind]
    generalize (EventHeader.read.run buf).1 = h
    by_cases hversion : h.version = eventVersion
    · rw [if_neg (not_not.mpr hversion)]
      by_cases hlarge : h.size > buf.length
      · rw [if_pos hlarge]
        exact ⟨inside_header hshort, iff_of_false (herror _) fun hw =>
          absurd hw.2.2.1 (Nat.not_le.mpr hlarge)⟩
      · have hb := hbody h [⟨0, headerSize⟩]
        rw [if_neg hlarge]
        split_ifs at hb with hfits
        · obtain ⟨a, ha⟩ := hb
          rw [ha]
          refine ⟨fun a ha => ?_, iff_of_true ⟨a, rfl⟩
            ⟨Nat.not_lt.mp hshort, hversion, Nat.not_lt.mp hlarge, hfits⟩⟩
          rcases List.mem_append.mp ha with ha | ha
          · exact inside_header hshort a ha
          · -- the struct is no larger than the record, and the record no larger than the buffer
            obtain ⟨n, hn, rfl⟩ := List.mem_map.mp ha
            have hfit : n ≤ h.size := hfits n (Option.mem_toList.mp hn)
            rw [Access.Inside]
            dsimp only
            omega
        · obtain ⟨e, he⟩ := hb
          rw [he]
          exact ⟨inside_header hshort, iff_of_false (herror e) fun hw => hfits hw.2.2.2⟩
    · rw [if_pos hversion]
      exact ⟨inside_header hshort, iff_of_false (herror _) fun hw => hversion hw.2.1⟩

/-- **The two decoders.** On every buffer `decode_kernel_event` reads bytes of the buffer only, and
succeeds exactly if the header and the struct it announces are there. So does `parse_and_print`. -/
theorem kernel_decoders_agree (env : KernelEnv) (formatTimestamp : Int → String)
    (buf : List UInt8) :
    (decodeKernelEventRaw env buf).result = decodeKernelEvent env buf ∧
      (∀ a ∈ (decodeKernelEventRaw env buf).accesses, a.Inside buf) ∧
      ((∃ d, decodeKernelEvent env buf = .ok d) ↔ WellSized buf) ∧
      (∀ a ∈ (parseAndPrint formatTimestamp buf).accesses, a.Inside buf) ∧
      ((∃ line, (parseAndPrint formatTimestamp buf).result = .ok line) ↔
        ∃ d, decodeKernelEvent env buf = .ok d) := by
  have hresult := decodeKernelEventRaw_result env buf
  obtain ⟨hreads, hdecoded⟩ := checked (m := decodeKernelEventRaw env buf)
    (fun h => (guarded_encodePayloadRaw env buf h).map _) rfl
  obtain ⟨hreads', hprinted⟩ := checked (fun h => guarded_printEvent buf h _)
    (Eq.refl (parseAndPrint formatTimestamp buf))
  rw [hresult] at hdecoded
  exact ⟨hresult, hreads, hdecoded, hreads', hprinted.trans hdecoded.symm⟩

end Ipc

end WazabiAgent
