import WazabiAgent.Ipc.Json
import WazabiAgent.Plugin.EmitEvent

/-!
# Ingestion, and what the emission filter does to detection

Events reach the agent on two paths: the pump reads kernel buffers from the driver
(`run_pump_loop`), and the sessions of the plugin server call `emit_event`. Both print, submit to
the spool and feed detection, and both ask the emission filter. The pump asks it about the spool
line only. `emit_event` asks it first of all.

The two paths run in threads of their own; a sequence of inputs here is the order in which they
get to the consumers. The line that `parse_and_print` writes for a kernel event is left out, it
goes to the console and depends on nothing but the buffer.

## Main results

* `spooled_sublist` — on the spool the filter thins out, and does nothing else
* `detected_eq_iff` — when detection is handed the same events as without a filter
* `pumpLines_detection` — the pump submits the same lines with and without detection
-/

namespace WazabiAgent

namespace Ingestion

open Detection Ipc Plugin

open scoped List

/-- One buffer of the pump, from encoding on. -/
def pumpEvent (sinks : Sinks) (env : KernelEnv) (buf : List UInt8) (now : ℕ) : Outputs :=
  if sinks.detection then
    match encodeKernelEventAndLog env buf now with
    | .ok (line, log) =>
      { submitted :=
          if sinks.spool ∧ allows sinks.filter "kernel_callback" log.eventType then [line] else []
        processed := [log] }
    | .error _ => {}
  else if sinks.spool then
    match encodeKernelEvent sinks.filter env buf with
    | .ok (some line) => { submitted := [line] }
    | .ok none => {}
    | .error _ => {}
  else {}

/-- What the agent is given. -/
inductive Input
  | kernel (env : KernelEnv) (buf : List UInt8) (now : ℕ)
  | plugin (manifest : PluginManifest) (identity : ClientIdentity) (sessionId : String)
    (ev : Event) (nowNs : UInt64) (now : ℕ)

/-- The event comes from a plugin. -/
def Input.IsPlugin : Input → Prop
  | .kernel .. => False
  | .plugin .. => True

/-- What becomes of an event. -/
def ingest (sinks : Sinks) : Input → Outputs
  | .kernel env buf now => pumpEvent sinks env buf now
  | .plugin manifest identity sessionId ev nowNs now =>
    emitEvent manifest identity sessionId sinks ev nowNs now

/-- The calls of `DetectionEngine::process`, in their order. -/
def detected (sinks : Sinks) (xs : List Input) : List LogEvent :=
  xs.flatMap fun x => (ingest sinks x).processed

/-- The lines submitted to the spool. -/
def spooled (sinks : Sinks) (xs : List Input) : List String :=
  xs.flatMap fun x => (ingest sinks x).submitted

/-! ### One input -/

/-- The line of a buffer, with or without detection. -/
theorem pumpEvent_submitted (sinks : Sinks) (env : KernelEnv) (buf : List UInt8) (now : ℕ) :
    (pumpEvent sinks env buf now).submitted =
      match decodeKernelEvent env buf with
      | .ok d =>
        if sinks.spool ∧ allows sinks.filter "kernel_callback" d.eventType then [encodeDecoded d]
        else []
      | .error _ => [] := by
  obtain ⟨f, console, spool, detection⟩ := sinks
  rw [pumpEvent, encodeKernelEvent, encodeKernelEventAndLog]
  dsimp only
  rcases decodeKernelEvent env buf with e | d
  · cases detection <;> cases spool <;> rfl
  · cases h : allows f "kernel_callback" d.eventType <;> cases detection <;> cases spool <;>
      simp [bind, Except.bind, pure, Except.pure, decodedToLogEvent, h]

theorem pumpEvent_processed (sinks : Sinks) (f g : Option Filter) (env : KernelEnv)
    (buf : List UInt8) (now : ℕ) :
    (pumpEvent (sinks.withFilter f) env buf now).processed
      = (pumpEvent (sinks.withFilter g) env buf now).processed := by
  unfold pumpEvent
  cases hd : sinks.detection with
  | true =>
    simp only [Sinks.withFilter, hd, if_true]
    cases encodeKernelEventAndLog env buf now <;> rfl
  | false =>
    simp only [Sinks.withFilter, hd]
    cases sinks.spool with
    | false => rfl
    | true =>
      -- only lines come out of this branch
      have hnone (filter : Option Filter) :
          (match encodeKernelEvent filter env buf with
            | .ok (some line) => ({ submitted := [line] } : Outputs)
            | .ok none => {}
            | .error _ => {}).processed = [] := by
        rcases encodeKernelEvent filter env buf with e | _ | line <;> rfl
      simp [hnone]

theorem emitEvent_processed (sinks : Sinks) (f : Option Filter) (manifest : PluginManifest)
    (identity : ClientIdentity) (sessionId : String) (ev : Event) (nowNs : UInt64) (now : ℕ) :
    (emitEvent manifest identity sessionId (sinks.withFilter f) ev nowNs now).processed
      = if allows f "plugin" "plugin_event" ∧ sinks.detection then [logEventOf ev now] else [] := by
  rw [emitEvent]
  cases h : allows f "plugin" "plugin_event" <;> cases hd : sinks.detection <;>
    simp [Sinks.withFilter, h, hd]

/-- Per input, the filter may only take the event away. -/
theorem processed_sublist (sinks : Sinks) (f : Option Filter) (x : Input) :
    (ingest (sinks.withFilter f) x).processed
      <+ (ingest (sinks.withFilter noFilter) x).processed := by
  cases x with
  | kernel env buf now =>
    exact (pumpEvent_processed sinks f noFilter env buf now) ▸ List.Sublist.refl _
  | plugin manifest identity sessionId ev nowNs now =>
    simp only [ingest, emitEvent_processed, allows_noFilter]
    cases sinks.detection <;> cases allows f "plugin" "plugin_event" <;> simp

theorem processed_eq_iff (sinks : Sinks) (f : Option Filter) (x : Input) :
    (ingest (sinks.withFilter f) x).processed = (ingest (sinks.withFilter noFilter) x).processed ↔
      sinks.detection = false ∨ allows f "plugin" "plugin_event" = true ∨ ¬x.IsPlugin := by
  cases x with
  | kernel env buf now =>
    exact iff_of_true (pumpEvent_processed sinks f noFilter env buf now)
      (.inr (.inr not_false))
  | plugin manifest identity sessionId ev nowNs now =>
    simp only [ingest, emitEvent_processed, allows_noFilter, Input.IsPlugin]
    cases sinks.detection <;> cases allows f "plugin" "plugin_event" <;> simp

theorem submitted_sublist_of_input (sinks : Sinks) (f : Option Filter) (x : Input) :
    (ingest (sinks.withFilter f) x).submitted
      <+ (ingest (sinks.withFilter noFilter) x).submitted := by
  cases x with
  | kernel env buf now =>
    simp only [ingest, pumpEvent_submitted]
    rcases decodeKernelEvent env buf with e | d
    · exact List.Sublist.refl _
    · cases hf : allows f "kernel_callback" d.eventType <;> cases hs : sinks.spool <;>
        simp [Sinks.withFilter, hf, hs]
  | plugin manifest identity sessionId ev nowNs now =>
    unfold ingest emitEvent
    cases hf : allows f "plugin" "plugin_event" <;> cases hs : sinks.spool <;>
      simp [Sinks.withFilter, hf, hs]

/-! ### All inputs -/

theorem flatMap_sublist {α β : Type} {f g : α → List β} (h : ∀ x, f x <+ g x) (xs : List α) :
    xs.flatMap f <+ xs.flatMap g := by
  induction xs with
  | nil => exact List.Sublist.refl _
  | cons x xs ih => exact (h x).append ih

/-- Where every part is a sublist of its counterpart, the wholes are equal only if the parts
are. -/
theorem flatMap_eq_flatMap_iff {α β : Type} {f g : α → List β} {xs : List α}
    (h : ∀ x, f x <+ g x) : xs.flatMap f = xs.flatMap g ↔ ∀ x ∈ xs, f x = g x := by
  induction xs with
  | nil => simp
  | cons x xs ih =>
    rw [List.flatMap_cons, List.flatMap_cons, List.forall_mem_cons, ← ih]
    constructor
    · intro heq
      have hxs : (xs.flatMap f).length ≤ (xs.flatMap g).length := (flatMap_sublist h xs).length_le
      have hx : (f x).length ≤ (g x).length := (h x).length_le
      have hlen := congrArg List.length heq
      simp only [List.length_append] at hlen
      exact List.append_inj heq (by omega)
    · rintro ⟨hx, hxs⟩
      rw [hx, hxs]

/-- On the spool the filter only leaves lines out. -/
theorem spooled_sublist (sinks : Sinks) (f : Option Filter) (xs : List Input) :
    spooled (sinks.withFilter f) xs <+ spooled (sinks.withFilter noFilter) xs :=
  flatMap_sublist (submitted_sublist_of_input sinks f) xs

/-- **What the filter does to detection.** Detection is handed the same events, in the same order,
as with the empty filter exactly if it is off, or the filter lets plugin events pass, or there are
none. Kernel events always get through. -/
theorem detected_eq_iff (sinks : Sinks) (f : Filter) (xs : List Input) :
    detected (sinks.withFilter (some f)) xs = detected (sinks.withFilter noFilter) xs ↔
      sinks.detection = false ∨ f.allows "plugin" "plugin_event" = true ∨
        ∀ x ∈ xs, ¬x.IsPlugin := by
  unfold detected
  rw [flatMap_eq_flatMap_iff (processed_sublist sinks (some f))]
  simp only [processed_eq_iff]
  change (∀ x ∈ xs, _ ∨ f.allows "plugin" "plugin_event" = true ∨ _) ↔ _
  constructor
  · intro h
    by_cases hd : sinks.detection = false
    · exact .inl hd
    by_cases hf : f.allows "plugin" "plugin_event" = true
    · exact .inr (.inl hf)
    exact .inr (.inr fun x hx => ((h x hx).resolve_left hd).resolve_left hf)
  · rintro (hd | hf | hxs) x hx
    · exact .inl hd
    · exact .inr (.inl hf)
    · exact .inr (.inr (hxs x hx))

/-! ### The pump with and without detection -/

/-- A buffer as the pump gets it: what Windows answers about the event, the bytes, and the clock. -/
structure Buffer where
  env : KernelEnv
  bytes : List UInt8
  now : ℕ

/-- The lines that the pump submits to the spool, one buffer after the other. -/
def pumpLines (sinks : Sinks) (buffers : List Buffer) : List String :=
  buffers.flatMap fun b => (pumpEvent sinks b.env b.bytes b.now).submitted

/-- **Detection changes no line.** The branch with detection encodes and then asks the filter, the
other one asks first; the lines are the same, of every sequence of buffers. -/
theorem pumpLines_detection (sinks : Sinks) (buffers : List Buffer) :
    pumpLines (sinks.withDetection true) buffers
      = pumpLines (sinks.withDetection false) buffers := by
  have hline (b : Buffer) :
      (pumpEvent (sinks.withDetection true) b.env b.bytes b.now).submitted
        = (pumpEvent (sinks.withDetection false) b.env b.bytes b.now).submitted := by
    rw [pumpEvent_submitted, pumpEvent_submitted]
    rfl
  exact congrArg (buffers.flatMap ·) (funext hline)

/-! ### One filter -/

/-- An allow-list of kernel events, and an agent with a detection engine behind it. -/
def kernelOnly : Filter := .fromSection { modules := ["kernel_callback"] }

/-- A filter that leaves plugin events out, with the spool and the engine on. -/
def detecting : Sinks where
  filter := some kernelOnly
  consoleOutput := false
  spool := true
  detection := true

/-- A plugin event. -/
def login : Input :=
  .plugin
    { pluginId := "acme", name := "Acme Telemetry", expectedPath := "C:\\Acme\\p.exe",
      expectedSha256 := none, expectedSigner := some "CN=Acme Corp", revoked := false,
      autoLaunch := false, env := [] }
    { pid := 4242, imagePath := OsString.ofString "C:\\Acme\\p.exe" } "s-1"
    { seq := 1, tsUnixNs := 0, kind := "app.login", payload := ⟨.object [], rfl⟩ } 0 0

/-- With that filter the engine never sees the event, which it sees with an empty one. -/
theorem detected_kernelOnly_ne :
    detected (detecting.withFilter (some kernelOnly)) [login]
      ≠ detected (detecting.withFilter noFilter) [login] := by
  decide

end Ingestion

end WazabiAgent
