import WazabiAgent.Etw.Providers
import WazabiAgent.Ipc.RoundTrip
import WazabiAgent.Plugin.EmitEvent
import WazabiAgent.Polling.Mirror

/-!
# The lines of all sources

Four sources hand lines to the spools: the kernel loop, the plugin sessions, the callbacks of the
ETW session and the two polling threads. What is shipped is the text of these lines one after the
other, and the server has nothing but the line breaks to tell them apart by.

This file takes the lines of any sources in any order, and reads the text with the reader of
`Lib/JsonRead.lean`. A payload of a plugin is arbitrary, but it came through a JSON parser itself.

## Main definitions

* `Submits` — a line of one of the sources

## Main results

* `lines_read_back` — the text is the documents of the lines, and nothing else
* `telemetry_read_back` — the text of kernel events is what the driver had to say
-/

namespace WazabiAgent

/-! ### Payloads of kernel events -/

namespace Ipc

theorem readable_num (n : ℕ) : (num n).readable = true := Json.readable_nat n

theorem readable_insertText {obj : List (String × Json)} (h : (Json.object obj).readable = true)
    (key text : String) : (Json.object (insertText key text obj)).readable = true := by
  rw [insertText]
  split_ifs
  · exact h
  · exact Json.readable_insert h (Json.readable_string text)

theorem readable_insertSome {obj : List (String × Json)} (h : (Json.object obj).readable = true)
    (key : String) {value : Option Json} (hvalue : ∀ v ∈ value, v.readable = true) :
    (Json.object (insertSome key value obj)).readable = true := by
  cases value with
  | none => exact h
  | some v => exact Json.readable_insert h (hvalue v rfl)

theorem readable_insertUser {obj : List (String × Json)} (h : (Json.object obj).readable = true)
    (env : KernelEnv) (userSid : String) :
    (Json.object (insertUser env userSid obj)).readable = true := by
  rw [insertUser]
  split_ifs
  · exact h
  · have hsid : (Json.object (Json.insert "user_sid" (.string userSid) obj)).readable = true :=
      Json.readable_insert h (Json.readable_string userSid)
    dsimp only
    cases env.resolveUser userSid with
    | none => exact hsid
    | some account =>
      exact Json.readable_insert (Json.readable_insert (Json.readable_insert hsid
        (Json.readable_string _)) (Json.readable_string _)) (Json.readable_string _)

theorem readable_insertIntegrity {obj : List (String × Json)}
    (h : (Json.object obj).readable = true) (il : ℕ) :
    (Json.object (insertIntegrity il obj)).readable = true := by
  rw [insertIntegrity]
  split_ifs
  · exact h
  · exact Json.readable_insert (Json.readable_insert h (readable_num il)) (Json.readable_string _)

/-- Whatever bytes an encoder is given, its payload can be read. -/
def Encodes (payload : Except String Json) : Prop := ∀ p, payload = .ok p → p.readable = true

theorem encodes_ok {p : Json} (h : p.readable = true) : Encodes (.ok p) := by
  intro q hq
  obtain rfl := Except.ok.inj hq
  exact h

theorem encodes_of_read {α : Type} {sizeOf : ℕ} {read : Binary.Reader α} {buf : List UInt8}
    {size : ℕ} {name : String} {body : α → Except String Json} (h : ∀ evt, Encodes (body evt)) :
    Encodes ((readPacked sizeOf read buf size name).bind body) := by
  intro p hp
  cases hread : readPacked sizeOf read buf size name with
  | error e =>
    rw [hread] at hp
    cases hp
  | ok evt =>
    rw [hread] at hp
    exact h evt p hp

theorem encodes_processCreate (env : KernelEnv) (buf : List UInt8) (size : ℕ) :
    Encodes (encodeProcessCreate env buf size) := by
  refine encodes_of_read fun evt => encodes_ok ?_
  refine readable_insertSome (readable_insertSome (readable_insertIntegrity (readable_insertUser
    (readable_insertText (readable_insertText (readable_insertText (Json.readable_ofMembers ?_)
    _ _) _ _) _ _) env _) _) _ ?_) _ ?_
  · simp [readable_num]
  · intro v hv
    obtain ⟨n, -, rfl⟩ := Option.map_eq_some_iff.mp hv
    exact readable_num n
  · intro v hv
    obtain ⟨b, -, rfl⟩ := Option.map_eq_some_iff.mp hv
    exact Json.readable_bool b

theorem encodes_registry (buf : List UInt8) (size : ℕ) : Encodes (encodeRegistry buf size) := by
  refine encodes_of_read fun evt => ?_
  have hmembers (text : String) (keyPath : String) : (Json.object (insertText "value_name" text
      (Json.ofMembers [("pid", num evt.processId), ("op", .string (registryOpName evt.operation)),
        ("op_code", num evt.operation), ("key_path", .string keyPath)]))).readable = true :=
    readable_insertText (Json.readable_ofMembers (by simp [readable_num])) _ _
  dsimp only
  by_cases hop : evt.operation = 1
  · rw [if_pos hop]
    exact encodes_ok (Json.readable_insert (Json.readable_insert (Json.readable_insert
      (Json.readable_insert (hmembers _ _) (readable_num _)) (readable_num _))
      (Json.readable_string _)) (Json.readable_bool _))
  · rw [if_neg hop]
    exact encodes_ok (hmembers _ _)

/-- Any of the encoders, on any bytes. -/
theorem readable_of_encodePayload {env : KernelEnv} {buf : List UInt8} {h : EventHeader}
    {kind eventType : String} {p : Json}
    (hp : encodePayload env buf h = .ok (kind, eventType, p)) : p.readable = true := by
  have hnamed {kind' eventType' : String} {payload : Except String Json}
      (hpayload : Encodes payload)
      (h : (payload.map fun p => (kind', eventType', p)) = .ok (kind, eventType, p)) :
      p.readable = true := by
    cases payload with
    | error e => cases h
    | ok q =>
      obtain ⟨-, -, rfl⟩ : kind' = kind ∧ eventType' = eventType ∧ q = p := by
        simpa [Except.map] using h
      exact hpayload q rfl
  have hmembers {α : Type} {sizeOf size : ℕ} {read : Binary.Reader α} {name : String}
      {members : α → List (String × Json)}
      (h : ∀ evt, ∀ member ∈ members evt, member.2.readable = true) :
      Encodes ((readPacked sizeOf read buf size name).bind fun evt =>
        .ok (.object (Json.ofMembers (members evt)))) :=
    encodes_of_read fun evt => encodes_ok (Json.readable_ofMembers (h evt))
  rw [encodePayload] at hp
  dsimp only at hp
  split at hp
  · exact hnamed (encodes_processCreate env buf h.size) hp
  · exact hnamed (hmembers fun evt => by simp [readable_num]) hp
  · exact hnamed (hmembers fun evt => by simp [readable_num]) hp
  · exact hnamed (encodes_registry buf h.size) hp
  · exact hnamed (hmembers fun evt => by simp [readable_num]) hp
  · exact hnamed (hmembers fun evt => by simp [readable_num]) hp
  · exact hnamed (hmembers fun evt => by simp [readable_num]) hp
  · have hother : Encodes (.ok (.object (Json.ofMembers [("type", num h.type),
        ("size", num h.size)]))) :=
      encodes_ok (Json.readable_ofMembers (by simp [readable_num]))
    exact hnamed hother hp

theorem readable_of_decodeKernelEvent {env : KernelEnv} {buf : List UInt8} {d : DecodedKernel}
    (h : decodeKernelEvent env buf = .ok d) : d.payload.readable = true := by
  rw [decodeKernelEvent] at h
  dsimp only at h
  split_ifs at h
  obtain ⟨⟨kind, eventType, p⟩, hp, rfl⟩ : ∃ r, encodePayload env buf _ = .ok r ∧ _ = d := by
    cases hp : encodePayload env buf (EventHeader.read.run buf).1 with
    | error e =>
      rw [hp] at h
      cases h
    | ok r =>
      rw [hp] at h
      exact ⟨r, hp, Except.ok.inj h⟩
  exact readable_of_encodePayload hp

theorem readable_extractProcess {payload process : Json}
    (h : extractProcess payload = some process) : process.readable = true := by
  obtain ⟨pid, -, h⟩ := Option.bind_eq_some_iff.mp h
  split_ifs at h
  obtain rfl := Option.some.inj h
  have hmember {α : Type} (o : Option α) (name : String) {value : α → Json}
      (hvalue : ∀ a, (value a).readable = true) :
      ∀ f ∈ o.map fun a => (name, value a), f.2.readable = true := by
    intro f hf
    obtain ⟨a, -, rfl⟩ := Option.mem_map.mp hf
    exact hvalue a
  refine Json.readable_reduceOption ?_
  simp only [List.forall_mem_cons, List.not_mem_nil, false_imp_iff, implies_true, and_true]
  exact ⟨hmember (some pid) _ readable_num, hmember _ _ readable_num,
    hmember _ _ Json.readable_string, hmember _ _ Json.readable_string,
    hmember _ _ Json.readable_string, hmember _ _ Json.readable_string,
    hmember _ _ Json.readable_string, hmember _ _ Json.readable_string,
    hmember _ _ Json.readable_string, hmember _ _ readable_num, hmember _ _ Json.readable_bool⟩

theorem readable_envelope {d : DecodedKernel} (h : d.payload.readable = true) :
    (envelope d).readable = true := by
  refine Json.readable_reduceOption ?_
  simp only [List.forall_mem_cons, List.not_mem_nil, false_imp_iff, implies_true, and_true,
    Option.mem_some_iff, forall_eq', Json.readable_string, readable_num, true_and]
  refine ⟨?_, h, Json.readable_int d.tsFt100ns, ?_, ?_⟩
  · intro f hf
    obtain ⟨process, hprocess, rfl⟩ := Option.mem_map.mp hf
    exact readable_extractProcess hprocess
  · intro f hf
    split_ifs at hf
    · cases hf
    · obtain rfl := Option.some.inj hf
      exact readable_num d.dropCount
  · intro f hf
    split_ifs at hf
    · cases hf
    · obtain rfl := Option.some.inj hf
      exact readable_num d.truncCount

/-- What the kernel loop submits, with or without detection. -/
theorem line_of_encodeKernelEvent {filter : Option Detection.Filter} {env : KernelEnv}
    {buf : List UInt8} {line : String}
    (h : encodeKernelEvent filter env buf = .ok (some line)) :
    ∃ doc : Json, doc.readable = true ∧ line = doc.compact ++ "\n" := by
  rw [encodeKernelEvent] at h
  cases hd : decodeKernelEvent env buf with
  | error e =>
    rw [hd] at h
    cases h
  | ok d =>
    rw [hd] at h
    change (if !Detection.allows filter "kernel_callback" d.eventType then .ok none
      else .ok (some (encodeDecoded d))) = Except.ok (some line) at h
    split_ifs at h
    · cases h
    · obtain rfl := Option.some.inj (Except.ok.inj h)
      exact ⟨envelope d, readable_envelope (readable_of_decodeKernelEvent hd), rfl⟩

end Ipc

/-! ### Payloads of plugins -/

namespace Plugin

theorem readable_insertNew {fields : List (String × Json)} {key : String} {value : Json}
    (h : (Json.object fields).readable = true) (hvalue : value.readable = true) :
    (Json.object (insertNew fields key value)).readable = true := by
  rw [insertNew]
  split_ifs
  · exact h
  · exact Json.readable_insert h hvalue

theorem readable_enrich {payload : Json} (h : payload.readable = true) :
    (enrichWithXmlDataFields payload).readable = true := by
  unfold enrichWithXmlDataFields
  cases payload with
  | object fields =>
    dsimp only
    split
    · next s _ =>
      rw [enrichFields]
      refine List.foldlRecOn (motive := fun fs => (Json.object fs).readable = true) _ _ ?_
        fun fs hfs kv _ => readable_insertNew hfs (Json.readable_string kv.2)
      cases scanEventId s.toList with
      | none => exact h
      | some id => exact readable_insertNew h (Json.readable_nat id)
    · exact h
  | null | bool _ | number _ | string _ | array _ => exact h

theorem readable_eventObject {manifest : PluginManifest} {identity : ClientIdentity}
    {sessionId : String} {ev : Event} (h : ev.payload.1.readable = true) (nowNs : UInt64) :
    (Json.object (eventObject manifest identity sessionId ev nowNs)).readable = true :=
  Json.readable_insert (Json.readable_ofMembers (by simp [envelopeMembers])) (readable_enrich h)

end Plugin

/-! ### The text of any lines -/

namespace Agent

/-- A line that one of the sources hands to a spool. -/
inductive Submits : String → Prop
  /-- The kernel loop, on any bytes of the driver. -/
  | kernel {filter : Option Detection.Filter} {env : Ipc.KernelEnv} {buf : List UInt8}
      {line : String} (h : Ipc.encodeKernelEvent filter env buf = .ok (some line)) : Submits line
  /-- A plugin session. The numbers of a payload that was read are numbers. -/
  | plugin {manifest : Plugin.PluginManifest} {identity : Plugin.ClientIdentity}
      {sessionId : String} {sinks : Detection.Sinks} {ev : Plugin.Event} {nowNs : UInt64} {now : ℕ}
      {line : String} (hpayload : ev.payload.1.readable = true)
      (h : line ∈ (Plugin.emitEvent manifest identity sessionId sinks ev nowNs now).submitted) :
      Submits line
  /-- The polling thread of the services. -/
  | services {prev next : Polling.Snapshots} {evt : Polling.PersistenceEvent} (ts : String)
      (h : evt ∈ Polling.diffAndEmit prev next) : Submits (evt.intoNdjsonLine ts)
  /-- That of the tasks. -/
  | tasks {prev next : Polling.TaskSnapshots} {evt : Polling.PersistenceEvent} (ts : String)
      (h : evt ∈ Polling.diffAndEmitTasks prev next) : Submits (evt.intoNdjsonLine ts)
  /-- A callback of the ETW session. -/
  | etw {p : Etw.Provider} {record : Etw.Record} {evt : Etw.EtwEvent} (ts : String)
      (h : p.handle record = some (some evt)) : Submits (evt.intoNdjsonLine ts)

/-- A line is one document. -/
theorem Submits.document {line : String} (h : Submits line) :
    ∃ doc : Json, doc.readable = true ∧ line = doc.compact ++ "\n" := by
  cases h with
  | kernel h => exact Ipc.line_of_encodeKernelEvent h
  | plugin hpayload h =>
    rw [(Plugin.emitEvent_submitsLine _ _ _ _).submitted] at h
    split_ifs at h
    · exact ⟨_, Plugin.readable_eventObject hpayload _, List.mem_singleton.mp h⟩
    · cases h
  | services ts h =>
    exact ⟨_, Polling.PersistenceEvent.readable_envelope (Polling.readable_of_diffAndEmit h) ts,
      rfl⟩
  | tasks ts h =>
    exact ⟨_, Polling.PersistenceEvent.readable_envelope (Polling.readable_of_diffAndEmitTasks h)
      ts, rfl⟩
  | etw ts h => exact ⟨_, Etw.readable_envelope (Etw.Provider.describes h).readable ts, rfl⟩

/-- The documents of some lines. -/
theorem documents_of_submits {lines : List String} (h : ∀ line ∈ lines, Submits line) :
    ∃ docs : List Json, (∀ doc ∈ docs, doc.readable = true) ∧
      docs.map (fun doc => doc.compact ++ "\n") = lines := by
  induction lines with
  | nil => exact ⟨[], by simp, rfl⟩
  | cons line lines ih =>
    obtain ⟨hline, hlines⟩ := List.forall_mem_cons.mp h
    obtain ⟨doc, hdoc, rfl⟩ := hline.document
    obtain ⟨docs, hdocs, rfl⟩ := ih hlines
    exact ⟨doc :: docs, List.forall_mem_cons.mpr ⟨hdoc, hdocs⟩, rfl⟩

/-- The text of some documents, one on a line, is read back. -/
theorem parseLines_documents {docs : List Json} (h : ∀ doc ∈ docs, doc.readable = true) :
    Json.parseLines ((docs.map fun doc => doc.compact ++ "\n").flatMap String.toList)
      = some docs := by
  have htext : (docs.map fun doc => doc.compact ++ "\n").flatMap String.toList
      = docs.flatMap fun doc => doc.compactChars ++ ['\n'] := by
    rw [List.flatMap_map]
    refine List.flatMap_congr fun doc _ => ?_
    rw [String.toList_append, Json.compact, String.toList_ofList]
    rfl
  rw [htext, Json.parseLines_lines h]

/-- **What is shipped can be read.** The text of any lines of the sources, one after the other, is
read as one document for each line, in their order, and each line is the encoding of its
document. -/
theorem lines_read_back {lines : List String} (h : ∀ line ∈ lines, Submits line) :
    ∃ docs : List Json, Json.parseLines (lines.flatMap String.toList) = some docs ∧
      docs.map (fun doc => doc.compact ++ "\n") = lines := by
  obtain ⟨docs, hdocs, rfl⟩ := documents_of_submits h
  exact ⟨docs, parseLines_documents hdocs, rfl⟩

/-- A query that was answered. -/
def answered : Etw.Record where
  eventId := Etw.Dns.evtCompleted
  processId := 4711
  text name :=
    if name = "QueryName" then some "example.org"
    else if name = "QueryResults" then some "1:192.0.2.7;"
    else none
  number _ := none
  address _ := none
  port _ := none

/-- A DNS query that was answered. -/
def answeredEvent : Etw.EtwEvent where
  eventType := "dns_query"
  kind := "DnsQuery"
  eventVersion := 1
  pid := some 4711
  processName := none
  payload := .object (Json.ofMembers [("pid", .number "4711"),
    ("query_name", .string "example.org"), ("query_type", .number "0"),
    ("query_status", .number "0"), ("answers", .array [.string "1:192.0.2.7"]),
    ("timed_out", .bool false)])

/-- Its line in the spool. -/
def answeredLine : String := answeredEvent.intoNdjsonLine "2024-01-01T00:00:01.000Z"

theorem two_lines_read_back :
    ∃ docs : List Json,
      Json.parseLines ([Ipc.terminatedLine, answeredLine].flatMap String.toList) = some docs ∧
        docs.map (fun doc => doc.compact ++ "\n") = [Ipc.terminatedLine, answeredLine] := by
  have hkernel : Ipc.encodeKernelEvent none Ipc.quietEnv (Ipc.terminated.bytes ++ [])
      = .ok (some Ipc.terminatedLine) := Ipc.encodeKernelEvent_bytes _ (.inl rfl) _ _
  have hdns : Etw.Provider.dns.handle answered = some (some answeredEvent) := rfl
  exact lines_read_back (List.forall_mem_cons.mpr
    ⟨.kernel hkernel, List.forall_mem_singleton.mpr (.etw _ hdns)⟩)

/-! ### Kernel events in a stream -/

/-- **What the driver had to say arrives.** However many packed events of the current version the
driver delivers, each with anything behind it, the kernel loop submits a line for each; and from
the text of the lines a reader recovers the telemetry of the events, in their order. -/
theorem telemetry_read_back {filter : Option Detection.Filter}
    (hfilter : filter = none ∨ filter = Detection.noFilter) (env : Ipc.KernelEnv)
    (ds : List (Ipc.Delivery × List UInt8)) :
    ∃ (lines : List String) (docs : List Json),
      ds.map (fun d => Ipc.encodeKernelEvent filter env (d.1.bytes ++ d.2))
        = lines.map (fun line => .ok (some line)) ∧
      Json.parseLines (lines.flatMap String.toList) = some docs ∧
      docs.map (fun doc => Ipc.Telemetry.ofJson (doc.toValue id))
        = ds.map fun d => some d.1.telemetry := by
  have hreadable : ∀ doc ∈ ds.map fun d => Ipc.envelope (d.1.decoded env),
      doc.readable = true := by
    intro doc hdoc
    obtain ⟨d, -, rfl⟩ := List.mem_map.mp hdoc
    exact Ipc.readable_envelope
      (Ipc.readable_of_decodeKernelEvent (Ipc.decodeKernelEvent_bytes env d.1 d.2))
  refine ⟨_, _, ?_, parseLines_documents hreadable, ?_⟩
  · rw [List.map_map, List.map_map]
    refine List.map_congr_left fun d _ => ?_
    exact Ipc.encodeKernelEvent_bytes env hfilter d.1 d.2
  · rw [List.map_map]
    refine List.map_congr_left fun d _ => ?_
    exact Ipc.ofJson_envelope env d.1

/-- A thread is started in another process. -/
def remoteThread : Ipc.Delivery where
  timestamp := 133485408000000001
  dropCount := 0
  truncCount := 1
  event := .threadCreate 4242 17 815

/-- Two deliveries, one of them with bytes behind it. -/
theorem terminated_read_back :
    ∃ (lines : List String) (docs : List Json),
      [(Ipc.terminated, [0, 0]), (remoteThread, [])].map
          (fun d => Ipc.encodeKernelEvent none Ipc.quietEnv (d.1.bytes ++ d.2))
        = lines.map (fun line => .ok (some line)) ∧
      Json.parseLines (lines.flatMap String.toList) = some docs ∧
      docs.map (fun doc => Ipc.Telemetry.ofJson (doc.toValue id))
        = [some Ipc.terminated.telemetry, some remoteThread.telemetry] :=
  telemetry_read_back (.inl rfl) Ipc.quietEnv [(Ipc.terminated, [0, 0]), (remoteThread, [])]

end Agent

end WazabiAgent
