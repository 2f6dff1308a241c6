import WazabiAgent.Plugin.Protocol

/-!
# One plugin session

`handle_session` (`plugin/server.rs`): the client is identified by the system, must introduce
itself with an acceptable `Hello`, and is then read until it says anything but an event or a
heartbeat.

What a session does to its surroundings is its `Trace`: the frames it hands to `write_frame`, its
calls of `emit_event`, and its increments of the statistics, which other sessions share. A session
writes one frame at most, and whether the pipe takes it matters only for the acknowledgement; it
is the parameter `ackWrite`.

## Main results

* `sessionLoop_eq` — the loop, in terms of the reads of the connection
* `session_protocol` — what is written, emitted and counted
-/

namespace WazabiAgent

namespace Plugin

/-- `HEARTBEAT_SEC`. -/
def heartbeatSec : ℕ := 30

/-- `CARGO_PKG_VERSION`. -/
def serverVersion : String := "0.1.0"

/-- A call of `emit_event`. -/
structure Emission where
  manifest : PluginManifest
  identity : ClientIdentity
  sessionId : String
  event : Event

/-- What a session has written, emitted and counted. -/
structure Trace where
  written : List ServerFrame := []
  emitted : List Emission := []
  sessionsRejected : ℕ := 0
  eventsReceived : ℕ := 0
  eventsInvalid : ℕ := 0

/-- Count an event, and emit it. -/
def Trace.emit (t : Trace) (e : Emission) : Trace :=
  { t with eventsReceived := t.eventsReceived + 1, emitted := t.emitted ++ [e] }

section Session

variable (parse : List UInt8 → Except String ClientFrame)

/-- The steady state. -/
def sessionLoop (manifest : PluginManifest) (identity : ClientIdentity) (sessionId : String)
    (t : Trace) (s : Inbound) : Trace :=
  match _h : readFrame parse s with
  | (.ok (some (.event ev)), s') =>
    sessionLoop manifest identity sessionId (t.emit ⟨manifest, identity, sessionId, ev⟩) s'
  | (.ok (some (.heartbeat _)), s') => sessionLoop manifest identity sessionId t s'
  | (.ok (some (.hello _)), _) => { t with eventsInvalid := t.eventsInvalid + 1 }
  | (.ok (some .goodbye), _) => t
  | (.ok none, _) => t
  | (.error _, _) => { t with eventsInvalid := t.eventsInvalid + 1 }
termination_by Inbound.size s
decreasing_by all_goals exact size_lt_of_readFrame _h

/-- The answer to a Hello that is accepted. -/
def helloAck (sessionId : String) : HelloAck where
  sessionId := sessionId
  serverVersion := serverVersion
  maxPayloadBytes := maxFrameBytes
  heartbeatSec := heartbeatSec

/-- `handle_session`. -/
def handleSession (host : Host) (identity : Except String ClientIdentity) (store : ManifestStore)
    (sessionId : String) (ackWrite : Except String Unit) (s : Inbound) :
    Trace × Except String Unit :=
  match identity with
  | .error e => ({}, .error ("identity: " ++ e))
  | .ok identity =>
    match readFrame parse s with
    | (.ok (some (.hello hello)), s') =>
      match validateHandshake host hello identity store with
      | .error reason =>
        ({ written := [.reject reason.asStr], sessionsRejected := 1 },
          .error ("rejected: " ++ reason.asStr))
      | .ok manifest =>
        let t : Trace := { written := [.helloAck (helloAck sessionId)] }
        match ackWrite with
        | .error e => (t, .error ("write HelloAck: " ++ e))
        | .ok () => (sessionLoop parse manifest.1 identity sessionId t s', .ok ())
    | _ =>
      ({ written := [.reject RejectReason.badHandshake.asStr], sessionsRejected := 1 },
        .error "bad first frame")

end Session

/-! ### What the reads ask for -/

/-- The session goes on after this read. -/
def FrameRead.continues : FrameRead → Bool
  | .ok (some (.event _)) | .ok (some (.heartbeat _)) => true
  | _ => false

/-- The event, if an event was read. -/
def FrameRead.event? : FrameRead → Option Event
  | .ok (some (.event ev)) => some ev
  | _ => none

/-- The events before the first `Hello`, `Goodbye`, end or error. -/
def sessionEvents (reads : List FrameRead) : List Event :=
  (reads.takeWhile FrameRead.continues).filterMap FrameRead.event?

@[simp] theorem sessionEvents_event (ev : Event) (reads : List FrameRead) :
    sessionEvents (.ok (some (.event ev)) :: reads) = ev :: sessionEvents reads := rfl

@[simp] theorem sessionEvents_heartbeat (seq : UInt64) (reads : List FrameRead) :
    sessionEvents (.ok (some (.heartbeat seq)) :: reads) = sessionEvents reads := rfl

/-- The manifest that a read binds the session to: it is a `Hello` and passes the handshake. -/
def FrameRead.accepted? (host : Host) (identity : ClientIdentity) (store : ManifestStore) :
    FrameRead → Option CheckedManifest
  | .ok (some (.hello hello)) => (validateHandshake host hello identity store).toOption
  | _ => none

/-- `t'` is `t` after the events `evs`, and possibly a violation of the protocol. -/
structure Trace.Emits (manifest : PluginManifest) (identity : ClientIdentity) (sessionId : String)
    (evs : List Event) (t t' : Trace) : Prop where
  written : t'.written = t.written
  emitted : t'.emitted = t.emitted ++ evs.map fun ev => ⟨manifest, identity, sessionId, ev⟩
  received : t'.eventsReceived = t.eventsReceived + evs.length
  rejected : t'.sessionsRejected = t.sessionsRejected

variable {parse : List UInt8 → Except String ClientFrame} {manifest : PluginManifest}
  {identity : ClientIdentity} {sessionId : String}

theorem Trace.Emits.nil (t : Trace) (invalid : ℕ) :
    Trace.Emits manifest identity sessionId [] t { t with eventsInvalid := invalid } := by
  constructor <;> simp

theorem Trace.Emits.cons {ev : Event} {evs : List Event} {t t' : Trace}
    (h : Trace.Emits manifest identity sessionId evs (t.emit ⟨manifest, identity, sessionId, ev⟩)
      t') :
    Trace.Emits manifest identity sessionId (ev :: evs) t t' where
  written := h.written
  emitted := by rw [h.emitted, List.map_cons, Trace.emit, List.append_assoc]; rfl
  received := by
    rw [h.received, Trace.emit, List.length_cons]
    dsimp only
    omega
  rejected := h.rejected

/-- The loop emits what the reads ask for. -/
theorem sessionLoop_emits (t : Trace) (s : Inbound) :
    Trace.Emits manifest identity sessionId (sessionEvents (frameReads parse s)) t
      (sessionLoop parse manifest identity sessionId t s) := by
  induction t, s using sessionLoop.induct parse manifest identity sessionId with
  | case1 t s ev s' h ih =>
    rw [sessionLoop, h, frameReads_of_frame h, sessionEvents_event]
    exact ih.cons
  | case2 t s seq s' h ih =>
    rw [sessionLoop, h, frameReads_of_frame h, sessionEvents_heartbeat]
    exact ih
  | case3 t s hello s' h =>
    rw [sessionLoop, h, frameReads_of_frame h]
    exact .nil t _
  | case4 t s s' h =>
    rw [sessionLoop, h, frameReads_of_frame h]
    exact .nil t t.eventsInvalid
  | case5 t s s' h =>
    rw [sessionLoop, h, frameReads_of_closed h]
    exact .nil t t.eventsInvalid
  | case6 t s e s' h =>
    rw [sessionLoop, h, frameReads_of_error h]
    exact .nil t _

/-- The first read is the first of all reads. -/
theorem frameReads_eq_cons (parse : List UInt8 → Except String ClientFrame) (s : Inbound) :
    ∃ rest, frameReads parse s = (readFrame parse s).1 :: rest := by
  cases h : readFrame parse s with
  | mk r s' =>
    rcases r with e | _ | frame
    · exact ⟨[], frameReads_of_error h⟩
    · exact ⟨[], frameReads_of_closed h⟩
    · exact ⟨_, frameReads_of_frame h⟩

theorem accepted?_eq_some_iff {host : Host} {store : ManifestStore} {first : FrameRead}
    {m : CheckedManifest} :
    first.accepted? host identity store = some m ↔
      ∃ hello, first = .ok (some (.hello hello)) ∧
        validateHandshake host hello identity store = .ok m := by
  rcases first with e | _ | frame
  · simp [FrameRead.accepted?]
  · simp [FrameRead.accepted?]
  · cases frame with
    | hello hello =>
      cases hv : validateHandshake host hello identity store <;>
        simp [FrameRead.accepted?, hv, Except.toOption]
    | event ev => simp [FrameRead.accepted?]
    | heartbeat seq => simp [FrameRead.accepted?]
    | goodbye => simp [FrameRead.accepted?]

/-- Anything but an acceptable `Hello`. -/
theorem handleSession_of_not_accepted {host : Host} {store : ManifestStore}
    {ackWrite : Except String Unit} {first : FrameRead} {s s' : Inbound}
    (hread : readFrame parse s = (first, s'))
    (hfirst : first.accepted? host identity store = none) :
    ∃ reason, (handleSession parse host (.ok identity) store sessionId ackWrite s).1
      = { written := [.reject reason], sessionsRejected := 1 } := by
  rw [handleSession]
  dsimp only
  rw [hread]
  rcases first with e | _ | frame
  · exact ⟨_, rfl⟩
  · exact ⟨_, rfl⟩
  · cases frame with
    | hello hello =>
      cases hv : validateHandshake host hello identity store with
      | ok m => simp [FrameRead.accepted?, hv, Except.toOption] at hfirst
      | error reason => exact ⟨reason.asStr, by simp [hv]⟩
    | event ev => exact ⟨_, rfl⟩
    | heartbeat seq => exact ⟨_, rfl⟩
    | goodbye => exact ⟨_, rfl⟩

theorem handleSession_of_accepted {host : Host} {store : ManifestStore} (sessionId : String)
    (ackWrite : Except String Unit) {first : FrameRead} {rest : List FrameRead} {s s' : Inbound}
    {m : CheckedManifest} (hread : readFrame parse s = (first, s'))
    (hfirst : first.accepted? host identity store = some m)
    (hrest : frameReads parse s = first :: rest) :
    let t := (handleSession parse host (.ok identity) store sessionId ackWrite s).1
    (∃ ack, t.written = [.helloAck ack]) ∧
      (t.emitted = if ackWrite = .ok () then
        (sessionEvents rest).map fun ev => ⟨m.1, identity, sessionId, ev⟩ else []) ∧
      t.eventsReceived = t.emitted.length := by
  obtain ⟨hello, rfl, hv⟩ := accepted?_eq_some_iff.mp hfirst
  obtain rfl : frameReads parse s' = rest := by
    rw [frameReads_of_frame hread] at hrest
    exact (List.cons.inj hrest).2
  rw [handleSession]
  dsimp only
  rw [hread]
  dsimp only
  rw [hv]
  cases ackWrite with
  | error e => simp
  | ok u =>
    obtain ⟨hwritten, hemitted, hreceived, -⟩ : Trace.Emits m.1 identity sessionId
        (sessionEvents (frameReads parse s')) { written := [.helloAck (helloAck sessionId)] } _ :=
      sessionLoop_emits _ s'
    refine ⟨⟨_, hwritten⟩, ?_, ?_⟩
    · simpa using hemitted
    · simp [hreceived, hemitted]

/-- **The session protocol.** On an identified connection, a first read that is no acceptable
`Hello` is answered by one `Reject` and nothing else happens. An acceptable one is answered by one
`HelloAck`; if the pipe takes it, every later event is emitted once and in order, up to the first
read that is neither an event nor a heartbeat. What is counted is what is emitted. -/
theorem session_protocol (parse : List UInt8 → Except String ClientFrame) (host : Host)
    (identity : ClientIdentity) (store : ManifestStore) (sessionId : String)
    (ackWrite : Except String Unit) (s : Inbound) :
    let t := (handleSession parse host (.ok identity) store sessionId ackWrite s).1
    ∃ first rest, frameReads parse s = first :: rest ∧
      (first.accepted? host identity store = none →
        (∃ reason, t.written = [.reject reason]) ∧ t.emitted = []) ∧
      (∀ manifest, first.accepted? host identity store = some manifest →
        (∃ ack, t.written = [.helloAck ack]) ∧
          t.emitted = if ackWrite = .ok () then
            (sessionEvents rest).map fun ev => ⟨manifest.1, identity, sessionId, ev⟩ else []) ∧
      t.eventsReceived = t.emitted.length := by
  intro t
  cases hread : readFrame parse s with
  | mk first s' =>
    obtain ⟨rest, hrest⟩ := frameReads_eq_cons parse s
    rw [hread] at hrest
    refine ⟨first, rest, hrest, ?_⟩
    cases hfirst : first.accepted? host identity store with
    | none =>
      obtain ⟨reason, ht⟩ : ∃ reason, t = { written := [.reject reason], sessionsRejected := 1 } :=
        handleSession_of_not_accepted hread hfirst
      simp [ht]
    | some manifest =>
      obtain ⟨hwritten, hemitted, hreceived⟩ :=
        handleSession_of_accepted sessionId ackWrite hread hfirst hrest
      refine ⟨by simp, fun m hm => ?_, hreceived⟩
      obtain rfl := Option.some.inj hm
      exact ⟨hwritten, hemitted⟩

end Plugin

end WazabiAgent
