import WazabiAgent.Plugin.Reload
import WazabiAgent.Plugin.Session
import WazabiAgent.Plugin.SessionCount

/-!
# Which store decides

Three kinds of threads meet in `plugin/server.rs`. The accept loop waits for a client, takes the
live store as it is then, and hands both to a worker. The worker waits for the first frame, as long
as the client likes, and validates it against the store it was handed. The reload loop may replace
the live store at any time.

A step is one operation on what the threads share: the counter of sessions, the lock around the
live store, or the answer to a first frame. What the other threads may do between two of them is
any number of steps.

## Ghost state

`since` has the live store after every tick since a session got its own, and `acks` the
acknowledgements with the store that was live when they were decided.

## Main results

* `seen_of_run` — the live store, from a session's own and what came since
* `admitted_iff_along` — when every acknowledged plugin is enrolled in the live store
-/

namespace WazabiAgent

namespace Plugin

open LabelledStep

/-- The plugin is present, and not revoked. -/
def ManifestStore.Enrols (s : ManifestStore) (pluginId : String) : Prop :=
  ∃ m, s.get pluginId = some m ∧ m.1.revoked = false

theorem enrols_of_validateHandshake {host : Host} {hello : Hello} {identity : ClientIdentity}
    {store : ManifestStore} {m : CheckedManifest}
    (h : validateHandshake host hello identity store = .ok m) : store.Enrols hello.pluginId := by
  obtain ⟨-, hget, hmatches⟩ := validateHandshake_eq_ok_iff.mp h
  exact ⟨m, hget, hmatches.notRevoked⟩

namespace Admission

/-! ### The threads -/

/-- Where the worker of a session stands. -/
inductive Phase
  /-- Between the snapshot and the spawn. -/
  | spawning
  /-- The worker reads the first frame. -/
  | waiting
  | answered
  deriving DecidableEq

/-- A session, with the store that was snapshot for it. -/
structure Session where
  id : ℕ
  /-- `session_store`. -/
  store : ManifestStore
  since : List ManifestStore := []
  phase : Phase := .spawning

/-- What is live, by what the session has seen become live. -/
def Session.live (w : Session) : ManifestStore := w.since.getLastD w.store

/-- An accepted Hello, and the live store of that moment. -/
structure Ack where
  session : ℕ
  hello : Hello
  live : ManifestStore

/-- The acceptor, its sessions and the live store. -/
structure Server where
  reload : Reload
  /-- The connection that the accept loop has counted and taken no snapshot for. -/
  accepting : Option ℕ := none
  sessions : List Session := []
  activeSessions : ℕ := 0
  sessionsAccepted : ℕ := 0
  sessionsRejected : ℕ := 0
  acks : List Ack := []

/-- What happens next. -/
inductive Label
  /-- `wait_for_client` returns a client. -/
  | connect
  /-- The accept loop reads the live store. -/
  | snapshot
  | spawn (ok : Bool)
  /-- One tick of the reload loop. -/
  | tick (ws : Reload.Walks)
  /-- The worker has a first frame, or the client could not be identified. -/
  | answer (id : ℕ) (host : Host) (identity : Except String ClientIdentity) (first : FrameRead)
  /-- The worker ends. -/
  | close (id : ℕ)

namespace Server

/-- The agent as it starts, by what the first load meets. -/
def start (w : FpListing) (l : Listing) : Server where
  reload := .start w l

/-- The session of this id, if it stands there. -/
def find (s : Server) (id : ℕ) (phase : Phase) : Option Session :=
  s.sessions.find? fun w => w.id = id ∧ w.phase = phase

/-- Moves the session on. -/
def setPhase (s : Server) (id : ℕ) (phase : Phase) : Server :=
  { s with sessions := s.sessions.map fun w => if w.id = id then { w with phase := phase } else w }

/-- A session is over. -/
def drop (s : Server) (id : ℕ) : Server :=
  { s with
    sessions := s.sessions.filter fun w => w.id ≠ id
    activeSessions := s.activeSessions - 1 }

/-- The handshake part of `handle_session`. -/
def respond (s : Server) (w : Session) (host : Host) (identity : Except String ClientIdentity)
    (first : FrameRead) : Server :=
  match identity with
  | .error _ => s
  | .ok identity =>
    match first with
    | .ok (some (.hello hello)) =>
      match validateHandshake host hello identity w.store with
      | .ok _ => { s with acks := s.acks ++ [⟨w.id, hello, s.reload.live⟩] }
      | .error _ => { s with sessionsRejected := s.sessionsRejected + 1 }
    | _ => { s with sessionsRejected := s.sessionsRejected + 1 }

/-- One step of the acceptor, a worker or the reload thread. -/
def step (s : Server) : Label → Option Server
  | .connect =>
    if s.accepting.isSome ∨ s.sessions.any (fun w => w.phase = .spawning) then none
    else
      let accepted := s.sessionsAccepted + 1
      if s.activeSessions ≥ maxConcurrentSessions.toNat then
        some { s with sessionsAccepted := accepted, sessionsRejected := s.sessionsRejected + 1 }
      else
        some { s with
          sessionsAccepted := accepted
          activeSessions := s.activeSessions + 1
          accepting := some accepted }
  | .snapshot =>
    s.accepting.map fun id =>
      { s with accepting := none, sessions := s.sessions ++ [⟨id, s.reload.live, [], .spawning⟩] }
  | .spawn ok =>
    (s.sessions.find? fun w => w.phase = .spawning).map fun w =>
      if ok then s.setPhase w.id .waiting else s.drop w.id
  | .tick ws =>
    let reload := s.reload.tick ws.fingerprint ws.listing
    some { s with
      reload := reload
      sessions := s.sessions.map fun w => { w with since := w.since ++ [reload.live] } }
  | .answer id host identity first =>
    (s.find id .waiting).map fun w =>
      (s.respond w host identity first).setPhase id .answered
  | .close id => (s.find id .answered).map fun _ => s.drop id

variable {s t : Server} {l : Label}

/-- All that a step can be. -/
inductive Does (s : Server) : Label → Server → Prop
  | refused (hfull : s.activeSessions ≥ maxConcurrentSessions.toNat) :
    Does s .connect { s with
      sessionsAccepted := s.sessionsAccepted + 1
      sessionsRejected := s.sessionsRejected + 1 }
  | connected (hroom : s.activeSessions < maxConcurrentSessions.toNat) :
    Does s .connect { s with
      sessionsAccepted := s.sessionsAccepted + 1
      activeSessions := s.activeSessions + 1
      accepting := some (s.sessionsAccepted + 1) }
  | snapshot {id : ℕ} (hid : s.accepting = some id) :
    Does s .snapshot { s with
      accepting := none
      sessions := s.sessions ++ [⟨id, s.reload.live, [], .spawning⟩] }
  | spawned (id : ℕ) : Does s (.spawn true) (s.setPhase id .waiting)
  | spawnFailed (id : ℕ) : Does s (.spawn false) (s.drop id)
  | ticked (ws : Reload.Walks) :
    Does s (.tick ws) { s with
      reload := s.reload.tick ws.fingerprint ws.listing
      sessions := s.sessions.map fun w =>
        { w with since := w.since ++ [(s.reload.tick ws.fingerprint ws.listing).live] } }
  | answered {id : ℕ} {host : Host} {identity : Except String ClientIdentity} {first : FrameRead}
    {w : Session} (hw : s.find id .waiting = some w) :
    Does s (.answer id host identity first)
      ((s.respond w host identity first).setPhase id .answered)
  | closed {id : ℕ} : Does s (.close id) (s.drop id)

theorem does_of_step (h : step s l = some t) : Does s l t := by
  cases l with
  | connect =>
    simp only [step] at h
    split_ifs at h with hbusy hfull
    · cases h
      exact .refused hfull
    · cases h
      exact .connected (Nat.lt_of_not_le hfull)
  | snapshot =>
    obtain ⟨id, hid, rfl⟩ := Option.map_eq_some_iff.mp h
    exact .snapshot hid
  | spawn ok =>
    obtain ⟨w, -, rfl⟩ := Option.map_eq_some_iff.mp h
    cases ok with
    | false => exact .spawnFailed w.id
    | true => exact .spawned w.id
  | tick ws =>
    cases h
    exact .ticked ws
  | answer id host identity first =>
    obtain ⟨w, hw, rfl⟩ := Option.map_eq_some_iff.mp h
    exact .answered hw
  | close id =>
    obtain ⟨w, -, rfl⟩ := Option.map_eq_some_iff.mp h
    exact .closed

/-! ### The live store, as a session has seen it -/

theorem respond_sessions (s : Server) (w : Session) (host : Host)
    (identity : Except String ClientIdentity) (first : FrameRead) :
    (s.respond w host identity first).sessions = s.sessions ∧
      (s.respond w host identity first).reload = s.reload := by
  unfold respond
  cases identity with
  | error e => exact ⟨rfl, rfl⟩
  | ok identity =>
    rcases first with e | _ | hello | ev | seq | _
    · exact ⟨rfl, rfl⟩
    · exact ⟨rfl, rfl⟩
    · cases hv : validateHandshake host hello identity w.store <;> simp [hv]
    · exact ⟨rfl, rfl⟩
    · exact ⟨rfl, rfl⟩
    · exact ⟨rfl, rfl⟩

/-- Every session has seen the live store become live. -/
def Seen (s : Server) : Prop := ∀ w ∈ s.sessions, w.live = s.reload.live

theorem Seen.setPhase (h : s.Seen) (id : ℕ) (phase : Phase) : (s.setPhase id phase).Seen := by
  intro w hw
  obtain ⟨v, hv, rfl⟩ := List.mem_map.mp hw
  have hlive := h v hv
  split_ifs
  · exact hlive
  · exact hlive

theorem Seen.drop (h : s.Seen) (id : ℕ) : (s.drop id).Seen :=
  fun w hw => h w (List.mem_of_mem_filter hw)

theorem seen_step (hs : s.Seen) (h : step s l = some t) : t.Seen := by
  cases does_of_step h with
  | refused hfull => exact hs
  | connected hroom => exact hs
  | snapshot hid =>
    intro w hw
    rcases List.mem_append.mp hw with hw | hw
    · exact hs w hw
    · rw [List.mem_singleton.mp hw]
      rfl
  | spawned id => exact hs.setPhase id .waiting
  | spawnFailed id => exact hs.drop id
  | ticked ws =>
    intro w hw
    obtain ⟨v, hv, rfl⟩ := List.mem_map.mp hw
    exact List.getLastD_concat
  | @answered id host identity first w hw =>
    obtain ⟨hsessions, hreload⟩ := respond_sessions s w host identity first
    refine Seen.setPhase (fun v hv => ?_) id .answered
    rw [hreload]
    exact hs v (hsessions ▸ hv)
  | @closed id => exact hs.drop id

theorem seen_of_run {w : FpListing} {listing : Listing} {ls : List Label}
    (hr : run step (start w listing) ls = some s) : s.Seen :=
  invariant_of_run (fun _ _ _ hs hst => seen_step hs hst) (by simp [Seen, start]) hr

/-! ### Which plugins are admitted -/

end Server

/-- A tick since the snapshot has left a store without the plugin, and no later tick has brought it
back. -/
def Session.Withdrawn (w : Session) (pluginId : String) : Prop :=
  ∃ before store after, w.since = before ++ store :: after ∧
    ∀ s ∈ store :: after, ¬ s.Enrols pluginId

theorem Session.withdrawn_iff {w : Session} {pluginId : String} (h : w.store.Enrols pluginId) :
    w.Withdrawn pluginId ↔ ¬ w.live.Enrols pluginId := by
  rw [Withdrawn, live]
  constructor
  · rintro ⟨before, store, after, hsince, hno⟩
    have hlast : w.since.getLastD w.store = after.getLastD store := by
      rw [hsince, List.getLastD_eq_getLast?, List.getLast?_append, List.getLast?_cons]
      simp
    rw [hlast]
    exact hno _ List.getLastD_mem_cons
  · intro hno
    rcases List.eq_nil_or_concat' w.since with hnil | ⟨before, last, hlast⟩
    · rw [hnil] at hno
      exact absurd h hno
    · rw [hlast, List.getLastD_concat] at hno
      exact ⟨before, last, [], hlast, by simpa using hno⟩

namespace Server

variable {s t : Server} {l : Label}

/-- Every acknowledged plugin was enrolled in the live store when its `Hello` was validated. -/
def Admitted (s : Server) : Prop := ∀ a ∈ s.acks, a.live.Enrols a.hello.pluginId

/-- A `Hello` that the session's own store accepts names no plugin that has been withdrawn since. -/
def Current (s : Server) : Label → Prop
  | .answer id host identity first => ∀ w client hello m, s.find id .waiting = some w →
      identity = .ok client → first = .ok (some (.hello hello)) →
      validateHandshake host hello client w.store = .ok m → ¬ w.Withdrawn hello.pluginId
  | _ => True

theorem find_mem {id : ℕ} {phase : Phase} {w : Session} (h : s.find id phase = some w) :
    w ∈ s.sessions := List.mem_of_find?_eq_some h

/-- An answer acknowledges, or leaves the acknowledgements alone. -/
theorem acks_respond (s : Server) (w : Session) (host : Host)
    (identity : Except String ClientIdentity) (first : FrameRead) :
    ((s.respond w host identity first).acks = s.acks ∧
        ∀ client hello m, identity = .ok client → first = .ok (some (.hello hello)) →
          validateHandshake host hello client w.store ≠ .ok m) ∨
      ∃ client hello m, identity = .ok client ∧ first = .ok (some (.hello hello)) ∧
        validateHandshake host hello client w.store = .ok m ∧
        (s.respond w host identity first).acks = s.acks ++ [⟨w.id, hello, s.reload.live⟩] := by
  unfold respond
  cases identity with
  | error e => exact .inl ⟨rfl, fun _ _ _ h => by cases h⟩
  | ok client =>
    rcases first with e | _ | hello | ev | seq | _
    · exact .inl ⟨rfl, fun _ _ _ _ h => by cases h⟩
    · exact .inl ⟨rfl, fun _ _ _ _ h => by cases h⟩
    · cases hv : validateHandshake host hello client w.store with
      | error reason =>
        refine .inl ⟨by simp [hv], ?_⟩
        rintro _ _ m ⟨⟩ ⟨⟩
        simp [hv]
      | ok m => exact .inr ⟨client, hello, m, rfl, rfl, hv, by simp [hv]⟩
    · exact .inl ⟨rfl, fun _ _ _ _ h => by cases h⟩
    · exact .inl ⟨rfl, fun _ _ _ _ h => by cases h⟩
    · exact .inl ⟨rfl, fun _ _ _ _ h => by cases h⟩

/-- One step. -/
theorem admitted_step_iff (hseen : s.Seen) (hs : s.Admitted) (h : step s l = some t) :
    t.Admitted ↔ s.Current l := by
  cases does_of_step h with
  | refused hfull => exact iff_of_true hs trivial
  | connected hroom => exact iff_of_true hs trivial
  | snapshot hid => exact iff_of_true hs trivial
  | spawned id => exact iff_of_true hs trivial
  | spawnFailed id => exact iff_of_true hs trivial
  | ticked ws => exact iff_of_true hs trivial
  | closed => exact iff_of_true hs trivial
  | @answered id host identity first w hw =>
    rw [Current, Admitted]
    change (∀ a ∈ (s.respond w host identity first).acks, a.live.Enrols a.hello.pluginId) ↔ _
    rcases acks_respond s w host identity first with
      ⟨hacks, hno⟩ | ⟨client, hello, m, rfl, rfl, hv, hacks⟩
    · rw [hacks]
      refine iff_of_true hs fun w' client hello m hw' hc hh hv => ?_
      obtain rfl : w = w' := Option.some.inj (hw.symm.trans hw')
      exact absurd hv (hno client hello m hc hh)
    · have hlive : w.live = s.reload.live := hseen w (find_mem hw)
      have hiff := Session.withdrawn_iff (enrols_of_validateHandshake hv)
      rw [hacks]
      constructor
      · rintro hall w' client' hello' m' hw' ⟨⟩ ⟨⟩ hv'
        obtain rfl : w = w' := Option.some.inj (hw.symm.trans hw')
        rw [hiff, hlive, not_not]
        exact hall _ (List.mem_append_right _ (List.mem_singleton_self _))
      · intro hcur a ha
        rcases List.mem_append.mp ha with ha | ha
        · exact hs a ha
        · have hno := hcur w client hello m hw rfl rfl hv
          rw [hiff, hlive, not_not] at hno
          rw [List.mem_singleton.mp ha]
          exact hno

/-- **When the live store decides.** Throughout a run every acknowledged plugin was enrolled in the
live store at the moment of its validation, exactly if no plugin that a session's own store accepts
has been withdrawn since that session was accepted. -/
theorem admitted_iff_along {w : FpListing} {listing : Listing} {ls : List Label}
    (hr : run step (start w listing) ls = some t) :
    (∀ ms rest u, ls = ms ++ rest → run step (start w listing) ms = some u → u.Admitted) ↔
      Along step Current (start w listing) ls := by
  have hseen (u : Server) (hu : Reachable step (start w listing) u) : u.Seen := by
    obtain ⟨ms, hms⟩ := hu
    exact seen_of_run hms
  have hstart : (start w listing).Admitted := by simp [Admitted, start]
  refine forall_split_iff_along hstart ?_ ?_ hr
  · exact fun u l v hu hI hP hst => (admitted_step_iff (hseen u hu) hI hst).mpr hP
  · exact fun u l v hu hI hst hv => (admitted_step_iff (hseen u hu) hI hst).mp hv

/-- A session acknowledges here where `handle_session` does. -/
theorem acks_respond_iff {parse : List UInt8 → Except String ClientFrame} {w : Session}
    {host : Host} {client : ClientIdentity} {first : FrameRead} {inbound rest : Inbound}
    (hread : readFrame parse inbound = (first, rest)) (sessionId : String)
    (ackWrite : Except String Unit) :
    (s.respond w host (.ok client) first).acks ≠ s.acks ↔
      ∃ ack, (handleSession parse host (.ok client) w.store sessionId ackWrite inbound).1.written
        = [.helloAck ack] := by
  rcases acks_respond s w host (.ok client) first with
    ⟨hacks, hno⟩ | ⟨client, hello, m, ⟨⟩, rfl, hv, hacks⟩
  · refine iff_of_false (not_not.mpr hacks) ?_
    rintro ⟨ack, hack⟩
    have hfirst : first.accepted? host client w.store = none := by
      refine Option.eq_none_iff_forall_ne_some.mpr fun m hm => ?_
      obtain ⟨hello, hh, hv⟩ := accepted?_eq_some_iff.mp hm
      exact hno client hello m rfl hh hv
    obtain ⟨reason, hreject⟩ :
        ∃ reason, (handleSession parse host (.ok client) w.store sessionId ackWrite inbound).1
          = { written := [.reject reason], sessionsRejected := 1 } :=
      handleSession_of_not_accepted hread hfirst
    rw [hreject] at hack
    cases hack
  · refine iff_of_true (by rw [hacks]; simp) ?_
    obtain ⟨reads, hreads⟩ := frameReads_eq_cons parse inbound
    rw [hread] at hreads
    exact (handleSession_of_accepted sessionId ackWrite hread
      (accepted?_eq_some_iff.mpr ⟨hello, rfl, hv⟩) hreads).1

/-! ### A client that waits -/

/-- The directory with one manifest. -/
def enrolled : Reload.Walks where
  fingerprint := .entries [some (OsString.ofString "acme.json", some {
    modified := some 1700000000000000000
    len := 231 })]
  listing := .entries (acmeDirectory.entries.map some)

/-- The manifest is gone. -/
def removed : Reload.Walks where
  fingerprint := .entries []
  listing := .entries []

/-- A client connects, and is handed to its worker. -/
def accept : List Label := [.connect, .snapshot, .spawn true]

/-- Acme says hello in the first session. -/
def sayHello : Label := .answer 1 acmeHost (.ok acmeIdentity) (.ok (some (.hello acmeHello)))

/-- The client says `Hello` at once, and its manifest goes later. -/
theorem prompt_admitted :
    (∀ ms rest u, accept ++ [sayHello, .tick removed] = ms ++ rest →
        run step (start enrolled.fingerprint enrolled.listing) ms = some u → u.Admitted) ↔
      Along step Current (start enrolled.fingerprint enrolled.listing)
        (accept ++ [sayHello, .tick removed]) :=
  admitted_iff_along rfl

/-- The client waits until its manifest is gone, and is accepted. -/
theorem removed_plugin_admitted :
    ∃ t, run step (start enrolled.fingerprint enrolled.listing)
        (accept ++ [.tick removed, sayHello]) = some t ∧ ¬ t.Admitted := by
  have hrun : ((run step (start enrolled.fingerprint enrolled.listing)
      (accept ++ [.tick removed, sayHello])).map fun t =>
        t.acks.map fun a => (a.live.get a.hello.pluginId).isSome) = some [false] := by
    decide +kernel
  obtain ⟨t, ht, hacks⟩ := Option.map_eq_some_iff.mp hrun
  obtain ⟨a, ha, hget⟩ := List.map_eq_singleton_iff.mp hacks
  refine ⟨t, ht, fun hall => ?_⟩
  obtain ⟨m, hm, -⟩ := hall a (by rw [ha]; exact List.mem_singleton_self a)
  simp [hm] at hget

end Server

end Admission

end Plugin

end WazabiAgent
