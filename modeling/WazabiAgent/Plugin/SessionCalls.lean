import WazabiAgent.Plugin.HandshakeCalls

/-!
# A session over the calls

`handle_session` as a program over the Windows calls, on a machine without faults, does what the
model of the session says: the same frames, the same events, the same counts and the same result.
What the model takes as given, the identity of the client and its files, is what the calls find.

## Main definitions

* `Client.identity` — who `identify_client` finds

## Main results

* `session_over_calls` — the session over the calls is the session of the model
-/

namespace WazabiAgent

namespace Win32

open Prog Plugin Machine

variable {parse : List UInt8 → Except String ClientFrame} {faults : Bool} {n pipe : ℕ}
  {lower : String → String} {m : Machine}

/-! ### Who is there -/

/-- Who the client is, or what `identify_client` says otherwise. -/
def Client.identity (c : Client) : Except String ClientIdentity :=
  match c.pid with
  | none => .error ("GetNamedPipeClientProcessId failed: error " ++ toString c.lastError)
  | some pid =>
    if c.opens then
      match c.imageName with
      | none => .error ("QueryFullProcessImageNameW(pid=" ++ toString pid ++ ") failed: error "
          ++ toString c.lastError)
      | some units =>
        .ok { pid := pid, imagePath := OsString.ofString (String.ofList (Binary.utf16Lossy units)) }
    else .error ("OpenProcess(pid=" ++ toString pid ++ ") failed: error " ++ toString c.lastError)

/-- A call that only asks the machine. -/
theorem computes_asks {α β : Type} {o : Call β} {f : β → Prog Call α} {Q : α → Machine → Prop}
    {answer : β} (ho : Returns o)
    (hdoes : ∀ b m', Machine.Does parse faults o m b m' → m' = m ∧ b = answer)
    (hf : Computes parse faults (f answer) Q m) : Computes parse faults (call o >>= f) Q m := by
  refine ensures_call ho fun b m' hb => ?_
  obtain ⟨rfl, rfl⟩ := hdoes b m' hb
  exact hf

theorem computes_identifyClient :
    Computes parse faults (identifyClient pipe) (fun r v => v = m ∧ r = m.client.identity) m := by
  refine computes_asks trivial (fun _ _ h => h) ?_
  cases hpid : m.client.pid with
  | none => exact computes_asks trivial (fun _ _ h => h) ⟨rfl, by simp [Client.identity, hpid]⟩
  | some pid =>
    refine ensures_call trivial fun hProc m' ⟨hsame, hopens⟩ => ?_
    subst hsame
    by_cases hnull : hProc = 0
    · rw [if_pos hnull]
      have hclosed : m'.client.opens = false := hopens.mp hnull
      exact computes_asks trivial (fun _ _ h => h) ⟨rfl, by simp [Client.identity, hpid, hclosed]⟩
    · rw [if_neg hnull]
      have hopen : m'.client.opens = true := by simpa [hnull] using hopens
      refine computes_asks trivial (fun _ _ h => h) ?_
      refine computes_aside trivial (fun _ _ h => h) fun _ => ?_
      cases hname : m'.client.imageName with
      | none =>
        exact computes_asks trivial (fun _ _ h => h)
          ⟨rfl, by simp [Client.identity, hpid, hopen, hname]⟩
      | some units => exact ⟨rfl, by simp [Client.identity, hpid, hopen, hname]⟩

/-! ### The steady state -/

/-- A frame is read, whatever it turns out to be. -/
theorem computes_readFrame {α : Type} {f : FrameRead → Prog Call α} {Q : α → Machine → Prop}
    {read : FrameRead} {s : Inbound} (hread : readFrame parse m.inbound = (read, s))
    (hf : Computes parse faults (f read) Q { m with inbound := s }) :
    Computes parse faults (call (.readFrame pipe) >>= f) Q m := by
  refine ensures_call trivial fun b m' hb => ?_
  obtain ⟨rfl, rfl⟩ := Prod.mk.inj hb
  rw [hread]
  exact hf

theorem computes_count {α : Type} {counter : Counter} {f : Unit → Prog Call α}
    {Q : α → Machine → Prop}
    (hf : Computes parse faults (f ()) Q { m with trace := counter.add m.trace }) :
    Computes parse faults (call (.count counter) >>= f) Q m := by
  refine ensures_call trivial fun b m' hb => ?_
  rw [show m' = _ from hb]
  exact hf

/-- The loop of the model goes on from here to `t`. -/
def Leads (parse : List UInt8 → Except String ClientFrame) (manifest : PluginManifest)
    (identity : ClientIdentity) (sessionId : String) (t : Trace) (v : Machine) : Prop :=
  sessionLoop parse manifest identity sessionId v.trace v.inbound = t

variable {manifest : PluginManifest} {identity : ClientIdentity} {sessionId : String} {t : Trace}

/-- One turn of the loop is one turn of the model. -/
theorem Leads.computes_turn {u : Machine} (hu : Leads parse manifest identity sessionId t u) :
    Computes parse faults (sessionTurn pipe manifest identity sessionId)
      (fun r v => r.elim (Leads parse manifest identity sessionId t v ∧
        Inbound.size v.inbound < Inbound.size u.inbound) fun _ => v.trace = t) u := by
  rw [Leads, sessionLoop] at hu
  cases hread : readFrame parse u.inbound with
  | mk read s =>
    refine computes_readFrame hread ?_
    rw [hread] at hu
    cases read with
    | error e => exact computes_count hu
    | ok read =>
      cases read with
      | none => exact hu
      | some frame =>
        cases frame with
        | event ev =>
          refine computes_count (ensures_call trivial fun _ v hv => ?_)
          rw [show v = _ from hv]
          exact ⟨hu, size_lt_of_readFrame hread⟩
        | heartbeat seq => exact ⟨hu, size_lt_of_readFrame hread⟩
        | hello hello => exact computes_count hu
        | goodbye => exact hu

theorem computes_loop {u : Machine} (hu : Leads parse manifest identity sessionId t u)
    (hn : Inbound.size u.inbound < n) :
    Computes parse faults (untilSome .stuck (sessionTurn pipe manifest identity sessionId) n)
      (fun _ v => v.trace = t) u :=
  ensures_untilSome (μ := fun v => Inbound.size v.inbound) hu hn fun _ h => h.computes_turn

/-! ### The session -/

theorem computes_reject {reason : RejectReason} :
    Computes parse faults (reject pipe reason) (fun _ v => v.trace = { m.trace with
      written := m.trace.written ++ [.reject reason.asStr]
      sessionsRejected := m.trace.sessionsRejected + 1 }) m := by
  refine computes_count (ensures_call trivial fun b v ⟨_, hv⟩ => ?_)
  rw [hv]
  rfl

/-- A session that is refused at its first frame has written the refusal, and nothing else. -/
theorem computes_refusal {reason : RejectReason} {e : String} (htrace : m.trace = {}) :
    Computes parse faults (do
      reject pipe reason
      return (Except.error e : Except String Unit))
      (fun r v => (v.trace, r) =
        ({ written := [.reject reason.asStr], sessionsRejected := 1 }, .error e)) m := by
  refine ensures_bind.mpr (ensures_mono computes_reject fun _ v hv => ?_)
  refine Prod.ext ?_ rfl
  rw [hv, htrace]
  rfl

/-- What the session has done, and its result. -/
def Outcome (parse : List UInt8 → Except String ClientFrame) (lower : String → String)
    (store : ManifestStore) (m : Machine) : Trace × Except String Unit :=
  Plugin.handleSession parse (m.host lower) m.client.identity store m.sessionId m.written m.inbound

/-- The rounds suffice for the image, if the client is identified, and for what it sends. -/
def Ample (n : ℕ) (m : Machine) : Prop :=
  (∀ identity, m.client.identity = .ok identity → Enough n m identity.imagePath.toStringLossy) ∧
    Inbound.size m.inbound < n

theorem computes_handleSession (store : ManifestStore) (htrace : m.trace = {}) (hn : Ample n m) :
    Computes parse false (handleSession n lower pipe store)
      (fun r v => (v.trace, r) = Outcome parse lower store m) m := by
  refine ensures_bind.mpr (ensures_mono computes_identifyClient fun r v hfound => ?_)
  obtain ⟨hv, hr⟩ := hfound
  subst hv hr
  rw [Outcome]
  cases hidentity : v.client.identity with
  | error e => exact Prod.ext htrace rfl
  | ok identity =>
    rw [Plugin.handleSession]
    dsimp only
    cases hread : readFrame parse v.inbound with
    | mk read s =>
      refine computes_readFrame hread ?_
      cases read with
      | error e => exact computes_refusal htrace
      | ok read =>
        cases read with
        | none => exact computes_refusal htrace
        | some frame =>
          cases frame with
          | event | heartbeat | goodbye => exact computes_refusal htrace
          | hello hello =>
            have henough : Enough n { v with inbound := s } identity.imagePath.toStringLossy :=
              hn.1 identity hidentity
            refine ensures_bind.mpr (ensures_mono
              (computes_validateHandshake lower hello identity store henough) ?_)
            intro verdict u hchecked
            obtain ⟨⟨remaining, fed, rfl⟩, hrefines⟩ := hchecked
            have hverdict :
                verdict = Plugin.validateHandshake (v.host lower) hello identity store :=
              hrefines.2 rfl
            dsimp only
            rw [← hverdict]
            cases verdict with
            | error reason => exact computes_refusal htrace
            | ok manifest =>
              refine computes_asks trivial (fun _ _ h => h) ?_
              refine ensures_call trivial fun written w hdoes => ?_
              obtain ⟨hwritten, hw⟩ := hdoes
              subst hw
              dsimp only at hwritten
              rw [← hwritten]
              cases written with
              | error e =>
                refine Prod.ext ?_ rfl
                dsimp only
                rw [htrace]
                rfl
              | ok sent =>
                refine ensures_bind.mpr (ensures_mono (computes_loop (t := _) rfl ?_) ?_)
                · exact (size_lt_of_readFrame hread).trans hn.2
                · intro _ u hu
                  refine Prod.ext ?_ rfl
                  dsimp only
                  rw [hu, htrace]
                  rfl

/-- **A session over the calls.** On a machine without faults, with rounds enough, the program of
`handle_session` can always be finished; what it has done then, and its result, are those of the
model, for the client and the files that the calls have found. -/
theorem session_over_calls (parse : List UInt8 → Except String ClientFrame) (n pipe : ℕ)
    (lower : String → String) (store : ManifestStore) (m : Machine) (htrace : m.trace = {})
    (hn : Ample n m) :
    Settles (Machine.Does parse false) (handleSession n lower pipe store)
      (fun r v => (v.trace, r) = Plugin.handleSession parse (m.host lower) m.client.identity store
        m.sessionId m.written m.inbound) m :=
  (computes_handleSession store htrace hn).settles does_total

theorem handleSession_of_hello {parse : List UInt8 → Except String ClientFrame}
    {host : Plugin.Host} {hello : Hello} {identity : ClientIdentity} {store : ManifestStore}
    {manifest : CheckedManifest} {sessionId : String} {s s' : Inbound}
    (hread : readFrame parse s = (.ok (some (.hello hello)), s'))
    (hvalid : Plugin.validateHandshake host hello identity store = .ok manifest) :
    Plugin.handleSession parse host (.ok identity) store sessionId (.ok ()) s
      = (sessionLoop parse manifest.1 identity sessionId
          { written := [.helloAck (helloAck sessionId)] } s', .ok ()) := by
  rw [Plugin.handleSession]
  simp only [hread, hvalid]

/-- The acme plugin is accepted, and both of its events are emitted. -/
theorem acme_session :
    Settles (Machine.Does parseHello false) (handleSession 16 id 8 acmeStore)
        (fun r v => (v.trace, r) = Plugin.handleSession parseHello (acmeMachine.host id)
          acmeMachine.client.identity acmeStore acmeMachine.sessionId acmeMachine.written
          acmeMachine.inbound) acmeMachine ∧
      (Plugin.handleSession parseHello (acmeMachine.host id) acmeMachine.client.identity acmeStore
        acmeMachine.sessionId acmeMachine.written acmeMachine.inbound).1.emitted.length = 2 := by
  refine ⟨session_over_calls parseHello 16 8 id acmeStore acmeMachine rfl
    ⟨fun _ _ => enough_acme (by decide) _, by decide⟩, ?_⟩
  have hidentity : acmeMachine.client.identity = .ok acmeIdentity := rfl
  have hgreet : readFrame parseHello acmeMachine.inbound
      = (.ok (some (.hello acmeHello)), acmeEvents) := rfl
  have hfirst : readFrame parseHello acmeEvents
      = (.ok (some (.event acmeEvent)), [.ok [1, 0, 0, 0, 125]]) := rfl
  have hsecond : readFrame parseHello [.ok [1, 0, 0, 0, 125]]
      = (.ok (some (.event acmeEvent)), []) := rfl
  have hend : readFrame parseHello [] = (.ok none, []) := rfl
  have hwritten : acmeMachine.written = .ok () := rfl
  rw [hidentity, hwritten, handleSession_of_hello hgreet validate_acme]
  dsimp only
  rw [sessionLoop, hfirst]
  dsimp only
  rw [sessionLoop, hsecond]
  dsimp only
  rw [sessionLoop, hend]
  rfl

end Win32

end WazabiAgent
