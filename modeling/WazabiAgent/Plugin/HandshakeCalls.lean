import WazabiAgent.Agent.SystemCalls
import WazabiAgent.Lib.Contract

/-!
# What the handshake checks

`validate_handshake` reads the image of the plugin through an open file, in pieces, and has BCrypt
hash them. Here the calls get a meaning: a file has a content, a read takes a part of what is left
of it, and BCrypt computes SHA-256 of what it was given. With faults any of these calls may fail
as well.

The three places of the agent that hash a file then agree: the handshake, the installation of a
package, and the quarantine, which has an implementation of its own.

## Main definitions

* `Machine`, `Machine.Does` — the files, and what a call does
* `Machine.host` — what the model of the handshake asks of it

## Main results

* `file_hashes_agree` — one hash for each file
* `handshake_over_calls` — the handshake over the calls is the handshake of the model
-/

namespace WazabiAgent

namespace Win32

open Prog Plugin

/-! ### Files and hashes -/

/-- What Windows says of the process at the other end of the pipe. -/
structure Client where
  pid : Option UInt32
  /-- The process can be opened. -/
  opens : Bool
  imageName : Option (List ℕ)
  lastError : ℕ

/-- The files of the machine and the client of the pipe, with what is left to read and what was
hashed. -/
structure Machine where
  files : String → Option (List UInt8)
  /-- The file has a signature that `WinVerifyTrust` accepts. -/
  signed : String → Bool
  client : Client
  sessionId : String
  /-- Whether the pipe takes a frame. -/
  written : Except String Unit
  /-- What is left to read from an open file. -/
  remaining : ℕ → List UInt8 := fun _ => []
  /-- What a hash was given. -/
  fed : ℕ → List UInt8 := fun _ => []
  /-- What the client is going to send. -/
  inbound : Inbound
  /-- What the session has done. -/
  trace : Trace := {}

/-- The counters that belong to the session. -/
def Counter.add (t : Trace) : Counter → Trace
  | .sessionsAccepted => t
  | .sessionsRejected => { t with sessionsRejected := t.sessionsRejected + 1 }
  | .eventsReceived => { t with eventsReceived := t.eventsReceived + 1 }
  | .eventsInvalid => { t with eventsInvalid := t.eventsInvalid + 1 }

namespace Machine

/-- What is left to read of an open file. -/
def setRemaining (m : Machine) (h : ℕ) (bytes : List UInt8) : Machine :=
  { m with remaining := Function.update m.remaining h bytes }

/-- What a hash was given. -/
def setFed (m : Machine) (hash : ℕ) (bytes : List UInt8) : Machine :=
  { m with fed := Function.update m.fed hash bytes }

variable (parse : List UInt8 → Except String ClientFrame) (faults : Bool)

/-- What a call does. A file that is there can be opened, unless there are `faults`; no read is
empty before the end. -/
def Does : {β : Type} → Call β → Machine → β → Machine → Prop
  | _, .createFile path, m, h, m' =>
    if h = invalidHandleValue then m' = m ∧ (faults = true ∨ m.files path = none)
    else ∃ bytes, m.files path = some bytes ∧ m' = m.setRemaining h bytes
  | _, .readFile h, m, some chunk, m' =>
    ∃ rest, m.remaining h = chunk ++ rest ∧ (chunk = [] → rest = []) ∧ m' = m.setRemaining h rest
  | _, .readFile _, m, none, m' => m' = m ∧ faults = true
  | _, .openAlgorithmProvider, m, .ok _, m' => m' = m
  | _, .openAlgorithmProvider, m, .error _, m' => m' = m ∧ faults = true
  | _, .createHash _, m, .ok hash, m' => m' = m.setFed hash []
  | _, .createHash _, m, .error _, m' => m' = m ∧ faults = true
  | _, .hashData hash bytes, m, status, m' =>
    if status = 0 then m' = m.setFed hash (m.fed hash ++ bytes) else m' = m ∧ faults = true
  | _, .finishHash hash, m, .ok digest, m' => m' = m ∧ digest = Fips180.sha256 (m.fed hash)
  | _, .finishHash _, m, .error _, m' => m' = m ∧ faults = true
  | _, .verifyTrust path, m, (status, _), m' =>
    m' = m ∧ (status = 0 → m.signed path = true) ∧
      (m.signed path = true → status = 0 ∨ faults = true)
  | _, .getNamedPipeClientProcessId _, m, pid, m' => m' = m ∧ pid = m.client.pid
  | _, .openProcess _, m, h, m' => m' = m ∧ (h = 0 ↔ m.client.opens = false)
  | _, .queryFullProcessImageName _, m, name, m' => m' = m ∧ name = m.client.imageName
  | _, .lastError, m, err, m' => m' = m ∧ err = m.client.lastError
  | _, .genSessionId _, m, sessionId, m' => m' = m ∧ sessionId = m.sessionId
  | _, .readFrame _, m, read, m' =>
    (read, m') = ((readFrame parse m.inbound).1,
      { m with inbound := (readFrame parse m.inbound).2 })
  | _, .writeFrame _ frame, m, answer, m' =>
    answer = m.written ∧
      m' = { m with trace := { m.trace with written := m.trace.written ++ [frame] } }
  | _, .emitEvent e, m, _, m' =>
    m' = { m with trace := { m.trace with emitted := m.trace.emitted ++ [e] } }
  | _, .count counter, m, _, m' => m' = { m with trace := counter.add m.trace }
  | _, _, m, _, m' => m' = m

variable {parse faults}

/-- The SHA-256 of a file, in hexadecimal. -/
def sha256 (m : Machine) (path : String) : Option String :=
  (m.files path).map fun bytes => Control.hexText (Fips180.sha256 bytes)

/-- The machine, as the model of the handshake sees it. -/
def host (m : Machine) (toLowercase : String → String) : Host where
  toLowercase := toLowercase
  sha256FileHex path := m.sha256 path.toStringLossy
  verifyAuthenticode path := m.signed path.toStringLossy

/-- All is the same but what is open. -/
def Same (m m' : Machine) : Prop :=
  ∃ remaining fed, m' = { m with remaining := remaining, fed := fed }

theorem Same.refl (m : Machine) : Same m m := ⟨m.remaining, m.fed, rfl⟩

theorem same_setRemaining (m : Machine) (h : ℕ) (bytes : List UInt8) :
    Same m (m.setRemaining h bytes) := ⟨_, m.fed, rfl⟩

theorem same_setFed (m : Machine) (hash : ℕ) (bytes : List UInt8) :
    Same m (m.setFed hash bytes) := ⟨m.remaining, _, rfl⟩

theorem Same.trans {m₁ m₂ m₃ : Machine} (h : Same m₁ m₂) (h' : Same m₂ m₃) : Same m₁ m₃ := by
  obtain ⟨_, _, rfl⟩ := h
  obtain ⟨remaining, fed, rfl⟩ := h'
  exact ⟨remaining, fed, rfl⟩

theorem Same.host_eq {m m' : Machine} (h : Same m m') (lower : String → String) :
    m'.host lower = m.host lower := by
  obtain ⟨_, _, rfl⟩ := h
  rfl

end Machine

open Machine

variable {parse : List UInt8 → Except String ClientFrame} {faults : Bool} {n : ℕ} {m : Machine}

/-- The precondition over the machine. -/
abbrev Computes {α : Type} (parse : List UInt8 → Except String ClientFrame) (faults : Bool)
    (p : Prog Call α) (Q : α → Machine → Prop) (m : Machine) : Prop :=
  Ensures (Machine.Does parse faults) Returns p Q m

section

variable {α β : Type} {o : Call β} {f : β → Prog Call α} {Q : α → Machine → Prop}

/-- A call that the machine does not notice. -/
theorem computes_aside (ho : Returns o) (hdoes : ∀ b m', Does parse faults o m b m' → m' = m)
    (hf : ∀ b, Computes parse faults (f b) Q m) : Computes parse faults (call o >>= f) Q m := by
  refine ensures_call ho fun b m' hb => ?_
  rw [hdoes b m' hb]
  exact hf b

end

/-! ### Hashing -/

/-- The hash of `bytes`, or a fault. -/
def Says {ε : Type} (faults : Bool) (expected : Option String) : Except ε String → Prop
  | .ok actual => expected = some actual
  | .error _ => faults = true ∨ expected = none

/-- What has been read was hashed. -/
structure Hashing (bytes : List UInt8) (m : Machine) (h hash : ℕ) (v : Machine) : Prop where
  same : Same m v
  read : v.fed hash ++ v.remaining h = bytes

/-- A turn of either loop: it comes to the end of the file, or is a step towards it. -/
def TurnOk {ε : Type} (faults : Bool) (bytes : List UInt8) (m : Machine) (h hash : ℕ)
    (u : Machine) (r : Option (Except ε Unit)) (v : Machine) : Prop :=
  r.elim (Hashing bytes m h hash v ∧ (v.remaining h).length < (u.remaining h).length) fun r =>
    Same m v ∧ match r with
      | .ok () => v.fed hash = bytes
      | .error _ => faults = true

/-- The program ends with an error and changes no file. -/
def Fails {ε : Type} (parse : List UInt8 → Except String ClientFrame)
    (p : Prog Call (Option (Except ε Unit))) : Prop :=
  ∀ (faults : Bool) (u : Machine),
    Computes parse faults p (fun r v => v = u ∧ ∃ e, r = some (.error e)) u

theorem Hashing.computes_turn {ε : Type} {bytes : List UInt8} {h hash : ℕ} {u : Machine}
    {f : Option (List UInt8) → Prog Call (Option (Except ε Unit))}
    {g : ℕ → Prog Call (Option (Except ε Unit))} (hu : Hashing bytes m h hash u)
    (hnone : Fails parse (f none)) (hend : f (some []) = .pure (some (.ok ())))
    (hsome : ∀ b chunk, f (some (b :: chunk)) = call (.hashData hash (b :: chunk)) >>= g)
    (hzero : g 0 = .pure none) (hfail : ∀ status, status ≠ 0 → Fails parse (g status)) :
    Computes parse faults (call (.readFile h) >>= f) (TurnOk faults bytes m h hash u) u := by
  refine ensures_call trivial fun b u' hb => ?_
  match b, hb with
  | none, ⟨hsame, hfault⟩ =>
    refine ensures_mono (hnone faults u') fun r v ⟨hv, e, hr⟩ => ?_
    subst hr hv hsame
    exact ⟨hu.same, hfault⟩
  | some [], ⟨rest, hrem, hlast, hu'⟩ =>
    obtain rfl : rest = [] := hlast rfl
    subst hu'
    rw [hend]
    refine ⟨hu.same.trans (same_setRemaining _ _ _), ?_⟩
    have hread := hu.read
    rw [hrem, List.append_nil, List.append_nil] at hread
    exact hread
  | some (b :: chunk), ⟨rest, hrem, _, hu'⟩ =>
    subst hu'
    rw [hsome]
    refine ensures_call trivial fun status v hv => ?_
    by_cases hstatus : status = 0
    · subst hstatus
      rw [Machine.Does, if_pos rfl] at hv
      subst hv
      rw [hzero]
      refine ⟨⟨(hu.same.trans (same_setRemaining _ _ _)).trans (same_setFed _ _ _), ?_⟩, ?_⟩
      · have hread := hu.read
        rw [hrem, ← List.append_assoc] at hread
        simpa [setFed, setRemaining] using hread
      · show (Function.update u.remaining h rest h).length < _
        rw [Function.update_self, hrem, List.length_append, List.length_cons]
        omega
    · rw [Machine.Does, if_neg hstatus] at hv
      obtain ⟨rfl, hfault⟩ := hv
      refine ensures_mono (hfail status hstatus faults _) fun r v ⟨hv, e, hr⟩ => ?_
      subst hr hv
      exact ⟨hu.same.trans (same_setRemaining _ _ _), hfault⟩

/-- The loop, with either body. -/
theorem Hashing.computes_loop {ε : Type} {bytes : List UInt8} {h hash : ℕ} {v : Machine}
    {body : Prog Call (Option (Except ε Unit))} {Q : Except ε Unit → Machine → Prop}
    (hv : Hashing bytes m h hash v) (hn : bytes.length < n)
    (hbody : ∀ u, Hashing bytes m h hash u →
      Computes parse faults body (TurnOk faults bytes m h hash u) u)
    (hok : ∀ v, Same m v → v.fed hash = bytes → Q (.ok ()) v)
    (herror : ∀ e v, Same m v → faults = true → Q (.error e) v) :
    Computes parse faults (untilSome .stuck body n) Q v := by
  refine ensures_untilSome (μ := fun v => (v.remaining h).length) hv ?_ fun u hu => ?_
  · refine Nat.lt_of_le_of_lt ?_ hn
    rw [← hv.read, List.length_append]
    exact Nat.le_add_left _ _
  · refine ensures_mono (hbody u hu) fun r v hr => ?_
    match r, hr with
    | none, hr => exact hr
    | some (.ok ()), ⟨hsame, hfed⟩ => exact hok v hsame hfed
    | some (.error e), ⟨hsame, hfault⟩ => exact herror e v hsame hfault

theorem computes_hashChunk {bytes : List UInt8} {h alg hash : ℕ} {u : Machine}
    (hu : Hashing bytes m h hash u) :
    Computes parse faults (hashChunk h alg hash) (TurnOk faults bytes m h hash u) u := by
  refine hu.computes_turn ?_ rfl (fun _ _ => rfl) rfl fun status hstatus faults u => ?_
  · intro faults u
    refine computes_aside trivial (fun _ _ h => h.1) fun err => ?_
    refine computes_aside trivial (fun _ _ h => h) fun _ => ?_
    exact computes_aside trivial (fun _ _ h => h) fun _ => ⟨rfl, _, rfl⟩
  · rw [if_neg hstatus]
    refine computes_aside trivial (fun _ _ h => h) fun _ => ?_
    exact computes_aside trivial (fun _ _ h => h) fun _ => ⟨rfl, _, rfl⟩

theorem computes_packageChunk {bytes : List UInt8} {path : String} {h alg hash : ℕ} {u : Machine}
    (hu : Hashing bytes m h hash u) :
    Computes parse faults (packageChunk path h alg hash) (TurnOk faults bytes m h hash u) u := by
  have hdrop (e : PackageError) : Fails parse (do
      packageChunk.dropAll h alg hash
      return some (Except.error (α := Unit) e)) := by
    intro faults u
    refine computes_aside trivial (fun _ _ h => h) fun _ => ?_
    refine computes_aside trivial (fun _ _ h => h) fun _ => ?_
    exact computes_aside trivial (fun _ _ h => h) fun _ => ⟨rfl, e, rfl⟩
  refine hu.computes_turn ?_ rfl (fun _ _ => rfl) rfl fun status hstatus faults u => ?_
  · intro faults u
    exact computes_aside trivial (fun _ _ h => h.1) fun err => hdrop _ faults u
  · rw [if_neg hstatus]
    exact hdrop _ faults u

/-- A hash that is finished. -/
theorem computes_finishHash {α : Type} {hash : ℕ} {v : Machine}
    {f : Except ℕ (List UInt8) → Prog Call α} {Q : α → Machine → Prop}
    (hok : Computes parse faults (f (.ok (Fips180.sha256 (v.fed hash)))) Q v)
    (herror : ∀ status, faults = true → Computes parse faults (f (.error status)) Q v) :
    Computes parse faults (call (.finishHash hash) >>= f) Q v := by
  refine ensures_call trivial fun b v' hb => ?_
  match b, hb with
  | .ok digest, ⟨hsame, hdigest⟩ =>
    subst hsame hdigest
    exact hok
  | .error status, ⟨hsame, hfault⟩ =>
    subst hsame
    exact herror status hfault

theorem computes_hashOpened {bytes : List UInt8} {h : ℕ} (hrem : m.remaining h = bytes)
    (hn : bytes.length < n) :
    Computes parse faults (hashOpened n h) (fun r v => Same m v ∧
      Says faults (some (Control.hexText (Fips180.sha256 bytes))) r) m := by
  refine ensures_call trivial fun alg m₁ halg => ?_
  match alg, halg with
  | .error status, ⟨hsame, hfault⟩ =>
    subst hsame
    exact ⟨.refl _, .inl hfault⟩
  | .ok alg, hsame =>
    subst hsame
    refine ensures_call trivial fun hash m₂ hhash => ?_
    match hash, hhash with
    | .error status, ⟨hsame, hfault⟩ =>
      subst hsame
      exact computes_aside trivial (fun _ _ h => h) fun _ => ⟨.refl _, .inl hfault⟩
    | .ok hash, hfed =>
      have hstart : Hashing bytes m₁ h hash m₂ := by
        subst hfed
        exact ⟨same_setFed _ _ _, by simpa [setFed] using hrem⟩
      refine ensures_bind.mpr (hstart.computes_loop hn (fun u hu => computes_hashChunk hu) ?_ ?_)
      · intro v hsame hv
        refine computes_finishHash ?_ fun status hfault => ?_
        · refine computes_aside trivial (fun _ _ h => h) fun _ => ?_
          refine computes_aside trivial (fun _ _ h => h) fun _ => ⟨hsame, ?_⟩
          rw [hv]
          rfl
        · refine computes_aside trivial (fun _ _ h => h) fun _ => ?_
          exact computes_aside trivial (fun _ _ h => h) fun _ => ⟨hsame, .inl hfault⟩
      · exact fun e v hsame hfault => ⟨hsame, .inl hfault⟩

/-- The file is opened, or there is none, or there is a fault. -/
theorem computes_createFile {α : Type} {path : String} {f : ℕ → Prog Call α}
    {Q : α → Machine → Prop}
    (hnone : faults = true ∨ m.files path = none → Computes parse faults (f invalidHandleValue) Q m)
    (hsome : ∀ h bytes, h ≠ invalidHandleValue → m.files path = some bytes →
      Computes parse faults (f h) Q (m.setRemaining h bytes)) :
    Computes parse faults (call (.createFile path) >>= f) Q m := by
  refine ensures_call trivial fun h m' hh => ?_
  by_cases hinvalid : h = invalidHandleValue
  · rw [Machine.Does, if_pos hinvalid] at hh
    obtain ⟨rfl, hcause⟩ := hh
    subst hinvalid
    exact hnone hcause
  · rw [Machine.Does, if_neg hinvalid] at hh
    obtain ⟨bytes, hbytes, rfl⟩ := hh
    exact hsome h bytes hinvalid hbytes

/-- The rounds suffice for the file, if there is one. -/
def Enough (n : ℕ) (m : Machine) (path : String) : Prop :=
  ∀ bytes, m.files path = some bytes → bytes.length < n

theorem says_of_cause {ε : Type} {path : String} {e : ε}
    (h : faults = true ∨ m.files path = none) : Says faults (m.sha256 path) (.error e) :=
  h.imp_right fun hnone => by rw [sha256, hnone, Option.map_none]

theorem computes_sha256FileHex (path : OsString) (hn : Enough n m path.toStringLossy) :
    Computes parse faults (sha256FileHex n path) (fun r v => Same m v ∧
      Says faults (m.sha256 path.toStringLossy) r) m := by
  refine computes_createFile (fun hcause => ?_) fun h bytes hvalid hbytes => ?_
  · exact computes_aside trivial (fun _ _ h => h.1) fun _ => ⟨.refl _, says_of_cause hcause⟩
  · rw [if_neg hvalid]
    have hrem : (m.setRemaining h bytes).remaining h = bytes := Function.update_self ..
    refine ensures_bind.mpr (ensures_mono (computes_hashOpened hrem (hn bytes hbytes)) ?_)
    intro r v ⟨hsame, hsays⟩
    refine computes_aside trivial (fun _ _ h => h) fun _ =>
      ⟨(same_setRemaining _ _ _).trans hsame, ?_⟩
    rw [sha256, hbytes]
    exact hsays

theorem computes_hashPackage (path : String) (hn : Enough n m path) :
    Computes parse faults (hashPackage n path) (fun r v => Same m v ∧
      Says faults (m.sha256 path) r) m := by
  refine ensures_call trivial fun alg m₁ halg => ?_
  match alg, halg with
  | .error status, ⟨hsame, hfault⟩ =>
    subst hsame
    exact ⟨.refl _, .inl hfault⟩
  | .ok alg, hsame =>
    subst hsame
    refine ensures_call trivial fun hash m₂ hhash => ?_
    match hash, hhash with
    | .error status, ⟨hsame, hfault⟩ =>
      subst hsame
      exact computes_aside trivial (fun _ _ h => h) fun _ => ⟨.refl _, .inl hfault⟩
    | .ok hash, hfed =>
      refine computes_createFile (fun hcause => ?_) fun h bytes hvalid hbytes => ?_
      · subst hfed
        refine computes_aside trivial (fun _ _ h => h.1) fun _ => ?_
        refine computes_aside trivial (fun _ _ h => h) fun _ => ?_
        refine computes_aside trivial (fun _ _ h => h) fun _ => ?_
        exact ⟨same_setFed _ _ _, says_of_cause hcause⟩
      · subst hfed
        have hbytes : m₁.files path = some bytes := hbytes
        rw [if_neg hvalid]
        have hstart : Hashing bytes m₁ h hash ((m₁.setFed hash []).setRemaining h bytes) :=
          ⟨(same_setFed _ _ _).trans (same_setRemaining _ _ _), by simp [setFed, setRemaining]⟩
        have hsays : m₁.sha256 path = some (Control.hexText (Fips180.sha256 bytes)) := by
          rw [sha256, hbytes, Option.map_some]
        refine ensures_bind.mpr (hstart.computes_loop (hn bytes hbytes)
          (fun u hu => computes_packageChunk hu) ?_ ?_)
        · intro v hsame hv
          refine computes_finishHash ?_ fun status hfault => ?_
          · refine computes_aside trivial (fun _ _ h => h) fun _ => ?_
            refine computes_aside trivial (fun _ _ h => h) fun _ => ?_
            refine computes_aside trivial (fun _ _ h => h) fun _ => ⟨hsame, ?_⟩
            rw [hv]
            exact hsays
          · refine computes_aside trivial (fun _ _ h => h) fun _ => ?_
            refine computes_aside trivial (fun _ _ h => h) fun _ => ?_
            exact computes_aside trivial (fun _ _ h => h) fun _ => ⟨hsame, .inl hfault⟩
        · exact fun e v hsame hfault => ⟨hsame, .inl hfault⟩

/-! ### The handshake -/

theorem computes_verifyAuthenticode (path : OsString) :
    Computes parse faults (verifyAuthenticode path) (fun r v => Same m v ∧
      (r = .ok () → m.signed path.toStringLossy = true) ∧
      (m.signed path.toStringLossy = true → r = .ok () ∨ faults = true)) m := by
  refine ensures_call trivial fun ⟨status, state⟩ m' ⟨hsame, hsound, hcomplete⟩ => ?_
  subst hsame
  refine computes_aside trivial (fun _ _ h => h) fun _ => ?_
  split_ifs with hstatus
  · exact ⟨.refl _, fun _ => hsound hstatus, fun _ => .inl rfl⟩
  · exact ⟨.refl _, nofun, fun h => .inr ((hcomplete h).resolve_left hstatus)⟩

/-- A check over the calls says what the model says, but that a fault counts as a failure. -/
def Agrees (faults : Bool) (expected actual : Bool) : Prop :=
  (actual = true → expected = true) ∧ (faults = false → actual = expected)

/-- The hash check of the model, where the file can be read. -/
theorem hashMatches_of_some {lower : String → String} {path : OsString} {actual : String}
    (h : m.sha256 path.toStringLossy = some actual) (expected : String) :
    Plugin.hashMatches (m.host lower) path (some expected)
      = eqIgnoreAsciiCase actual expected := by
  simp only [Plugin.hashMatches, host]
  rw [h]

theorem hashMatches_of_none {lower : String → String} {path : OsString}
    (h : m.sha256 path.toStringLossy = none) (expected : String) :
    Plugin.hashMatches (m.host lower) path (some expected) = false := by
  simp only [Plugin.hashMatches, host]
  rw [h]

/-- The signature check of the model, where one is asked for. -/
theorem signatureMatches_of_isSome {lower : String → String} {path : OsString}
    {signer : Option String} (h : signer.isSome = true) :
    Plugin.signatureMatches (m.host lower) path signer = m.signed path.toStringLossy := by
  simp [Plugin.signatureMatches, h, host]

theorem signatureMatches_of_isNone {lower : String → String} {path : OsString}
    {signer : Option String} (h : ¬ signer.isSome = true) :
    Plugin.signatureMatches (m.host lower) path signer = true := by
  simp [Plugin.signatureMatches, h]

theorem computes_hashMatches (lower : String → String) (path : OsString)
    (expected : Option String) (hn : Enough n m path.toStringLossy) :
    Computes parse faults (hashMatches n path expected) (fun r v => Same m v ∧
      Agrees faults (Plugin.hashMatches (m.host lower) path expected) r) m := by
  cases expected with
  | none => exact ⟨.refl _, fun _ => rfl, fun _ => rfl⟩
  | some expected =>
    refine ensures_bind.mpr (ensures_mono (computes_sha256FileHex path hn) ?_)
    intro r v hr
    obtain ⟨hsame, hsays⟩ := hr
    cases r with
    | ok actual =>
      have hmatches : Plugin.hashMatches (m.host lower) path (some expected)
          = eqIgnoreAsciiCase actual expected :=
        hashMatches_of_some hsays expected
      exact ⟨hsame, fun h => hmatches.trans h, fun _ => hmatches.symm⟩
    | error e =>
      refine ⟨hsame, nofun, fun hfaults => ?_⟩
      have hnone : m.sha256 path.toStringLossy = none :=
        hsays.resolve_left (by simp [hfaults])
      rw [hashMatches_of_none hnone]

theorem computes_signatureMatches (lower : String → String) (path : OsString)
    (signer : Option String) :
    Computes parse faults (signatureMatches path signer) (fun r v => Same m v ∧
      Agrees faults (Plugin.signatureMatches (m.host lower) path signer) r) m := by
  rw [signatureMatches]
  split_ifs with hsigner
  · refine ensures_bind.mpr (ensures_mono (computes_verifyAuthenticode path) ?_)
    intro r v hr
    obtain ⟨hsame, hsound, hcomplete⟩ := hr
    have hmatches : Plugin.signatureMatches (m.host lower) path signer
        = m.signed path.toStringLossy :=
      signatureMatches_of_isSome hsigner
    cases r with
    | ok u => exact ⟨hsame, fun _ => hmatches.trans (hsound rfl),
        fun _ => (hmatches.trans (hsound rfl)).symm⟩
    | error e =>
      refine ⟨hsame, nofun, fun hfaults => ?_⟩
      rw [hmatches]
      by_contra hsigned
      rcases hcomplete (by simpa using hsigned) with h | h
      · cases h
      · rw [hfaults] at h
        cases h
  · exact ⟨.refl _, fun _ => signatureMatches_of_isNone hsigner,
      fun _ => (signatureMatches_of_isNone hsigner).symm⟩

/-- The verdict over the calls is that of the model, or a fault has led to a refusal. -/
def Refines (faults : Bool) (expected actual : Except RejectReason CheckedManifest) : Prop :=
  (∀ manifest, actual = .ok manifest → expected = .ok manifest) ∧
    (faults = false → actual = expected)

theorem Refines.rfl (r : Except RejectReason CheckedManifest) : Refines faults r r :=
  ⟨fun _ h => h, fun _ => Eq.refl r⟩

/-- A refusal that the model makes too, unless there was a fault. -/
theorem Refines.error {expected : Except RejectReason CheckedManifest} {reason : RejectReason}
    (h : faults = false → expected = .error reason) : Refines faults expected (.error reason) :=
  ⟨nofun, fun hfaults => (h hfaults).symm⟩

/-- The two checks, once the path has been found right. -/
theorem computes_checks (lower : String → String) (identity : ClientIdentity)
    (manifest : CheckedManifest) (hn : Enough n m identity.imagePath.toStringLossy) :
    Computes parse faults (do
        if !(← hashMatches n identity.imagePath manifest.1.expectedSha256) then
          return .error .hashMismatch
        if !(← signatureMatches identity.imagePath manifest.1.expectedSigner) then
          return .error .signatureInvalid
        return .ok manifest)
      (fun r v => Same m v ∧ Refines faults
        (if !Plugin.hashMatches (m.host lower) identity.imagePath manifest.1.expectedSha256 then
            .error .hashMismatch
          else if !Plugin.signatureMatches (m.host lower) identity.imagePath
            manifest.1.expectedSigner then .error .signatureInvalid
          else .ok manifest) r) m := by
  refine ensures_bind.mpr (ensures_mono (computes_hashMatches lower _ _ hn) ?_)
  intro hashOk v ⟨hsame, hsound, hexact⟩
  cases hashOk with
  | false => exact ⟨hsame, .error fun hfaults => by simp [← hexact hfaults]⟩
  | true =>
    rw [hsound rfl]
    refine ensures_bind.mpr (ensures_mono (computes_signatureMatches lower _ _) ?_)
    intro signatureOk u ⟨hsame', hsound, hexact⟩
    rw [hsame.host_eq] at hsound hexact
    cases signatureOk with
    | false =>
      exact ⟨hsame.trans hsame', .error fun hfaults => by simp [← hexact hfaults]⟩
    | true =>
      rw [hsound rfl]
      exact ⟨hsame.trans hsame', .rfl _⟩

theorem computes_validateHandshake (lower : String → String) (hello : Hello)
    (identity : ClientIdentity) (store : ManifestStore)
    (hn : Enough n m identity.imagePath.toStringLossy) :
    Computes parse faults (validateHandshake n lower hello identity store) (fun r v => Same m v ∧
      Refines faults (Plugin.validateHandshake (m.host lower) hello identity store) r) m := by
  rw [validateHandshake, Plugin.validateHandshake]
  split_ifs with hversion
  · exact ⟨.refl _, .rfl _⟩
  · cases store.get hello.pluginId with
    | none => exact ⟨.refl _, .rfl _⟩
    | some manifest =>
      dsimp only
      have hpath : (!pathsMatch (m.host lower) identity.imagePath manifest.1.expectedPath) = true ↔
          lower identity.imagePath.toStringLossy ≠ lower manifest.1.expectedPath := by
        rw [Bool.not_eq_true', pathsMatch, decide_eq_false_iff_not]
        rfl
      simp only [hpath]
      by_cases hrevoked : manifest.1.revoked = true
      · rw [if_pos hrevoked, if_pos hrevoked]
        exact ⟨.refl _, .rfl _⟩
      · rw [if_neg hrevoked, if_neg hrevoked]
        by_cases hpaths :
            lower identity.imagePath.toStringLossy ≠ lower manifest.1.expectedPath
        · rw [if_pos hpaths, if_pos hpaths]
          exact ⟨.refl _, .rfl _⟩
        · rw [if_neg hpaths, if_neg hpaths]
          exact computes_checks lower identity manifest hn

/-- Every call but the one that never returns may return. -/
theorem does_total {β : Type} (o : Call β) (m : Machine) (ho : Returns o) :
    ∃ b m', Machine.Does parse faults o m b m' := by
  cases o with
  | stuck => exact ho.elim
  | createFile path =>
    cases hbytes : m.files path with
    | none => exact ⟨invalidHandleValue, m, by simp [Machine.Does, hbytes]⟩
    | some bytes => exact ⟨0, _, bytes, hbytes, rfl⟩
  | readFile h => exact ⟨some (m.remaining h), _, [], by simp, fun _ => rfl, rfl⟩
  | openAlgorithmProvider => exact ⟨.ok 0, m, rfl⟩
  | createHash alg => exact ⟨.ok 0, _, rfl⟩
  | hashData hash bytes => exact ⟨0, _, by simp [Machine.Does]; rfl⟩
  | finishHash hash => exact ⟨.ok _, m, rfl, rfl⟩
  | verifyTrust path =>
    refine ⟨(if m.signed path then 0 else 1, 0), m, rfl, fun h => ?_, fun h => .inl ?_⟩
    · by_contra hsigned
      simp [hsigned] at h
    · simp [h]
  | readFrame pipe => exact ⟨_, _, rfl⟩
  | store => exact ⟨.empty, m, rfl⟩
  | enumServices scm bufSize => exact ⟨.filled [], m, rfl⟩
  | writeFrame pipe frame => exact ⟨_, _, rfl, rfl⟩
  | openProcess pid =>
    refine ⟨if m.client.opens then 1 else 0, m, rfl, ?_⟩
    cases m.client.opens <;> simp
  | lastError | queryFullProcessImageName | getNamedPipeClientProcessId | genSessionId =>
    exact ⟨_, m, rfl, rfl⟩
  | count | emitEvent => exact ⟨(), _, rfl⟩
  | _ => exact ⟨default, m, rfl⟩

/-- **What the handshake checks.** Over the calls, with rounds enough for the file, the handshake
can always be finished. Without faults its verdict is that of the model, where the hash of the
image is the SHA-256 of its content, however it is read; with faults it may refuse what the model
accepts, but accepts nothing else. -/
theorem handshake_over_calls (parse : List UInt8 → Except String ClientFrame) (faults : Bool)
    (n : ℕ) (lower : String → String) (hello : Hello) (identity : ClientIdentity)
    (store : ManifestStore) (m : Machine) (hn : Enough n m identity.imagePath.toStringLossy) :
    Settles (Machine.Does parse faults) (validateHandshake n lower hello identity store)
      (fun r v => Same m v ∧
        Refines faults (Plugin.validateHandshake (m.host lower) hello identity store) r) m :=
  (computes_validateHandshake lower hello identity store hn).settles does_total

/-- The image of the acme plugin. -/
def acmeImage : List UInt8 := [0x4D, 0x5A, 0x90]

/-- Two frames of one byte. -/
def acmeEvents : Inbound := [.ok [1, 0, 0, 0, 125], .ok [1, 0, 0, 0, 125]]

/-- The machine of the acme plugin, which greets and then sends two events. -/
def acmeMachine : Machine where
  files path := if path = "C:\\Acme\\p.exe" then some acmeImage else none
  signed _ := false
  client := ⟨some 4242, true, some ("C:\\Acme\\p.exe".toList.map Char.toNat), 0⟩
  sessionId := "1"
  written := .ok ()
  inbound := .ok [1, 0, 0, 0, 123] :: acmeEvents

/-- The plugin is enrolled with the hash of its image. -/
def acmeManifest : CheckedManifest where
  val := {
    pluginId := "acme"
    name := "Acme"
    expectedPath := "C:\\Acme\\p.exe"
    expectedSha256 := some "D14214E95C9D1EA850E508DFE27928494F2155A7597E4EA0BAD9F70690ABB397"
    expectedSigner := none
    revoked := false
    autoLaunch := false
    env := [] }
  property := .inl rfl

/-- The store that acme is enrolled in. -/
def acmeStore : ManifestStore where
  manifests := [acmeManifest]
  nodup := List.nodup_singleton _

theorem sha256_acmeImage : Control.hexText (Fips180.sha256 acmeImage)
    = "d14214e95c9d1ea850e508dfe27928494f2155a7597e4ea0bad9f70690abb397" := by
  have hspec : Control.sha256File (.ok () : Except Unit Unit) [.ok acmeImage, .ok []]
      = some (.ok (Control.hexText (Fips180.sha256 acmeImage))) :=
    @Control.sha256File_spec Unit [acmeImage] (by decide) (by decide) []
  have hrun : Control.sha256File (.ok () : Except Unit Unit) [.ok acmeImage, .ok []]
      = some (.ok "d14214e95c9d1ea850e508dfe27928494f2155a7597e4ea0bad9f70690abb397") := by
    decide +kernel
  exact Except.ok.inj (Option.some.inj (hspec.symm.trans hrun))

theorem enough_acme {n : ℕ} (hn : 3 < n) (path : String) : Enough n acmeMachine path := by
  intro bytes h
  simp only [acmeMachine] at h
  split_ifs at h
  obtain rfl := Option.some.inj h
  exact hn

theorem validate_acme : Plugin.validateHandshake (acmeMachine.host id) acmeHello acmeIdentity
    acmeStore = .ok acmeManifest := by
  have hpath : acmeIdentity.imagePath.toStringLossy = "C:\\Acme\\p.exe" :=
    OsString.toStringLossy_ofString _
  have hsha : acmeMachine.sha256 acmeIdentity.imagePath.toStringLossy
      = some "d14214e95c9d1ea850e508dfe27928494f2155a7597e4ea0bad9f70690abb397" := by
    rw [hpath, ← sha256_acmeImage]
    rfl
  have hmatches : Plugin.hashMatches (acmeMachine.host id) acmeIdentity.imagePath
      acmeManifest.1.expectedSha256 = true := by
    rw [acmeManifest, hashMatches_of_some hsha]
    decide +kernel
  have hget : acmeStore.get acmeHello.pluginId = some acmeManifest := rfl
  have hpaths : pathsMatch (acmeMachine.host id) acmeIdentity.imagePath
      acmeManifest.1.expectedPath = true :=
    decide_eq_true (congrArg id hpath)
  rw [Plugin.validateHandshake, if_neg (by decide), hget]
  simp only [hpaths, hmatches]
  rfl

/-- An event that acme sends. -/
def acmeEvent : Event where
  seq := 1
  tsUnixNs := 0
  kind := "app"
  payload := ⟨.object [], Json.wellFormed_object_nil⟩

/-- One byte is the greeting of the acme plugin, and whatever else it sends is its event. -/
def parseHello (bytes : List UInt8) : Except String ClientFrame :=
  if bytes = [123] then .ok (.hello acmeHello) else .ok (.event acmeEvent)

/-- The plugin is accepted; where calls fail, it may be refused. -/
theorem acme_over_calls :
    Plugin.validateHandshake (acmeMachine.host id) acmeHello acmeIdentity acmeStore
        = .ok acmeManifest ∧
      Settles (Machine.Does parseHello true)
        (validateHandshake 4 id acmeHello acmeIdentity acmeStore)
        (fun r v => Same acmeMachine v ∧ Refines true
          (Plugin.validateHandshake (acmeMachine.host id) acmeHello acmeIdentity acmeStore) r)
        acmeMachine :=
  ⟨validate_acme, handshake_over_calls parseHello true 4 id acmeHello acmeIdentity acmeStore
    acmeMachine (enough_acme (by decide) _)⟩

/-! ### One hash for each file -/

/-- **The three hashes of a file.** The handshake, the installation of a package and the
quarantine agree on the hash of a file, in whatever pieces they read it. -/
theorem file_hashes_agree (parse : List UInt8 → Except String ClientFrame) (n : ℕ) (m : Machine)
    (path : String) (bytes : List UInt8) (hbytes : m.files path = some bytes)
    (hn : bytes.length < n) (hlen : bytes.length < 2 ^ 61) :
    ∃ hex : String,
      Settles (Machine.Does parse false) (sha256FileHex n (OsString.ofString path))
        (fun r _ => r = .ok hex) m ∧
      Settles (Machine.Does parse false) (hashPackage n path) (fun r _ => r = .ok hex) m ∧
      ∀ chunks : List (List UInt8), (∀ c ∈ chunks, c ≠ []) → chunks.flatten = bytes →
        Control.sha256File (.ok () : Except Unit Unit) (chunks.map Except.ok ++ [.ok []])
          = some (.ok hex) := by
  have hsha : m.sha256 path = some (Control.hexText (Fips180.sha256 bytes)) := by
    rw [sha256, hbytes, Option.map_some]
  have henough : Enough n m path := fun bytes' h => by
    obtain rfl := Option.some.inj (hbytes.symm.trans h)
    exact hn
  have hok {ε : Type} {r : Except ε String} (h : Says false (m.sha256 path) r) :
      r = .ok (Control.hexText (Fips180.sha256 bytes)) := by
    rw [hsha] at h
    match r, h with
    | .ok actual, h => rw [Option.some.inj h]
    | .error e, h => simp [Says] at h
  refine ⟨Control.hexText (Fips180.sha256 bytes), ?_, ?_, fun chunks hchunks hflat => ?_⟩
  · have hsame : (OsString.ofString path).toStringLossy = path :=
      OsString.toStringLossy_ofString path
    refine Ensures.settles does_total (ensures_mono
      (computes_sha256FileHex (OsString.ofString path) (hsame.symm ▸ henough)) ?_)
    intro r v ⟨_, hsays⟩
    rw [hsame] at hsays
    exact hok hsays
  · refine Ensures.settles does_total (ensures_mono (computes_hashPackage path henough) ?_)
    exact fun r v h => hok h.2
  · subst hflat
    exact Control.sha256File_spec hchunks hlen []

/-- The quarantine reads the image in two pieces. -/
theorem acme_hashes_agree : ∃ hex : String,
    Settles (Machine.Does parseHello false) (sha256FileHex 4 (OsString.ofString "C:\\Acme\\p.exe"))
      (fun r _ => r = .ok hex) acmeMachine ∧
    Settles (Machine.Does parseHello false) (hashPackage 4 "C:\\Acme\\p.exe")
      (fun r _ => r = .ok hex) acmeMachine ∧
    Control.sha256File (.ok () : Except Unit Unit) [.ok [0x4D, 0x5A], .ok [0x90], .ok []]
      = some (.ok hex) := by
  obtain ⟨hex, hhandshake, hpackage, hquarantine⟩ := file_hashes_agree parseHello 4 acmeMachine
    "C:\\Acme\\p.exe" acmeImage rfl (by decide) (by decide)
  exact ⟨hex, hhandshake, hpackage, hquarantine [[0x4D, 0x5A], [0x90]] (by simp) rfl⟩

end Win32

end WazabiAgent
