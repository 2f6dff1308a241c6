import WazabiAgent.Agent.SystemCalls

/-!
# No handle is lost, and none is used after it is closed

The threads of the agent that deal in handles: the accept thread of the plugin server, the sessions
it starts, and threads that make any lookups, scans and commands in any order. They run beside each
other, and Windows gives them whatever handles are not open.

## Main definitions

* `Task`, `agent` — the threads

## Main results

* `owns_handleSession`, `owns_acceptTurn`, `owns_enumerateServices` — each function closes what it
  opens, on every path
* `handles_kept` — what follows for all of them together
-/

namespace WazabiAgent

namespace Win32

open Prog Plugin

variable {n c : ℕ} {lower : String → String} {s : List Handle}

/-- The program leaves the handles as they are. -/
abbrev Keeps {α : Type} (n : ℕ) (lower : String → String) (c : ℕ) (p : Prog Call α)
    (s : List Handle) : Prop :=
  Owns (custody n lower) c p (fun _ t => t = s) s

/-- A part of a program that leaves the handles as they are. -/
theorem Keeps.bind {α β : Type} {p : Prog Call α} {f : α → Prog Call β}
    {Q : β → List Handle → Prop} (h : Keeps n lower c p s)
    (hf : ∀ a, Owns (custody n lower) c (f a) Q s) : Owns (custody n lower) c (p >>= f) Q s := by
  refine owns_bind.mpr (owns_mono h fun a t ht => ?_)
  rw [ht]
  exact hf a

/-- A loop that leaves the handles as they are, as each of its turns does. -/
theorem keeps_untilSome {α : Type} {body : Prog Call (Option α)} {m : ℕ} (hlen : s.length ≤ c)
    (h : Keeps n lower c body s) : Keeps n lower c (untilSome .stuck body m) s := by
  refine owns_untilSome (I := fun t => t = s) rfl ?_ ?_ rfl
  · rintro t rfl
    exact hlen
  · rintro t rfl
    exact owns_mono h fun r t ht => by cases r <;> exact ht

section

variable {α β : Type} {o : Call β} {f : β → Prog Call α} {Q : α → List Handle → Prop}

theorem owns_call (hlen : s.length ≤ c) (huses : uses o ⊆ s)
    (hf : ∀ b, Owns (custody n lower) c (f b) Q ((deed n lower o b).left s)) :
    Owns (custody n lower) c (call o >>= f) Q s :=
  ⟨hlen, huses, fun b _ => hf b⟩

/-- A call that opens and closes nothing. -/
theorem owns_plain (hdeed : ∀ b, deed n lower o b = .nothing) (hlen : s.length ≤ c)
    (huses : uses o ⊆ s) (hf : ∀ b, Owns (custody n lower) c (f b) Q s) :
    Owns (custody n lower) c (call o >>= f) Q s := by
  refine owns_call hlen huses fun b => ?_
  rw [hdeed]
  exact hf b

/-- A call that closes the handle that was opened last. -/
theorem owns_close {h : Handle} (hdeed : ∀ b, deed n lower o b = .closes h) (huses : uses o = [h])
    (hlen : s.length < c) (hf : ∀ b, Owns (custody n lower) c (f b) Q s) :
    Owns (custody n lower) c (call o >>= f) Q (h :: s) := by
  refine owns_call hlen (by simp [huses]) fun b => ?_
  rw [hdeed, Deed.left, List.erase_cons_head]
  exact hf b

end

/-- A call that gives a handle or its sentinel. -/
theorem owns_given {α : Type} {o : Call ℕ} {f : ℕ → Prog Call α} {Q : α → List Handle → Prop}
    {kind : HandleKind} {sentinel : ℕ} (hdeed : ∀ h, deed n lower o h = given kind sentinel h)
    (hlen : s.length ≤ c) (huses : uses o ⊆ s)
    (hnone : Owns (custody n lower) c (f sentinel) Q s)
    (hsome : ∀ h, h ≠ sentinel → Owns (custody n lower) c (f h) Q (⟨kind, h⟩ :: s)) :
    Owns (custody n lower) c (call o >>= f) Q s := by
  refine owns_call hlen huses fun h => ?_
  rw [hdeed, given]
  split_ifs with hsentinel
  · subst hsentinel
    exact hnone
  · exact hsome h hsentinel

/-! ### Processes and accounts -/

variable {pipe hProc : ℕ}

theorem keeps_queryToken (cls : TokenClass) (hmem : ⟨.object, hProc⟩ ∈ s) (hlen : s.length < c) :
    Keeps n lower c (queryToken cls hProc) s := by
  refine owns_call hlen.le (by simpa [uses] using hmem) fun b => ?_
  cases b with
  | none => rfl
  | some hTok =>
    refine owns_plain (fun _ => rfl) hlen (by simp [uses, deed, Deed.left]) fun answer => ?_
    exact owns_close (fun _ => rfl) rfl hlen fun _ => rfl

theorem keeps_forPid {α : Type} {query : ℕ → Prog Call (Option α)} {pid : UInt32}
    (hquery : ∀ hProc, Keeps n lower c (query hProc) (⟨.object, hProc⟩ :: s))
    (hlen : s.length < c) : Keeps n lower c (forPid query pid) s := by
  rw [forPid]
  split_ifs with hpid
  · rfl
  · refine owns_given (fun _ => rfl) hlen.le (List.nil_subset _) rfl fun hProc hnull => ?_
    rw [if_neg hnull]
    refine (hquery hProc).bind fun answer => ?_
    exact owns_close (fun _ => rfl) rfl hlen fun _ => rfl

theorem keeps_sessionIdForPid (pid : UInt32) (hlen : s.length + 1 < c) :
    Keeps n lower c (sessionIdForPid pid) s :=
  keeps_forPid (fun _ => keeps_queryToken _ List.mem_cons_self hlen) (Nat.lt_of_succ_lt hlen)

theorem keeps_isElevatedForPid (pid : UInt32) (hlen : s.length + 1 < c) :
    Keeps n lower c (isElevatedForPid pid) s := by
  refine keeps_forPid (fun hProc => ?_) (Nat.lt_of_succ_lt hlen)
  exact (keeps_queryToken _ List.mem_cons_self hlen).bind fun _ => rfl

theorem keeps_lookupSid (sid : String) (hlen : s.length < c) :
    Keeps n lower c (lookupSid sid) s := by
  refine owns_call hlen.le (List.nil_subset _) fun b => ?_
  cases b with
  | none => rfl
  | some psid =>
    refine owns_plain (fun _ => rfl) hlen (by simp [uses, deed, Deed.left]) fun answer => ?_
    exact owns_close (fun _ => rfl) rfl hlen fun _ => rfl

theorem keeps_executeKillProcess (payload : Json) (hlen : s.length < c) :
    Keeps n lower c (executeKillProcess payload) s := by
  rw [executeKillProcess]
  split
  · next p _ =>
    split_ifs
    · refine owns_given (fun _ => rfl) hlen.le (List.nil_subset _) rfl fun h hnull => ?_
      rw [if_neg hnull]
      refine owns_plain (fun _ => rfl) hlen (by simp [uses]) fun ok => ?_
      refine owns_close (fun _ => rfl) rfl hlen fun _ => ?_
      cases ok with
      | false => rfl
      | true => exact owns_plain (fun _ => rfl) hlen.le (List.nil_subset _) fun _ => rfl
    · rfl
  · rfl

/-! ### Files, hashes and signatures -/

theorem keeps_identifyClient (hmem : ⟨.object, pipe⟩ ∈ s) (hlen : s.length < c) :
    Keeps n lower c (identifyClient pipe) s := by
  refine owns_plain (fun _ => rfl) hlen.le (by simpa [uses] using hmem) fun pid => ?_
  cases pid with
  | none => exact owns_plain (fun _ => rfl) hlen.le (List.nil_subset _) fun _ => rfl
  | some pid =>
    refine owns_given (fun _ => rfl) hlen.le (List.nil_subset _) ?_ fun hProc hnull => ?_
    · exact owns_plain (fun _ => rfl) hlen.le (List.nil_subset _) fun _ => rfl
    · rw [if_neg hnull]
      refine owns_plain (fun _ => rfl) hlen (by simp [uses]) fun name => ?_
      refine owns_close (fun _ => rfl) rfl hlen fun _ => ?_
      cases name with
      | none => exact owns_plain (fun _ => rfl) hlen.le (List.nil_subset _) fun _ => rfl
      | some units => rfl

/-- The loop ends with the hash and the algorithm closed exactly if it ends with an error. -/
theorem owns_hashChunk {h alg hash m : ℕ} {Q : Except IoError Unit → List Handle → Prop}
    (hmem : ⟨.object, h⟩ ∈ s) (hlen : s.length + 1 < c) (herror : ∀ e, Q (.error e) s)
    (hok : Q (.ok ()) (⟨.hash, hash⟩ :: ⟨.algorithm, alg⟩ :: s)) :
    Owns (custody n lower) c (untilSome .stuck (hashChunk h alg hash) m) Q
      (⟨.hash, hash⟩ :: ⟨.algorithm, alg⟩ :: s) := by
  have hgiveUp (e : IoError) : Owns (custody n lower) c
      (do
        call (.destroyHash hash)
        call (.closeAlgorithmProvider alg)
        return some (Except.error (α := Unit) e))
      (fun r t => r.elim (t = ⟨.hash, hash⟩ :: ⟨.algorithm, alg⟩ :: s) fun a => Q a t)
      (⟨.hash, hash⟩ :: ⟨.algorithm, alg⟩ :: s) := by
    refine owns_close (fun _ => rfl) rfl hlen fun _ => ?_
    exact owns_close (fun _ => rfl) rfl (Nat.lt_of_succ_lt hlen) fun _ => herror e
  refine owns_untilSome (I := fun t => t = ⟨.hash, hash⟩ :: ⟨.algorithm, alg⟩ :: s) rfl ?_ ?_ rfl
  · rintro t rfl
    exact hlen
  · rintro t rfl
    refine owns_plain (fun _ => rfl) hlen (by simp [uses, hmem]) fun bytes => ?_
    match bytes with
    | none => exact owns_plain (fun _ => rfl) hlen (List.nil_subset _) fun err => hgiveUp _
    | some [] => exact hok
    | some (b :: bytes) =>
      refine owns_plain (fun _ => rfl) hlen (by simp [uses]) fun status => ?_
      split_ifs
      · rfl
      · exact hgiveUp _

theorem keeps_hashOpened {h : ℕ} (hmem : ⟨.object, h⟩ ∈ s) (hlen : s.length + 1 < c) :
    Keeps n lower c (hashOpened n h) s := by
  have hlen' : s.length < c := Nat.lt_of_succ_lt hlen
  refine owns_call hlen'.le (List.nil_subset _) fun alg => ?_
  match alg with
  | .error status => rfl
  | .ok alg =>
    refine owns_call hlen' (by simp [uses, deed, Deed.left]) fun hash => ?_
    match hash with
    | .error status => exact owns_close (fun _ => rfl) rfl hlen' fun _ => rfl
    | .ok hash =>
      refine owns_bind.mpr (owns_hashChunk hmem hlen (fun e => rfl) ?_)
      refine owns_plain (fun _ => rfl) hlen (by simp [uses]) fun digest => ?_
      refine owns_close (fun _ => rfl) rfl hlen fun _ => ?_
      refine owns_close (fun _ => rfl) rfl hlen' fun _ => ?_
      cases digest <;> rfl

theorem keeps_sha256FileHex (path : OsString) (hlen : s.length + 2 < c) :
    Keeps n lower c (sha256FileHex n path) s := by
  have hlen' : s.length < c := by omega
  refine owns_given (fun _ => rfl) hlen'.le (List.nil_subset _) ?_ fun h hvalid => ?_
  · exact owns_plain (fun _ => rfl) hlen'.le (List.nil_subset _) fun _ => rfl
  · rw [if_neg hvalid]
    refine (keeps_hashOpened List.mem_cons_self hlen).bind fun result => ?_
    exact owns_close (fun _ => rfl) rfl hlen' fun _ => rfl

theorem keeps_verifyAuthenticode (path : OsString) (hlen : s.length < c) :
    Keeps n lower c (verifyAuthenticode path) s := by
  refine owns_call hlen.le (List.nil_subset _) fun ⟨status, state⟩ => ?_
  refine owns_close (fun _ => rfl) rfl hlen fun _ => ?_
  split_ifs <;> rfl

theorem keeps_hashMatches (path : OsString) (expected : Option String) (hlen : s.length + 2 < c) :
    Keeps n lower c (hashMatches n path expected) s := by
  cases expected with
  | none => rfl
  | some expected =>
    refine (keeps_sha256FileHex path hlen).bind fun result => ?_
    cases result <;> rfl

theorem keeps_signatureMatches (path : OsString) (signer : Option String) (hlen : s.length < c) :
    Keeps n lower c (signatureMatches path signer) s := by
  rw [signatureMatches]
  split_ifs
  · refine (keeps_verifyAuthenticode path hlen).bind fun result => ?_
    cases result <;> rfl
  · rfl

theorem keeps_validateHandshake (hello : Hello) (identity : ClientIdentity)
    (store : ManifestStore) (hlen : s.length + 2 < c) :
    Keeps n lower c (validateHandshake n lower hello identity store) s := by
  rw [validateHandshake]
  split_ifs
  · rfl
  · split
    · rfl
    · next manifest _ =>
      split_ifs
      · rfl
      · rfl
      · refine (keeps_hashMatches _ _ hlen).bind fun hashOk => ?_
        split_ifs
        · rfl
        · refine (keeps_signatureMatches _ _ (by omega)).bind fun signatureOk => ?_
          split_ifs <;> rfl

/-! ### Sessions -/

theorem keeps_sessionTurn (manifest : PluginManifest) (identity : ClientIdentity)
    (sessionId : String) (hmem : ⟨.object, pipe⟩ ∈ s) (hlen : s.length ≤ c) :
    Keeps n lower c (sessionTurn pipe manifest identity sessionId) s := by
  refine owns_plain (fun _ => rfl) hlen (by simpa [uses] using hmem) fun read => ?_
  match read with
  | .ok (some (.event ev)) =>
    refine owns_plain (fun _ => rfl) hlen (List.nil_subset _) fun _ => ?_
    exact owns_plain (fun _ => rfl) hlen (List.nil_subset _) fun _ => rfl
  | .ok (some (.heartbeat _)) | .ok (some .goodbye) | .ok none => rfl
  | .ok (some (.hello _)) | .error _ =>
    exact owns_plain (fun _ => rfl) hlen (List.nil_subset _) fun _ => rfl

theorem keeps_reject (reason : RejectReason) (hmem : ⟨.object, pipe⟩ ∈ s) (hlen : s.length ≤ c) :
    Keeps n lower c (reject pipe reason) s := by
  refine owns_plain (fun _ => rfl) hlen (List.nil_subset _) fun _ => ?_
  exact owns_plain (fun _ => rfl) hlen (by simpa [uses] using hmem) fun _ => rfl

theorem keeps_handleSession (store : ManifestStore) (hmem : ⟨.object, pipe⟩ ∈ s)
    (hlen : s.length + 2 < c) : Keeps n lower c (handleSession n lower pipe store) s := by
  have hlen' : s.length ≤ c := by omega
  have huses : [(⟨.object, pipe⟩ : Handle)] ⊆ s := by simpa using hmem
  refine (keeps_identifyClient hmem (by omega)).bind fun identity => ?_
  match identity with
  | .error e => rfl
  | .ok identity =>
    refine owns_plain (fun _ => rfl) hlen' huses fun read => ?_
    have hbad : Keeps n lower c (do
        reject pipe .badHandshake
        return Except.error (α := Unit) "bad first frame") s :=
      (keeps_reject _ hmem hlen').bind fun _ => rfl
    match read with
    | .ok (some (.hello hello)) =>
      refine (keeps_validateHandshake hello identity store hlen).bind fun verdict => ?_
      match verdict with
      | .error reason => exact (keeps_reject _ hmem hlen').bind fun _ => rfl
      | .ok manifest =>
        refine owns_plain (fun _ => rfl) hlen' (List.nil_subset _) fun sessionId => ?_
        refine owns_plain (fun _ => rfl) hlen' huses fun written => ?_
        match written with
        | .error e => rfl
        | .ok () =>
          refine Keeps.bind ?_ fun _ => rfl
          exact keeps_untilSome hlen' (keeps_sessionTurn _ _ _ hmem hlen')
    | .ok (some (.event _)) | .ok (some (.heartbeat _)) | .ok (some .goodbye) | .ok none
    | .error _ => exact hbad

/-- A session closes the pipe it was started with. -/
theorem owns_sessionThread (store : ManifestStore) (hc : 3 < c) :
    Owns (custody n lower) c (sessionThread n lower pipe store) (fun _ t => t = [])
      [⟨.object, pipe⟩] := by
  refine (keeps_handleSession store List.mem_cons_self hc).bind fun _ => ?_
  refine owns_plain (fun _ => rfl) (by simp; omega) (by simp [uses]) fun _ => ?_
  refine owns_close (fun _ => rfl) rfl (by simp; omega) fun _ => ?_
  exact ⟨Nat.zero_le c, List.nil_subset _, fun _ _ => rfl⟩

/-! ### The accept loop -/

theorem owns_createPipeInstance (hlen : s.length ≤ c) :
    Owns (custody n lower) c createPipeInstance
      (fun r t => t = (r.toOption.map (Handle.mk .object)).toList ++ s) s := by
  refine owns_call hlen (List.nil_subset _) fun h => ?_
  simp only [deed, given]
  by_cases hzero : h = 0
  · simp only [hzero, if_true, true_or, Deed.left]
    exact owns_plain (fun _ => rfl) hlen (List.nil_subset _) fun _ => rfl
  · by_cases hinvalid : h = invalidHandleValue
    · subst hinvalid
      simp only [if_true, or_true]
      exact owns_plain (fun _ => rfl) hlen (List.nil_subset _) fun _ => rfl
    · simp only [hzero, hinvalid, if_false, or_self, Deed.left]
      rfl

theorem keeps_waitTurn {event m : ℕ} {Q : Except ℕ Bool → List Handle → Prop}
    (hmem : ⟨.object, pipe⟩ ∈ s) (hlen : s.length < c) (hQ : ∀ r, Q r s) :
    Owns (custody n lower) c (untilSome .stuck (waitTurn pipe event) m) Q
      (⟨.object, event⟩ :: s) := by
  refine owns_untilSome (I := fun t => t = ⟨.object, event⟩ :: s) rfl ?_ ?_ rfl
  · rintro t rfl
    exact hlen
  · rintro t rfl
    refine owns_plain (fun _ => rfl) hlen (by simp [uses]) fun wait => ?_
    split_ifs
    · exact owns_close (fun _ => rfl) rfl hlen fun _ => hQ _
    · refine owns_plain (fun _ => rfl) hlen (List.nil_subset _) fun down => ?_
      split_ifs
      · refine owns_plain (fun _ => rfl) hlen (by simp [uses, hmem]) fun _ => ?_
        exact owns_close (fun _ => rfl) rfl hlen fun _ => hQ _
      · rfl
    · refine owns_plain (fun _ => rfl) hlen (List.nil_subset _) fun err => ?_
      exact owns_close (fun _ => rfl) rfl hlen fun _ => hQ _

theorem keeps_waitForClient (hmem : ⟨.object, pipe⟩ ∈ s) (hlen : s.length < c) :
    Keeps n lower c (waitForClient n pipe) s := by
  have hwait (event : ℕ) : Owns (custody n lower) c (untilSome .stuck (waitTurn pipe event) n)
      (fun _ t => t = s) (⟨.object, event⟩ :: s) :=
    keeps_waitTurn hmem hlen fun _ => rfl
  refine owns_given (fun _ => rfl) hlen.le (List.nil_subset _) ?_ fun event hnull => ?_
  · exact owns_plain (fun _ => rfl) hlen.le (List.nil_subset _) fun _ => rfl
  · rw [if_neg hnull]
    refine owns_plain (fun _ => rfl) hlen (by simp [uses, hmem]) fun connected => ?_
    split_ifs
    · exact hwait event
    · refine owns_plain (fun _ => rfl) hlen (List.nil_subset _) fun err => ?_
      split_ifs
      · exact hwait event
      · exact owns_close (fun _ => rfl) rfl hlen fun _ => rfl
      · exact owns_close (fun _ => rfl) rfl hlen fun _ => rfl

/-- The pipe is closed, or belongs to a session now. -/
theorem owns_onClient (hlen : s.length < c) :
    Owns (custody n lower) c (onClient pipe) (fun _ t => t = s) (⟨.object, pipe⟩ :: s) := by
  have hclose : Owns (custody n lower) c (do
      call (.disconnectNamedPipe pipe)
      call (.closeHandle pipe)) (fun _ t => t = s) (⟨.object, pipe⟩ :: s) := by
    refine owns_plain (fun _ => rfl) hlen (by simp [uses]) fun _ => ?_
    refine ⟨hlen, by simp [custody, uses], fun _ _ => ?_⟩
    simp [custody, deed, Deed.left, Owns]
  refine owns_plain (fun _ => rfl) hlen (List.nil_subset _) fun _ => ?_
  refine owns_plain (fun _ => rfl) hlen (List.nil_subset _) fun active => ?_
  split_ifs
  · refine owns_plain (fun _ => rfl) hlen (List.nil_subset _) fun _ => ?_
    exact (keeps_reject _ List.mem_cons_self hlen).bind fun _ => hclose
  · refine owns_plain (fun _ => rfl) hlen (List.nil_subset _) fun store => ?_
    refine owns_call hlen (by simp [uses]) fun spawned => ?_
    cases spawned with
    | false => exact owns_plain (fun _ => rfl) hlen (List.nil_subset _) fun _ => hclose
    | true => simp [deed, Deed.left, Owns]

theorem keeps_acceptTurn (hlen : s.length + 1 < c) : Keeps n lower c (acceptTurn n) s := by
  have hlen' : s.length < c := Nat.lt_of_succ_lt hlen
  refine owns_plain (fun _ => rfl) hlen'.le (List.nil_subset _) fun down => ?_
  split_ifs
  · rfl
  · refine owns_bind.mpr (owns_mono (owns_createPipeInstance hlen'.le) fun r t ht => ?_)
    match r with
    | .error _ =>
      obtain rfl : t = s := ht
      exact owns_plain (fun _ => rfl) hlen'.le (List.nil_subset _) fun _ => rfl
    | .ok pipe =>
      obtain rfl : t = ⟨.object, pipe⟩ :: s := ht
      refine (keeps_waitForClient List.mem_cons_self hlen).bind fun r => ?_
      match r with
      | .ok true =>
        refine owns_bind.mpr (owns_mono (owns_onClient hlen') fun _ t ht => ?_)
        exact ht
      | .ok false | .error _ => exact owns_close (fun _ => rfl) rfl hlen' fun _ => rfl

/-! ### Services -/

variable {scm : ℕ}

open Polling

theorem keeps_queryServiceConfig (name : String) (hmem : ⟨.service, scm⟩ ∈ s)
    (hlen : s.length < c) : Keeps n lower c (queryServiceConfig scm name) s := by
  refine owns_given (fun _ => rfl) hlen.le (by simpa [uses] using hmem) rfl fun svc hnull => ?_
  rw [if_neg hnull]
  refine owns_plain (fun _ => rfl) hlen (by simp [uses]) fun bytesNeeded => ?_
  split_ifs
  · exact owns_close (fun _ => rfl) rfl hlen fun _ => rfl
  · refine owns_plain (fun _ => rfl) hlen (by simp [uses]) fun cfg => ?_
    cases cfg <;> exact owns_close (fun _ => rfl) rfl hlen fun _ => rfl

/-- The manager stays open exactly if there is a listing. -/
theorem owns_fillServices (tries bufSize : ℕ) (hlen : s.length < c) :
    Owns (custody n lower) c (fillServices scm tries bufSize)
      (fun r t => t = if r.isSome then ⟨.service, scm⟩ :: s else s) (⟨.service, scm⟩ :: s) := by
  induction tries generalizing bufSize with
  | zero => exact owns_close (fun _ => rfl) rfl hlen fun _ => rfl
  | succ tries ih =>
    refine owns_plain (fun _ => rfl) hlen (by simp [uses]) fun reply => ?_
    cases reply with
    | filled entries => rfl
    | failed lastError bytesNeeded =>
      dsimp only
      split_ifs
      · exact owns_close (fun _ => rfl) rfl hlen fun _ => rfl
      · exact ih _

theorem keeps_snapshotEntries (prev : Snapshots) (fullRescan : Bool)
    (entries : List EnumServiceStatus) (map : Snapshots) (hmem : ⟨.service, scm⟩ ∈ s)
    (hlen : s.length < c) :
    Keeps n lower c (snapshotEntries scm prev fullRescan entries map) s := by
  induction entries generalizing map with
  | nil => rfl
  | cons e entries ih =>
    rw [snapshotEntries]
    split_ifs
    · exact ih map
    · refine Keeps.bind ?_ fun config => ih _
      rw [configOf]
      split
      · rfl
      · exact (keeps_queryServiceConfig _ hmem hlen).bind fun _ => rfl

theorem keeps_enumerateServices (prev : Snapshots) (fullRescan : Bool) (hlen : s.length + 1 < c) :
    Keeps n lower c (enumerateServices prev fullRescan) s := by
  have hlen' : s.length < c := Nat.lt_of_succ_lt hlen
  refine owns_given (fun _ => rfl) hlen'.le (List.nil_subset _) rfl fun scm hnull => ?_
  rw [if_neg hnull]
  refine owns_plain (fun _ => rfl) hlen' (by simp [uses]) fun bytesNeeded => ?_
  split_ifs
  · exact owns_close (fun _ => rfl) rfl hlen' fun _ => rfl
  · refine owns_bind.mpr (owns_mono (owns_fillServices _ _ hlen') fun r t ht => ?_)
    cases r with
    | none => exact ht
    | some entries =>
      obtain rfl : t = ⟨.service, scm⟩ :: s := ht
      refine (keeps_snapshotEntries _ _ _ _ List.mem_cons_self hlen).bind fun map => ?_
      exact owns_close (fun _ => rfl) rfl hlen' fun _ => rfl

/-! ### Packages -/

/-- The loop ends with everything closed exactly if it ends with an error. -/
theorem owns_packageChunk {path : String} {h alg hash m : ℕ}
    {Q : Except PackageError Unit → List Handle → Prop} (hlen : s.length + 2 < c)
    (herror : ∀ e, Q (.error e) s)
    (hok : Q (.ok ()) (⟨.object, h⟩ :: ⟨.hash, hash⟩ :: ⟨.algorithm, alg⟩ :: s)) :
    Owns (custody n lower) c (untilSome .stuck (packageChunk path h alg hash) m) Q
      (⟨.object, h⟩ :: ⟨.hash, hash⟩ :: ⟨.algorithm, alg⟩ :: s) := by
  have hgiveUp (e : PackageError) : Owns (custody n lower) c
      (do
        packageChunk.dropAll h alg hash
        return some (Except.error (α := Unit) e))
      (fun r t => r.elim (t = ⟨.object, h⟩ :: ⟨.hash, hash⟩ :: ⟨.algorithm, alg⟩ :: s)
        fun a => Q a t)
      (⟨.object, h⟩ :: ⟨.hash, hash⟩ :: ⟨.algorithm, alg⟩ :: s) := by
    refine owns_close (fun _ => rfl) rfl hlen fun _ => ?_
    refine owns_close (fun _ => rfl) rfl (Nat.lt_of_succ_lt hlen) fun _ => ?_
    exact owns_close (fun _ => rfl) rfl (by omega) fun _ => herror e
  refine owns_untilSome
    (I := fun t => t = ⟨.object, h⟩ :: ⟨.hash, hash⟩ :: ⟨.algorithm, alg⟩ :: s) rfl ?_ ?_ rfl
  · rintro t rfl
    exact hlen
  · rintro t rfl
    refine owns_plain (fun _ => rfl) hlen (by simp [uses]) fun bytes => ?_
    match bytes with
    | none => exact owns_plain (fun _ => rfl) hlen (List.nil_subset _) fun err => hgiveUp _
    | some [] => exact hok
    | some (b :: bytes) =>
      refine owns_plain (fun _ => rfl) hlen (by simp [uses]) fun status => ?_
      split_ifs
      · rfl
      · exact hgiveUp _

theorem keeps_hashPackage (path : String) (hlen : s.length + 2 < c) :
    Keeps n lower c (hashPackage n path) s := by
  have hlen₁ : s.length + 1 < c := Nat.lt_of_succ_lt hlen
  have hlen₀ : s.length < c := Nat.lt_of_succ_lt hlen₁
  refine owns_call hlen₀.le (List.nil_subset _) fun alg => ?_
  match alg with
  | .error status => rfl
  | .ok alg =>
    refine owns_call hlen₀ (by simp [uses, deed, Deed.left]) fun hash => ?_
    match hash with
    | .error status => exact owns_close (fun _ => rfl) rfl hlen₀ fun _ => rfl
    | .ok hash =>
      refine owns_given (fun _ => rfl) hlen₁ (List.nil_subset _) ?_ fun h hvalid => ?_
      · refine owns_plain (fun _ => rfl) hlen₁ (List.nil_subset _) fun err => ?_
        refine owns_close (fun _ => rfl) rfl hlen₁ fun _ => ?_
        exact owns_close (fun _ => rfl) rfl hlen₀ fun _ => rfl
      · rw [if_neg hvalid]
        refine owns_bind.mpr (owns_packageChunk hlen (fun e => rfl) ?_)
        refine owns_plain (fun _ => rfl) hlen (by simp [uses]) fun digest => ?_
        -- the hash goes first, from under the file
        refine owns_call hlen (by simp [uses]) fun _ => ?_
        have hleft : (deed n lower (.destroyHash hash) ()).left
            (⟨.object, h⟩ :: ⟨.hash, hash⟩ :: ⟨.algorithm, alg⟩ :: s)
            = ⟨.object, h⟩ :: ⟨.algorithm, alg⟩ :: s := by
          simp [deed, Deed.left]
        rw [hleft]
        refine owns_close (fun _ => rfl) rfl hlen₁ fun _ => ?_
        refine owns_close (fun _ => rfl) rfl hlen₀ fun _ => ?_
        cases digest <;> rfl

/-! ### All together -/

/-- What the other threads do. -/
inductive Task
  | sessionId (pid : UInt32)
  | elevated (pid : UInt32)
  | lookup (sid : String)
  | kill (payload : Json)
  | package (path : String)
  | services (prev : Snapshots) (fullRescan : Bool)

/-- What a task asks of the system. -/
def Task.perform (n : ℕ) : Task → Prog Call Unit
  | .sessionId pid => do
    let _ ← sessionIdForPid pid
  | .elevated pid => do
    let _ ← isElevatedForPid pid
  | .lookup sid => do
    let _ ← lookupSid sid
  | .kill payload => do
    let _ ← executeKillProcess payload
  | .package path => do
    let _ ← hashPackage n path
  | .services prev fullRescan => do
    let _ ← enumerateServices prev fullRescan

/-- A thread that performs tasks, one after the other. -/
def worker (n : ℕ) : List Task → Prog Call Unit
  | [] => return ()
  | task :: tasks => do
    task.perform n
    worker n tasks

/-- The agent at its start. -/
def agent (n : ℕ) (work : List (List Task)) : Pool Call Handle where
  threads := acceptLoop n :: work.map (worker n)
  live := []

theorem keeps_perform (task : Task) : Keeps n lower 4 (task.perform n) [] := by
  cases task with
  | sessionId pid => exact (keeps_sessionIdForPid pid (by decide)).bind fun _ => rfl
  | elevated pid => exact (keeps_isElevatedForPid pid (by decide)).bind fun _ => rfl
  | lookup sid => exact (keeps_lookupSid sid (by decide)).bind fun _ => rfl
  | kill payload => exact (keeps_executeKillProcess payload (by decide)).bind fun _ => rfl
  | package path => exact (keeps_hashPackage path (by decide)).bind fun _ => rfl
  | services prev fullRescan =>
    exact (keeps_enumerateServices prev fullRescan (by decide)).bind fun _ => rfl

theorem keeps_worker (tasks : List Task) : Keeps n lower 4 (worker n tasks) [] := by
  induction tasks with
  | nil => rfl
  | cons task tasks ih => exact (keeps_perform task).bind fun _ => ih

theorem started_given (kind : HandleKind) (sentinel h : ℕ) :
    (given kind sentinel h).started = [] := by
  rw [given]
  split_ifs <;> rfl

/-- The threads that are started close what they take over. -/
theorem startsClean : Pool.StartsClean (custody n lower) 4 := by
  intro β o b x hx
  cases o with
  | spawnSession pipe store =>
    cases b with
    | false => simp [custody, deed, Deed.started] at hx
    | true =>
      obtain rfl : x = (sessionThread n lower pipe store, [⟨.object, pipe⟩]) := by
        simpa [custody, deed, Deed.started] using hx
      exact owns_sessionThread store (by decide)
  | openProcess | createFile | openSCManager | openService | createEvent =>
    simp [custody, deed, started_given] at hx
  | openProcessToken | convertStringSidToSid | openAlgorithmProvider | createHash =>
    cases b <;> simp [custody, deed, Deed.started] at hx
  | createNamedPipe =>
    simp only [custody, deed] at hx
    split_ifs at hx
    · simp [Deed.started] at hx
    · simp [started_given] at hx
  | _ => simp [custody, deed, Deed.started] at hx

theorem agent_tidy (n : ℕ) (lower : String → String) (work : List (List Task)) :
    Pool.Tidy (custody n lower) 4 (agent n work) := by
  refine Pool.tidy_of_forall fun p hp => ?_
  rcases List.mem_cons.mp hp with rfl | hp
  · exact keeps_untilSome (Nat.zero_le _) (keeps_acceptTurn (by decide))
  · obtain ⟨tasks, -, rfl⟩ := List.mem_map.mp hp
    exact keeps_worker tasks

/-- **No handle is lost, and none is used after it is closed.** However the threads interleave and
whatever Windows answers, a call works with handles that are open and that no other thread works
with; no thread that is over has left one open, and one that is not has at most four. -/
theorem handles_kept (n : ℕ) (lower : String → String) (work : List (List Task))
    (P : Pool Call Handle)
    (hr : Relation.ReflTransGen (Pool.Step (custody n lower)) (agent n work) P) :
    Pool.Kept (custody n lower) 4 P ∧ ((∀ p ∈ P.threads, p.isOver = true) → P.live = []) := by
  have hkept : Pool.Kept (custody n lower) 4 P :=
    (Pool.Tidy.run startsClean (agent_tidy n lower work) hr).kept
  exact ⟨hkept, hkept.live_eq_nil⟩

/-- A client connects at once, and its session is started. -/
theorem connected_kept : ∃ P,
    Relation.ReflTransGen (Pool.Step (custody 1 id)) (agent 1 [[.elevated 7]]) P ∧
      P.threads.length = 3 ∧ P.live = [⟨.object, 16⟩, ⟨.object, 8⟩] ∧
      Pool.Kept (custody 1 id) 4 P ∧ ((∀ p ∈ P.threads, p.isOver = true) → P.live = []) := by
  have hrun : ∃ P, Relation.ReflTransGen (Pool.Step (custody 1 id)) (agent 1 [[.elevated 7]]) P ∧
      P.threads.length = 3 ∧ P.live = [⟨.object, 16⟩, ⟨.object, 8⟩] := by
    refine Pool.exists_run_head [] false trivial ?_
    refine Pool.exists_run_head [] (8 : ℕ) List.not_mem_nil ?_
    refine Pool.exists_run_head [] (12 : ℕ)
      (show (⟨.object, 12⟩ : Handle) ∉ [⟨.object, 8⟩] by decide) ?_
    refine Pool.exists_run_head [] false trivial ?_
    refine Pool.exists_run_head [] errorPipeConnected trivial ?_
    refine Pool.exists_run_head [] () trivial ?_
    refine Pool.exists_run_head [] () trivial ?_
    refine Pool.exists_run_head [] (0 : UInt64) trivial ?_
    refine Pool.exists_run_head [] ManifestStore.empty trivial ?_
    refine Pool.exists_run_head [] true trivial ?_
    refine Pool.exists_run_head [_] (16 : ℕ)
      (show (⟨.object, 16⟩ : Handle) ∉ [⟨.object, 8⟩] by decide) ?_
    exact ⟨_, .refl, rfl, rfl⟩
  obtain ⟨P, hr, hthreads, hlive⟩ := hrun
  exact ⟨P, hr, hthreads, hlive, handles_kept 1 id [[.elevated 7]] P hr⟩

end Win32

end WazabiAgent
