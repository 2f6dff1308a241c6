import WazabiAgent.Control.Isolation
import WazabiAgent.Control.Sha256
import WazabiAgent.Ipc.Parser
import WazabiAgent.Lib.Ownership
import WazabiAgent.Plugin.Session
import WazabiAgent.Plugin.SessionCount
import WazabiAgent.Polling.Services

/-!
# The calls of Windows that deal in handles

The functions of the agent that open something with a Windows call and have to close it again: the
lookups of `enrich.rs`, `execute_kill_process` (`control/executor.rs`), the identity checks of
`plugin/identity.rs`, the accept loop of `plugin/server.rs` with its sessions, the hash of
`plugin/assignment.rs`, and `enumerate_services` (`polling/services.rs`). They are programs over
`Call`, whose operations are the Windows calls and what these functions ask of the rest of the
agent.

A handle is a number as Windows gives it, with the sentinel of the call that gives it. Its kind
says which function closes it. The loops that may go on for ever get a bound `n` on their rounds,
after which they are `stuck`.

Where Rust closes a handle by dropping its owner, the call stands where the drop is. A frame of
the plugin protocol is read and written by one operation.

## Main definitions

* `Handle`, `Call` — handles and calls
* `enumerateServices`, `validateHandshake`, `handleSession`, `acceptLoop` — the functions
* `custody` — what the calls do to handles
-/

namespace WazabiAgent

namespace Win32

open Prog Binary Plugin

/-! ### Calls -/

/-- By which function a handle is closed: `CloseHandle`, `CloseServiceHandle`, `LocalFree`,
`BCryptCloseAlgorithmProvider`, `BCryptDestroyHash`, or `WinVerifyTrust` with
`WTD_STATEACTION_CLOSE`. -/
inductive HandleKind
  | object
  | service
  | memory
  | algorithm
  | hash
  | trust
  deriving DecidableEq

/-- A handle of the system, with what it is a handle of. -/
structure Handle where
  kind : HandleKind
  value : ℕ
  deriving DecidableEq

/-- `INVALID_HANDLE_VALUE`, as an unsigned number. -/
def invalidHandleValue : ℕ := 18446744073709551615

/-- The classes of `GetTokenInformation` that are asked for; both have 32 bits. -/
inductive TokenClass
  | sessionId
  | elevation

/-- A call of `EnumServicesStatusExW` with a buffer. -/
inductive EnumReply
  | filled (entries : List Polling.EnumServiceStatus)
  | failed (lastError bytesNeeded : ℕ)

/-- The counters of the plugin server. -/
inductive Counter
  | sessionsAccepted
  | sessionsRejected
  | eventsReceived
  | eventsInvalid

/-- The calls. A result of 0 is a null handle. -/
inductive Call : Type → Type
  | lastError : Call ℕ
  | closeHandle (h : ℕ) : Call Unit
  -- processes and accounts
  | openProcess (pid : UInt32) : Call ℕ
  | terminateProcess (hProc : ℕ) : Call Bool
  | queryFullProcessImageName (hProc : ℕ) : Call (Option (List ℕ))
  | openProcessToken (hProc : ℕ) : Call (Option ℕ)
  | getTokenInformation (hTok : ℕ) (cls : TokenClass) : Call (Option UInt32)
  /-- A failure and a null pointer are the same to the caller. -/
  | convertStringSidToSid (sid : String) : Call (Option ℕ)
  | lookupAccountSid (psid : ℕ) : Call (Option (List ℕ × List ℕ))
  | localFree (p : ℕ) : Call Unit
  | now : Call String
  -- files, hashes and signatures
  | createFile (path : String) : Call ℕ
  | readFile (h : ℕ) : Call (Option (List UInt8))
  | openAlgorithmProvider : Call (Except ℕ ℕ)
  | closeAlgorithmProvider (alg : ℕ) : Call Unit
  | createHash (alg : ℕ) : Call (Except ℕ ℕ)
  | hashData (hash : ℕ) (bytes : List UInt8) : Call ℕ
  | finishHash (hash : ℕ) : Call (Except ℕ (List UInt8))
  | destroyHash (hash : ℕ) : Call Unit
  /-- Answers with the status and with the state it leaves. -/
  | verifyTrust (path : String) : Call (ℕ × ℕ)
  | closeTrust (state : ℕ) : Call Unit
  -- services
  | openSCManager : Call ℕ
  /-- The size probe; answers with the bytes it needs. -/
  | probeServices (scm : ℕ) : Call ℕ
  | enumServices (scm : ℕ) (bufSize : ℕ) : Call EnumReply
  | openService (scm : ℕ) (name : String) : Call ℕ
  | probeServiceConfig (svc : ℕ) : Call ℕ
  | queryServiceConfig (svc : ℕ) (bufSize : ℕ) : Call (Option Polling.RawConfig)
  | closeServiceHandle (h : ℕ) : Call Unit
  -- the pipe
  | createNamedPipe : Call ℕ
  | createEvent : Call ℕ
  | connectNamedPipe (pipe event : ℕ) : Call Bool
  | waitForSingleObject (event : ℕ) : Call ℕ
  | cancelIoEx (pipe : ℕ) : Call Unit
  | disconnectNamedPipe (pipe : ℕ) : Call Unit
  | getNamedPipeClientProcessId (pipe : ℕ) : Call (Option UInt32)
  | readFrame (pipe : ℕ) : Call FrameRead
  | writeFrame (pipe : ℕ) (frame : ServerFrame) : Call (Except String Unit)
  -- the rest of the agent
  | shutdown : Call Bool
  | sleep : Call Unit
  | count (counter : Counter) : Call Unit
  /-- `active_sessions`: `fetch_add`, and `fetch_sub`. -/
  | reserve : Call UInt64
  | release : Call Unit
  | store : Call ManifestStore
  | genSessionId (pid : UInt32) : Call String
  | emitEvent (e : Emission) : Call Unit
  | spawnSession (pipe : ℕ) (store : ManifestStore) : Call Bool
  | stuck : Call Empty

/-- The call may return. -/
def Returns : {β : Type} → Call β → Prop
  | _, .stuck => False
  | _, _ => True

/-! ### Processes and accounts -/

/-- `query_session_id` and `query_elevation`, which differ in what they ask for. -/
def queryToken (cls : TokenClass) (hProc : ℕ) : Prog Call (Option UInt32) := do
  match ← call (.openProcessToken hProc) with
  | none => return none
  | some hTok =>
    let answer ← call (.getTokenInformation hTok cls)
    call (.closeHandle hTok)
    return answer

/-- The session of a process. -/
def querySessionId (hProc : ℕ) : Prog Call (Option UInt32) := queryToken .sessionId hProc

/-- The token of a process is elevated. -/
def queryElevation (hProc : ℕ) : Prog Call (Option Bool) := do
  let answer ← queryToken .elevation hProc
  return answer.map fun isElevated => isElevated ≠ 0

/-- What `query` says of a process that can be opened. -/
def forPid {α : Type} (query : ℕ → Prog Call (Option α)) (pid : UInt32) :
    Prog Call (Option α) := do
  if pid = 0 then return none
  let hProc ← call (.openProcess pid)
  if hProc = 0 then return none
  let answer ← query hProc
  call (.closeHandle hProc)
  return answer

/-- The session of a process by its id. -/
def sessionIdForPid (pid : UInt32) : Prog Call (Option UInt32) := forPid querySessionId pid

/-- The elevation of a process by its id. -/
def isElevatedForPid (pid : UInt32) : Prog Call (Option Bool) := forPid queryElevation pid

/-- The name and the domain of an account. -/
def lookupSid (sid : String) : Prog Call (Option (String × String)) := do
  match ← call (.convertStringSidToSid sid) with
  | none => return none
  | some psid =>
    let answer ← call (.lookupAccountSid psid)
    call (.localFree psid)
    return answer.map fun (name, domain) =>
      (String.ofList (utf16Lossy name), String.ofList (utf16Lossy domain))

open Control (ExecutionResult) in
/-- `execute_kill_process`. -/
def executeKillProcess (payload : Json) : Prog Call ExecutionResult :=
  match (payload.get "pid").bind Json.asU64 with
  | some p =>
    if 0 < p ∧ p ≤ 4294967295 then do
      let pid : Json := .number (toString p)
      let h ← call (.openProcess (UInt32.ofNat p))
      if h = 0 then
        return ⟨"failed", .object [("error", .string
          "OpenProcess failed — process may not exist, or insufficient privilege"), ("pid", pid)]⟩
      let ok ← call (.terminateProcess h)
      call (.closeHandle h)
      if ok then
        let executedAt ← call .now
        return ⟨"success", .object [("executed_at", .string executedAt),
          ("action", .string "TerminateProcess"), ("pid", pid), ("exit_code", .number "1")]⟩
      else
        return ⟨"failed", .object [("error", .string "TerminateProcess returned 0"), ("pid", pid)]⟩
    else return invalidPid
  | none => return invalidPid
where
  invalidPid : ExecutionResult :=
    ⟨"failed", .object [("error", .string "invalid or missing 'pid' in payload"), ("got", payload)]⟩

/-! ### Who is at the other end -/

/-- The process at the other end of a pipe. -/
def identifyClient (pipe : ℕ) : Prog Call (Except String ClientIdentity) := do
  match ← call (.getNamedPipeClientProcessId pipe) with
  | none =>
    let err ← call .lastError
    return .error ("GetNamedPipeClientProcessId failed: error " ++ toString err)
  | some pid =>
    let hProc ← call (.openProcess pid)
    if hProc = 0 then
      let err ← call .lastError
      return .error ("OpenProcess(pid=" ++ toString pid ++ ") failed: error " ++ toString err)
    let name ← call (.queryFullProcessImageName hProc)
    call (.closeHandle hProc)
    match name with
    | none =>
      let err ← call .lastError
      return .error ("QueryFullProcessImageNameW(pid=" ++ toString pid ++ ") failed: error "
        ++ toString err)
    | some units =>
      return .ok { pid := pid, imagePath := OsString.ofString (String.ofList (utf16Lossy units)) }

/-- `std::io::Error`: a code of the system, or a text. -/
inductive IoError
  | os (code : ℕ)
  | other (message : String)

/-- A status of BCrypt that is not 0. -/
def bcryptError (function : String) (status : ℕ) : IoError :=
  .other (function ++ " failed: 0x" ++ Ipc.hexLower status)

/-- One turn of the loop of `sha256_file_hex`. -/
def hashChunk (h alg hash : ℕ) : Prog Call (Option (Except IoError Unit)) := do
  match ← call (.readFile h) with
  | none =>
    let err ← call .lastError
    call (.destroyHash hash)
    call (.closeAlgorithmProvider alg)
    return some (.error (.os err))
  | some [] => return some (.ok ())
  | some bytes =>
    let status ← call (.hashData hash bytes)
    if status = 0 then return none
    call (.destroyHash hash)
    call (.closeAlgorithmProvider alg)
    return some (.error (bcryptError "BCryptHashData" status))

/-- The closure of `sha256_file_hex`. -/
def hashOpened (n : ℕ) (h : ℕ) : Prog Call (Except IoError String) := do
  match ← call .openAlgorithmProvider with
  | .error status => return .error (bcryptError "BCryptOpenAlgorithmProvider" status)
  | .ok alg =>
    match ← call (.createHash alg) with
    | .error status =>
      call (.closeAlgorithmProvider alg)
      return .error (bcryptError "BCryptCreateHash" status)
    | .ok hash =>
      match ← untilSome .stuck (hashChunk h alg hash) n with
      | .error e => return .error e
      | .ok () =>
        let digest ← call (.finishHash hash)
        call (.destroyHash hash)
        call (.closeAlgorithmProvider alg)
        match digest with
        | .error status => return .error (bcryptError "BCryptFinishHash" status)
        | .ok digest => return .ok (Control.hexText digest)

/-- `sha256_file_hex` of `plugin/identity.rs`. -/
def sha256FileHex (n : ℕ) (path : OsString) : Prog Call (Except IoError String) := do
  let h ← call (.createFile path.toStringLossy)
  if h = invalidHandleValue then
    let err ← call .lastError
    return .error (.os err)
  let result ← hashOpened n h
  call (.closeHandle h)
  return result

/-- Asks for the verdict on a signature, and closes the state that it leaves. -/
def verifyAuthenticode (path : OsString) : Prog Call (Except String Unit) := do
  let (status, state) ← call (.verifyTrust path.toStringLossy)
  call (.closeTrust state)
  if status = 0 then return .ok ()
  return .error ("WinVerifyTrust failed: 0x" ++ Ipc.hexLower status)

/-- The hash check of `validate_handshake`, if one is declared. -/
def hashMatches (n : ℕ) (path : OsString) : Option String → Prog Call Bool
  | none => return true
  | some expected => do
    match ← sha256FileHex n path with
    | .ok actual => return eqIgnoreAsciiCase actual expected
    | .error _ => return false

/-- The signature check, if one is declared. -/
def signatureMatches (path : OsString) (expectedSigner : Option String) : Prog Call Bool :=
  if expectedSigner.isSome then do
    match ← verifyAuthenticode path with
    | .ok () => return true
    | .error _ => return false
  else return true

/-- `validate_handshake`. -/
def validateHandshake (n : ℕ) (toLowercase : String → String) (hello : Hello)
    (identity : ClientIdentity) (store : ManifestStore) :
    Prog Call (Except RejectReason CheckedManifest) :=
  if hello.schemaVersion ≠ schemaVersion then return .error .schemaMismatch
  else
    match store.get hello.pluginId with
    | none => return .error .unknownPluginId
    | some manifest =>
      if manifest.1.revoked then return .error .revoked
      else if toLowercase identity.imagePath.toStringLossy ≠ toLowercase manifest.1.expectedPath
      then return .error .pathMismatch
      else do
        if !(← hashMatches n identity.imagePath manifest.1.expectedSha256) then
          return .error .hashMismatch
        if !(← signatureMatches identity.imagePath manifest.1.expectedSigner) then
          return .error .signatureInvalid
        return .ok manifest

/-! ### The hash of a package -/

/-- The errors of `sha256_file_hex` of `plugin/assignment.rs`, with the code or the status. -/
inductive PackageError
  | openFile (path : String) (code : ℕ)
  | readFile (path : String) (code : ℕ)
  | bcrypt (function : String) (status : ℕ)

/-- One turn of its loop. -/
def packageChunk (path : String) (h alg hash : ℕ) :
    Prog Call (Option (Except PackageError Unit)) := do
  match ← call (.readFile h) with
  | none =>
    let err ← call .lastError
    dropAll
    return some (.error (.readFile path err))
  | some [] => return some (.ok ())
  | some bytes =>
    let status ← call (.hashData hash bytes)
    if status = 0 then return none
    dropAll
    return some (.error (.bcrypt "BCryptHashData" status))
where
  /-- The owners are dropped in the reverse order of their declarations. -/
  dropAll : Prog Call Unit := do
    call (.closeHandle h)
    call (.destroyHash hash)
    call (.closeAlgorithmProvider alg)

/-- `sha256_file_hex` of `plugin/assignment.rs`. Its `finish` consumes the hash. -/
def hashPackage (n : ℕ) (path : String) : Prog Call (Except PackageError String) := do
  match ← call .openAlgorithmProvider with
  | .error status => return .error (.bcrypt "BCryptOpenAlgorithmProvider" status)
  | .ok alg =>
    match ← call (.createHash alg) with
    | .error status =>
      call (.closeAlgorithmProvider alg)
      return .error (.bcrypt "BCryptCreateHash" status)
    | .ok hash =>
      let h ← call (.createFile path)
      if h = invalidHandleValue then
        let err ← call .lastError
        call (.destroyHash hash)
        call (.closeAlgorithmProvider alg)
        return .error (.openFile path err)
      match ← untilSome .stuck (packageChunk path h alg hash) n with
      | .error e => return .error e
      | .ok () =>
        let digest ← call (.finishHash hash)
        call (.destroyHash hash)
        call (.closeHandle h)
        call (.closeAlgorithmProvider alg)
        match digest with
        | .error status => return .error (.bcrypt "BCryptFinishHash" status)
        | .ok digest => return .ok (Control.hexText digest)

/-! ### Sessions -/

/-- One turn of the steady state. -/
def sessionTurn (pipe : ℕ) (manifest : PluginManifest) (identity : ClientIdentity)
    (sessionId : String) : Prog Call (Option Unit) := do
  match ← call (.readFrame pipe) with
  | .ok (some (.event ev)) =>
    call (.count .eventsReceived)
    call (.emitEvent ⟨manifest, identity, sessionId, ev⟩)
    return none
  | .ok (some (.heartbeat _)) => return none
  | .ok (some (.hello _)) =>
    call (.count .eventsInvalid)
    return some ()
  | .ok (some .goodbye) => return some ()
  | .ok none => return some ()
  | .error _ =>
    call (.count .eventsInvalid)
    return some ()

/-- A refusal. Whether it can be written is of no interest. -/
def reject (pipe : ℕ) (reason : RejectReason) : Prog Call Unit := do
  call (.count .sessionsRejected)
  let _ ← call (.writeFrame pipe (.reject reason.asStr))

/-- `handle_session`. -/
def handleSession (n : ℕ) (toLowercase : String → String) (pipe : ℕ) (store : ManifestStore) :
    Prog Call (Except String Unit) := do
  match ← identifyClient pipe with
  | .error e => return .error ("identity: " ++ e)
  | .ok identity =>
    match ← call (.readFrame pipe) with
    | .ok (some (.hello hello)) =>
      match ← validateHandshake n toLowercase hello identity store with
      | .error reason =>
        reject pipe reason
        return .error ("rejected: " ++ reason.asStr)
      | .ok manifest =>
        let sessionId ← call (.genSessionId identity.pid)
        match ← call (.writeFrame pipe (.helloAck (helloAck sessionId))) with
        | .error e => return .error ("write HelloAck: " ++ e)
        | .ok () =>
          untilSome .stuck (sessionTurn pipe manifest.1 identity sessionId) n
          return .ok ()
    | _ =>
      reject pipe .badHandshake
      return .error "bad first frame"

/-- The thread of a session. -/
def sessionThread (n : ℕ) (toLowercase : String → String) (pipe : ℕ) (store : ManifestStore) :
    Prog Call Unit := do
  let _ ← handleSession n toLowercase pipe store
  call (.disconnectNamedPipe pipe)
  call (.closeHandle pipe)
  call .release

/-- An instance of the pipe, or the error of the call. -/
def createPipeInstance : Prog Call (Except ℕ ℕ) := do
  let h ← call .createNamedPipe
  if h = 0 ∨ h = invalidHandleValue then
    let err ← call .lastError
    return .error err
  return .ok h

/-- `ERROR_IO_PENDING`, `ERROR_PIPE_CONNECTED`, `WAIT_OBJECT_0` and `WAIT_TIMEOUT`. -/
def errorIoPending : ℕ := 997

/-- A client has connected before the call. -/
def errorPipeConnected : ℕ := 535

/-- The wait ended with the event. -/
def waitObject0 : ℕ := 0

/-- The wait ended with the time. -/
def waitTimeout : ℕ := 258

/-- One turn of the loop of `wait_for_client`. -/
def waitTurn (pipe event : ℕ) : Prog Call (Option (Except ℕ Bool)) := do
  let wait ← call (.waitForSingleObject event)
  if wait = waitObject0 then
    call (.closeHandle event)
    return some (.ok true)
  if wait = waitTimeout then
    if ← call .shutdown then
      call (.cancelIoEx pipe)
      call (.closeHandle event)
      return some (.ok false)
    return none
  let err ← call .lastError
  call (.closeHandle event)
  return some (.error err)

/-- `wait_for_client`. -/
def waitForClient (n : ℕ) (pipe : ℕ) : Prog Call (Except ℕ Bool) := do
  let event ← call .createEvent
  if event = 0 then
    let err ← call .lastError
    return .error err
  if ← call (.connectNamedPipe pipe event) then
    untilSome .stuck (waitTurn pipe event) n
  else
    let err ← call .lastError
    if err = errorIoPending then untilSome .stuck (waitTurn pipe event) n
    else
      call (.closeHandle event)
      if err = errorPipeConnected then return .ok true
      return .error err

/-- A client is connected: refuse it, or give it to a thread of its own. -/
def onClient (pipe : ℕ) : Prog Call Unit := do
  call (.count .sessionsAccepted)
  let active ← call .reserve
  if maxConcurrentSessions ≤ active then
    call .release
    reject pipe .tooManySessions
    call (.disconnectNamedPipe pipe)
    call (.closeHandle pipe)
  else
    let store ← call .store
    let spawned ← call (.spawnSession pipe store)
    if !spawned then
      call .release
      call (.disconnectNamedPipe pipe)
      call (.closeHandle pipe)

/-- One turn of `accept_loop`. -/
def acceptTurn (n : ℕ) : Prog Call (Option Unit) := do
  if ← call .shutdown then return some ()
  match ← createPipeInstance with
  | .error _ =>
    call .sleep
    return none
  | .ok pipe =>
    match ← waitForClient n pipe with
    | .ok true =>
      onClient pipe
      return none
    | .ok false =>
      call (.closeHandle pipe)
      return none
    | .error _ =>
      call (.closeHandle pipe)
      return none

/-- The turns of the loop that accepts clients, at most `n` of them. -/
def acceptLoop (n : ℕ) : Prog Call Unit := untilSome .stuck (acceptTurn n) n

/-! ### Services -/

open Polling

/-- `query_service_config`. The guard closes the service at each return. -/
def queryServiceConfig (scm : ℕ) (name : String) : Prog Call (Option ServiceConfig) := do
  let svc ← call (.openService scm name)
  if svc = 0 then return none
  let bytesNeeded ← call (.probeServiceConfig svc)
  if bytesNeeded = 0 then
    call (.closeServiceHandle svc)
    return none
  match ← call (.queryServiceConfig svc bytesNeeded) with
  | none =>
    call (.closeServiceHandle svc)
    return none
  | some cfg =>
    call (.closeServiceHandle svc)
    return some cfg.read

/-- The calls with a growing buffer. A failure closes the manager. -/
def fillServices (scm : ℕ) : ℕ → ℕ → Prog Call (Option (List EnumServiceStatus))
  | 0, _ => do
    call (.closeServiceHandle scm)
    return none
  | tries + 1, bufSize => do
    match ← call (.enumServices scm bufSize) with
    | .filled entries => return some entries
    | .failed lastError bytesNeeded =>
      if lastError ≠ Cycle.errorMoreData then
        call (.closeServiceHandle scm)
        return none
      fillServices scm tries (max bytesNeeded (bufSize + bufSize / 4))

/-- The configuration of an entry, carried over or asked for. -/
def configOf (scm : ℕ) (prev : Snapshots) (fullRescan : Bool) (e : EnumServiceStatus) :
    Prog Call ServiceConfig :=
  match carriedOver prev fullRescan e with
  | some config => return config
  | none => do
    let answer ← queryServiceConfig scm e.name
    return answer.getD .blank

/-- The snapshots of the entries, one after the other. -/
def snapshotEntries (scm : ℕ) (prev : Snapshots) (fullRescan : Bool) :
    List EnumServiceStatus → Snapshots → Prog Call Snapshots
  | [], map => return map
  | e :: entries, map => do
    if e.name = "" then snapshotEntries scm prev fullRescan entries map
    else
      let config ← configOf scm prev fullRescan e
      snapshotEntries scm prev fullRescan entries (map.insert e.name
        { toServiceConfig := config, displayName := wideToString e.displayName
          running := e.running })

/-- `enumerate_services`. -/
def enumerateServices (prev : Snapshots) (fullRescan : Bool) : Prog Call (Option Snapshots) := do
  let scm ← call .openSCManager
  if scm = 0 then return none
  let bytesNeeded ← call (.probeServices scm)
  if bytesNeeded = 0 then
    call (.closeServiceHandle scm)
    return some ∅
  match ← fillServices scm Cycle.maxRetries bytesNeeded with
  | none => return none
  | some entries =>
    let map ← snapshotEntries scm prev fullRescan entries ∅
    call (.closeServiceHandle scm)
    return some map

/-! ### What the calls do to handles -/

/-- The handles that a call works with. -/
def uses : {β : Type} → Call β → List Handle
  | _, .closeHandle h => [⟨.object, h⟩]
  | _, .terminateProcess hProc => [⟨.object, hProc⟩]
  | _, .queryFullProcessImageName hProc => [⟨.object, hProc⟩]
  | _, .openProcessToken hProc => [⟨.object, hProc⟩]
  | _, .getTokenInformation hTok _ => [⟨.object, hTok⟩]
  | _, .lookupAccountSid psid => [⟨.memory, psid⟩]
  | _, .localFree p => [⟨.memory, p⟩]
  | _, .readFile h => [⟨.object, h⟩]
  | _, .closeAlgorithmProvider alg => [⟨.algorithm, alg⟩]
  | _, .createHash alg => [⟨.algorithm, alg⟩]
  | _, .hashData hash _ => [⟨.hash, hash⟩]
  | _, .finishHash hash => [⟨.hash, hash⟩]
  | _, .destroyHash hash => [⟨.hash, hash⟩]
  | _, .closeTrust state => [⟨.trust, state⟩]
  | _, .probeServices scm => [⟨.service, scm⟩]
  | _, .enumServices scm _ => [⟨.service, scm⟩]
  | _, .openService scm _ => [⟨.service, scm⟩]
  | _, .probeServiceConfig svc => [⟨.service, svc⟩]
  | _, .queryServiceConfig svc _ => [⟨.service, svc⟩]
  | _, .closeServiceHandle h => [⟨.service, h⟩]
  | _, .connectNamedPipe pipe event => [⟨.object, pipe⟩, ⟨.object, event⟩]
  | _, .waitForSingleObject event => [⟨.object, event⟩]
  | _, .cancelIoEx pipe => [⟨.object, pipe⟩]
  | _, .disconnectNamedPipe pipe => [⟨.object, pipe⟩]
  | _, .getNamedPipeClientProcessId pipe => [⟨.object, pipe⟩]
  | _, .readFrame pipe => [⟨.object, pipe⟩]
  | _, .writeFrame pipe _ => [⟨.object, pipe⟩]
  | _, .spawnSession pipe _ => [⟨.object, pipe⟩]
  | _, _ => []

/-- The handle that a call gave, unless it gave its sentinel. -/
def given (kind : HandleKind) (sentinel : ℕ) (h : ℕ) : Deed Call Handle :=
  if h = sentinel then .nothing else .opens ⟨kind, h⟩

/-- What a call does. `WinVerifyTrust` leaves a state whether or not it succeeds. -/
def deed (n : ℕ) (toLowercase : String → String) : {β : Type} → Call β → β → Deed Call Handle
  | _, .closeHandle h, _ => .closes ⟨.object, h⟩
  | _, .openProcess _, h => given .object 0 h
  | _, .openProcessToken _, some h => .opens ⟨.object, h⟩
  | _, .convertStringSidToSid _, some p => .opens ⟨.memory, p⟩
  | _, .localFree p, _ => .closes ⟨.memory, p⟩
  | _, .createFile _, h => given .object invalidHandleValue h
  | _, .openAlgorithmProvider, .ok alg => .opens ⟨.algorithm, alg⟩
  | _, .closeAlgorithmProvider alg, _ => .closes ⟨.algorithm, alg⟩
  | _, .createHash _, .ok hash => .opens ⟨.hash, hash⟩
  | _, .destroyHash hash, _ => .closes ⟨.hash, hash⟩
  | _, .verifyTrust _, (_, state) => .opens ⟨.trust, state⟩
  | _, .closeTrust state, _ => .closes ⟨.trust, state⟩
  | _, .openSCManager, h => given .service 0 h
  | _, .openService _ _, h => given .service 0 h
  | _, .closeServiceHandle h, _ => .closes ⟨.service, h⟩
  | _, .createNamedPipe, h => if h = 0 then .nothing else given .object invalidHandleValue h
  | _, .createEvent, h => given .object 0 h
  | _, .spawnSession pipe store, spawned =>
    if spawned then .gives ⟨.object, pipe⟩ (sessionThread n toLowercase pipe store) else .nothing
  | _, _, _ => .nothing

theorem held_given (kind : HandleKind) (sentinel h : ℕ) : (given kind sentinel h).held = [] := by
  rw [given]
  split_ifs <;> rfl

/-- The calls as a custody. -/
def custody (n : ℕ) (toLowercase : String → String) : Custody Call Handle where
  uses := uses
  deed := deed n toLowercase
  held_subset o b := by
    cases o with
    | openProcess | createFile | openSCManager | openService | createEvent =>
      simp [deed, held_given]
    | openProcessToken | convertStringSidToSid | openAlgorithmProvider | createHash =>
      cases b <;> simp [deed, Deed.held]
    | createNamedPipe =>
      simp only [deed]
      split_ifs
      · simp [Deed.held]
      · simp [held_given]
    | spawnSession =>
      simp only [deed]
      split_ifs <;> simp [Deed.held, uses]
    | _ => simp [deed, Deed.held, uses]

end Win32

end WazabiAgent
