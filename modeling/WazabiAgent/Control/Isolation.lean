import WazabiAgent.Lib.Json
import WazabiAgent.Lib.Program
import WazabiAgent.Lib.Transition

/-!
# Network isolation

`execute_isolate` saves the firewall policy to a file with `netsh advfirewall export`, resets the
firewall and installs a policy that blocks all but a few hosts. `execute_unisolate` imports the
file and deletes it. Each call of `netsh` and each file operation can fail; the commands look at
the outcome of a step only to report it.

The commands are programs over `FwOp`, and `perform` says what an operation does to the host. A
policy is a value of an arbitrary type `P`: what the firewall commands do to it is a parameter,
and a command that fails may leave any policy behind. An export that fails may leave anything in
the backup file.

## Ghost state

`Host` also records what no program reads: the policy of the time when the isolation in progress
reset the firewall (`preIsolation`, until an import has restored it), whether the command that
runs is an isolate, and whether an import has ever brought back another policy than that of the
isolation in progress.

## Main definitions

* `executeIsolate`, `executeUnisolate` — the two commands
* `Host`, `perform` — the host, and the operations on it
* `Executor.step` — commands one after the other, cut short by crashes, beside edits of the policy
-/

namespace WazabiAgent

namespace Control

open Prog

/-! ### Commands of netsh -/

/-- The `netsh advfirewall` commands. -/
inductive Netsh
  | exportTo
  | importFrom
  | reset
  | stateOn
  | firewallPolicy (policy : String)
  | addRule (suffix dir : String) (scope : List String)
  deriving DecidableEq

/-- What the names of the isolation's rules begin with. -/
def isolateRulePrefix : String := "WazabiEDR-Isolate"

/-- The file that `export` writes, below `%ProgramData%`. -/
def isolationBackupPath (programData : Option String) : String :=
  programData.getD "C:\\ProgramData" ++ "\\WazabiEDR\\firewall_pre_isolation.wfw"

/-- The arguments of the call. -/
def Netsh.args (path : String) : Netsh → List String
  | .exportTo => ["advfirewall", "export", path]
  | .importFrom => ["advfirewall", "import", path]
  | .reset => ["advfirewall", "reset"]
  | .stateOn => ["advfirewall", "set", "allprofiles", "state", "on"]
  | .firewallPolicy policy => ["advfirewall", "set", "allprofiles", "firewallpolicy", policy]
  | .addRule suffix dir scope =>
    ["advfirewall", "firewall", "add", "rule", "name=" ++ isolateRulePrefix ++ "-" ++ suffix,
      "dir=" ++ dir, "action=allow", "enable=yes", "profile=any"] ++ scope

/-- `run_netsh_add_allow`. -/
def Netsh.addAllow (suffix dir remoteIpCsv : String) : Netsh :=
  .addRule suffix dir ["remoteip=" ++ remoteIpCsv]

/-- The rules for DHCP and DHCPv6. -/
def Netsh.addDhcp (suffix dir : String) : Netsh :=
  .addRule suffix dir ["protocol=udp", "localport=68,546", "remoteport=67,547"]

/-- What is seen of a call. -/
inductive NetshOutput
  | exited (success : Bool) (code : Json) (stdout stderr : String)
  | spawnFailed (error : String)

/-- The command ran and succeeded. -/
def NetshOutput.ok : NetshOutput → Bool
  | .exited success _ _ _ => success
  | .spawnFailed _ => false

/-- What `netsh_invoke` reports. -/
def NetshOutput.toJson (args : List String) : NetshOutput → Json
  | .exited success code stdout stderr =>
    .object [("ok", .bool success), ("exit_code", code), ("args", .array (args.map .string)),
      ("stdout", .string stdout), ("stderr", .string stderr)]
  | .spawnFailed error =>
    .object [("ok", .bool false), ("exit_code", .null), ("args", .array (args.map .string)),
      ("error", .string ("spawn netsh failed: " ++ error))]

/-! ### The two commands -/

/-- What the commands ask of the system. -/
inductive FwOp : Type → Type
  | resolveHostToIpv4 (host : String) : FwOp (Option String)
  | backupExists : FwOp Bool
  | createParentDir : FwOp Unit
  | netsh (c : Netsh) : FwOp NetshOutput
  /-- `remove_file`; answers with the error. -/
  | removeBackup : FwOp (Option String)
  | now : FwOp String

/-- What is reported of a command. -/
structure ExecutionResult where
  status : String
  result : Json

/-- A line of a command: a marker for the report, or a call. -/
inductive Planned
  | step (name : String)
  | netsh (c : Netsh)

/-- Calls in sequence, none of which depends on the outcome of another. -/
def runAll (path : String) : List Planned → Prog FwOp (List Json)
  | [] => return []
  | .step name :: ps => do
    let actions ← runAll path ps
    return .object [("step", .string name)] :: actions
  | .netsh c :: ps => do
    let out ← call (.netsh c)
    let actions ← runAll path ps
    return out.toJson (c.args path) :: actions

/-- Addresses of the hosts that resolve, and the names of the others. -/
def resolveAll : List String → Prog FwOp (List String × List String)
  | [] => return ([], [])
  | host :: hosts => do
    let ip ← call (.resolveHostToIpv4 host)
    let (ips, unresolved) ← resolveAll hosts
    match ip with
    | some ip => return (ip :: ips, unresolved)
    | none => return (ips, host :: unresolved)

/-- Step 1: the backup, unless there is one. -/
def saveBackup (path : String) : Prog FwOp (List Json) := do
  if ← call .backupExists then
    return [.object [("step", .string "backup_skipped"),
      ("reason", .string "backup already present from a previous isolate"),
      ("path", .string path)]]
  else
    call .createParentDir
    let out ← call (.netsh .exportTo)
    return [.object [("step", .string "backup"), ("path", .string path)],
      out.toJson (Netsh.exportTo.args path)]

/-- Steps 2 to 6. -/
def isolationScript (allowedIps : List String) : List Planned :=
  [.step "reset", .netsh .reset, .step "enable_firewall", .netsh .stateOn,
    .step "set_policy_block_all", .netsh (.firewallPolicy "blockinbound,blockoutbound"),
    .step "allow_loopback", .netsh (.addAllow "LoopOut" "out" "127.0.0.1,::1"),
    .netsh (.addAllow "LoopIn" "in" "127.0.0.1,::1")] ++
  (if allowedIps = [] then []
  else [.netsh (.addAllow "ServerOut" "out" (",".intercalate allowedIps)),
    .netsh (.addAllow "ServerIn" "in" (",".intercalate allowedIps))]) ++
  [.step "allow_dhcp", .netsh (.addDhcp "DHCP-Out" "out"), .netsh (.addDhcp "DHCP-In" "in")]

/-- A report without the field `ok` is a marker, and counts as a success. -/
def allOk (actions : List Json) : Bool :=
  actions.all fun a => ((a.get "ok").bind Json.asBool).getD true

/-- The hosts that stay reachable. -/
def allowedHosts (payload : Json) : List String :=
  (((payload.get "allowed_hosts").bind Json.asArray).map fun a =>
    (a.filterMap Json.asStr).filter (· ≠ "")).getD []

/-- The steps of an isolation. -/
def executeIsolate (path : String) (payload : Json) : Prog FwOp ExecutionResult := do
  -- before the reset: there is no DNS afterwards
  let (allowedIps, unresolved) ← resolveAll (allowedHosts payload)
  let backup ← saveBackup path
  let calls ← runAll path (isolationScript allowedIps)
  let executedAt ← call .now
  return {
    status := if allOk (backup ++ calls) then "success" else "failed"
    result := .object [("executed_at", .string executedAt), ("action", .string "isolate_endpoint"),
      ("allowed_hosts", .array ((allowedHosts payload).map .string)),
      ("allowed_ips", .array (allowedIps.map .string)),
      ("unresolved_hosts", .array (unresolved.map .string)), ("backup_path", .string path),
      ("netsh_actions", .array (backup ++ calls)),
      ("reason", (payload.get "reason").getD .null)] }

/-- The restore, or the reset where there is nothing to restore. -/
def restoreBackup (path : String) : Prog FwOp (List Json) := do
  if ← call .backupExists then
    let out ← call (.netsh .importFrom)
    -- the file goes whatever the import came to
    let removed ← call .removeBackup
    return [.object [("step", .string "import_backup"), ("path", .string path)],
      out.toJson (Netsh.importFrom.args path),
      match removed with
      | none => .object [("step", .string "backup_removed")]
      | some e => .object [("step", .string "backup_remove_failed"), ("error", .string e)]]
  else
    let calls ← runAll path [.netsh .reset, .netsh .stateOn,
      .netsh (.firewallPolicy "blockinbound,allowoutbound")]
    return .object [("step", .string "no_backup_fallback_reset"),
      ("note", .string
        "no isolation backup found at \x7b\x7d — performing a firewall reset")] :: calls

/-- The steps of the end of an isolation. -/
def executeUnisolate (path : String) : Prog FwOp ExecutionResult := do
  let actions ← restoreBackup path
  let executedAt ← call .now
  return {
    status := if allOk actions then "success" else "completed"
    result := .object [("executed_at", .string executedAt),
      ("action", .string "unisolate_endpoint"), ("backup_path", .string path),
      ("netsh_actions", .array actions)] }

/-! ### The host -/

/-- The backup file. -/
inductive Backup (P : Type)
  | absent
  | wfw (policy : P)
  | damaged
  deriving DecidableEq

/-- What the commands that set the policy make of it. -/
structure Firewall (P : Type) where
  reset : P
  stateOn : P → P
  firewallPolicy : String → P → P
  addRule : List String → P → P

/-- The firewall and the backup of its policy. -/
structure Host (P : Type) where
  live : P
  backup : Backup P
  /-- Ghost: the command that runs, if one does, is an isolate. -/
  isolating : Bool := false
  /-- Ghost: the policy that the isolation in progress replaced. -/
  preIsolation : Option P := none
  /-- Ghost: an import brought back the policy of another isolation. -/
  staleImport : Bool := false
  deriving DecidableEq

/-- The environment's part in one operation. What a failed command leaves behind is in `live` and
`backup`, where these are given. -/
structure Choice (P : Type) where
  ok : Bool := true
  output : NetshOutput := .exited true (.number "0") "" ""
  live : Option P := none
  backup : Option (Backup P) := none
  answer : Option String := none
  error : String := ""
  time : String := ""

variable {P : Type} [DecidableEq P]

/-- A successful import of `q`. -/
def Host.restore (w : Host P) (q : P) : Host P :=
  { w with
    live := q
    preIsolation := if w.preIsolation = some q then none else w.preIsolation
    staleImport := w.staleImport || decide (w.preIsolation ≠ none ∧ w.preIsolation ≠ some q) }

/-- The reset of an isolate begins an isolation, unless one is in progress. -/
def Host.beginIsolation (w : Host P) : Host P :=
  if w.isolating = true ∧ w.preIsolation = none then { w with preIsolation := some w.live } else w

/-- A command that sets the policy. -/
def Host.set (w : Host P) (policy : P) (c : Choice P) : Host P :=
  { w with live := if c.output.ok then policy else c.live.getD w.live }

/-- What a command of netsh does. -/
def Host.netsh (fw : Firewall P) (w : Host P) (c : Choice P) : Netsh → Host P
  | .exportTo =>
    { w with backup := if c.output.ok then .wfw w.live else c.backup.getD w.backup }
  | .importFrom =>
    match w.backup, c.output.ok with
    | .wfw q, true => w.restore q
    | _, _ => { w with live := c.live.getD w.live }
  | .reset => w.beginIsolation.set fw.reset c
  | .stateOn => w.set (fw.stateOn w.live) c
  | .firewallPolicy policy => w.set (fw.firewallPolicy policy w.live) c
  | .addRule suffix dir scope =>
    w.set (fw.addRule ((Netsh.addRule suffix dir scope).args "") w.live) c

/-- What is reported of the call: an import without a backup to read does not succeed. -/
def Host.output (w : Host P) (c : Choice P) : Netsh → NetshOutput
  | .importFrom =>
    match w.backup with
    | .wfw _ => c.output
    | _ => if c.output.ok then .exited false (.number "1") "" "" else c.output
  | _ => c.output

/-- What an operation does to the host, for a choice of outcome. -/
def perform (fw : Firewall P) {β : Type} : FwOp β → Host P → Choice P → β × Host P
  | .resolveHostToIpv4 _, w, c => (c.answer, w)
  | .backupExists, w, c => (c.ok && decide (w.backup ≠ .absent), w)
  | .createParentDir, w, _ => ((), w)
  | .netsh cmd, w, c => (w.output c cmd, w.netsh fw c cmd)
  | .removeBackup, w, c =>
    if c.ok = true ∧ w.backup ≠ .absent then (none, { w with backup := .absent })
    else (some c.error, w)
  | .now, w, c => (c.time, w)

/-! ### Commands in sequence -/

/-- The thread that executes the commands, and the host. -/
structure Executor (P : Type) where
  host : Host P
  running : Option (Prog FwOp ExecutionResult) := none

namespace Executor

/-- What happens next. -/
inductive Label (P : Type)
  | isolate (payload : Json)
  | unisolate
  | op (c : Choice P)
  /-- The command has returned. -/
  | done
  /-- The agent dies, and is started again. -/
  | crash
  /-- Somebody else changes the policy. -/
  | edit (policy : P)

/-- One step of the thread that runs the commands. -/
def step (fw : Firewall P) (path : String) (s : Executor P) : Label P → Option (Executor P)
  | .isolate payload =>
    match s.running with
    | none => some ⟨{ s.host with isolating := true }, some (executeIsolate path payload)⟩
    | some _ => none
  | .unisolate =>
    match s.running with
    | none => some ⟨{ s.host with isolating := false }, some (executeUnisolate path)⟩
    | some _ => none
  | .op c =>
    match s.running with
    | some (.op o k) => some ⟨(perform fw o s.host c).2, some (k (perform fw o s.host c).1)⟩
    | _ => none
  | .done =>
    match s.running with
    | some (.pure _) => some { s with running := none }
    | _ => none
  | .crash => some { s with running := none }
  | .edit policy => some { s with host := { s.host with live := policy } }

/-- A host on which no isolation is in progress, with whatever an earlier agent has left. -/
def start (live : P) (backup : Backup P) : Executor P := ⟨{ live, backup }, none⟩

end Executor

end Control

end WazabiAgent
