import WazabiAgent.Config.Sections
import WazabiAgent.Control.Isolation
import WazabiAgent.Lib.Binary
import WazabiAgent.Lib.PipedProcess
import WazabiAgent.Lib.Reader
import WazabiAgent.Lib.Text
import WazabiAgent.Lib.Utf8Lossy

/-!
# The output of children

`execute_run_shell` (`control/executor.rs`) runs a command of the administrator and reports its
output. `invoke_wedr_plugin` (`plugin/assignment.rs`) calls the tool that manages the manifests.
Both give the child two pipes, poll until it has exited or the time is over, and only then read the
pipes. Nobody takes anything out of them before, so a child that writes more than they hold waits
for room until it is killed.

## Time

Times are in nanoseconds from the spawn. What the child does is given together with the time it
takes, apart from writes: these take none, but may have to wait. Whatever else passes between two
calls of the parent is `Poll`.

## Main definitions

* `executeRunShell`, `readCapped`, `invokeWedrPlugin` — the functions
* `ReportsRun`, `Child.toolResult` — what they should make of a child

## Main results

* `children_reported_iff` — they do if the pipes hold the whole output and the exit is seen
-/

namespace WazabiAgent

namespace Control

open Config PipedProcess Watchdog Utf8
open Text (isWhitespace)

/-! ### Children -/

/-- The pipes of a child. -/
inductive Stream
  | stdout
  | stderr
  deriving DecidableEq

/-- What a child does to its pipes, and the code it exits with. -/
structure Child where
  acts : List (Act Stream UInt8)
  exitCode : UInt32

namespace Child

/-- `ExitStatus::code`. -/
def code (c : Child) : Int := Binary.toSigned UInt32.size c.exitCode.toNat

/-- All that it writes to a stream. -/
def output (c : Child) (i : Stream) : List UInt8 := PipedProcess.output i c.acts

/-- The time that the child runs. -/
def duration (c : Child) : ℕ := PipedProcess.duration c.acts

/-- It exits within the time if its output is read as it comes. -/
def ExitsIfRead (c : Child) (time : ℕ) : Prop := ((start c.acts).run none time).ended = true

/-- The pipes hold all that it writes. -/
def Fits (c : Child) (capacity : ℕ) : Prop := ∀ i, (c.output i).length ≤ capacity

theorem exitsIfRead_iff (c : Child) (time : ℕ) : c.ExitsIfRead time ↔ c.duration ≤ time :=
  ended_runFor_read time c.acts _

end Child

/-- Nanoseconds. -/
def seconds (n : ℕ) : ℕ := n * 1000000000

/-- Nanoseconds. -/
def millis (n : ℕ) : ℕ := n * 1000000

/-! ### Reading a pipe -/

/-- The loop of `read_capped`. A reader is what it answers to one call after the other. -/
def readBytes (cap : ℕ) (buf : List UInt8) : List (Except String (List UInt8)) → List UInt8 × Bool
  | [] => (buf, false)
  | .error _ :: _ => (buf, false)
  | .ok chunk :: reads =>
    if chunk = [] then (buf, false)
    else if cap < buf.length + chunk.length then (buf ++ chunk.take (cap - buf.length), true)
    else readBytes cap (buf ++ chunk) reads

/-- `read_capped`. -/
def readCapped (reader : Option (List (Except String (List UInt8)))) (cap : ℕ) : String × Bool :=
  match reader with
  | none => ("", false)
  | some reads => (fromUtf8Lossy (readBytes cap [] reads).1, (readBytes cap [] reads).2)

/-- The answers of a pipe that nobody writes to any more. A call takes up to 8192 bytes, and the
number beyond the first is not the reader's to decide; at the end it takes them one by one. -/
def pipeReads : List ℕ → List UInt8 → List (Except String (List UInt8))
  | [], content => content.map (fun b => .ok [b]) ++ [.ok []]
  | n :: cuts, content =>
    if content = [] then [.ok []]
    else .ok (content.take (min (n + 1) 8192)) :: pipeReads cuts (content.drop (min (n + 1) 8192))

/-! ### `run_shell` -/

/-- `MAX_SHELL_OUTPUT_BYTES`. -/
def maxShellOutputBytes : ℕ := 64 * 1024

/-- What `execute_run_shell` meets with. -/
structure ShellEnv where
  spawn : Except String Child
  startedAt : String
  polls : ℕ → Poll := fun _ => {}
  cuts : Stream → List ℕ := fun _ => []
  /-- The time that reading takes. -/
  reading : ℕ := 0

/-- The command, unless it is blank. -/
def shellCommand (payload : Json) : Option String :=
  ((payload.get "command").bind Json.asStr).filter (· ≠ "")

/-- The time limit: 30 s by default, at most ten minutes. -/
def timeoutSecs (payload : Json) : ℕ :=
  max 1 (min (((payload.get "timeout_seconds").bind Json.asU64).getD 30) 600)

/-- The directory that the command names. -/
def workingDir (payload : Json) : Option String := (payload.get "working_dir").bind Json.asStr

/-- The loop that waits for the shell. -/
def shellWatchdog (payload : Json) : Watchdog where
  timeout := seconds (timeoutSecs payload)
  pause := millis 100
  pause_pos := by decide

/-- The report of a command that has run. -/
def shellReport (env : ShellEnv) (payload : Json) (command : String) (exitCode : Option Int)
    (timedOut : Bool) (now : ℕ) (s : State Stream UInt8) : ExecutionResult :=
  let stdout := readCapped (some (pipeReads (env.cuts .stdout) (s.pipes .stdout)))
    maxShellOutputBytes
  let stderr := readCapped (some (pipeReads (env.cuts .stderr) (s.pipes .stderr)))
    maxShellOutputBytes
  { -- a command that fails has run all the same
    status := if timedOut then "failed" else "success"
    result := .object [("started_at", .string env.startedAt),
      ("duration_ms", .number (toString ((now + env.reading) / 1000000))),
      ("command", .string command),
      ("working_dir", ((workingDir payload).map .string).getD .null),
      ("exit_code", (exitCode.map fun code => .number (toString code)).getD .null),
      ("timed_out", .bool timedOut), ("stdout", .string stdout.1), ("stderr", .string stderr.1),
      ("stdout_truncated", .bool stdout.2), ("stderr_truncated", .bool stderr.2),
      ("max_output_bytes", .number (toString maxShellOutputBytes))] }

/-- What comes after the loop. -/
def shellResult (env : ShellEnv) (payload : Json) (command : String) (code : Int) :
    WaitEnd Stream UInt8 → ExecutionResult
  | .exited now s => shellReport env payload command (some code) false now s
  | .timedOut now s => shellReport env payload command none true now s
  | .failed e =>
    { status := "failed"
      result := .object [("error", .string ("wait failed: " ++ e)), ("command", .string command)] }

/-- `execute_run_shell`. -/
def executeRunShell (capacity : ℕ) (env : ShellEnv) (payload : Json) : ExecutionResult :=
  match shellCommand payload with
  | none =>
    { status := "failed"
      result := .object [("error", .string "missing or empty 'command' in payload"),
        ("got", payload)] }
  | some command =>
    match env.spawn with
    | .error e =>
      { status := "failed"
        result := .object [("error", .string ("spawn cmd.exe failed: " ++ e)),
          ("command", .string command)] }
    | .ok child =>
      shellResult env payload command child.code
        ((shellWatchdog payload).wait (some capacity) env.polls 0 0 (start child.acts))

/-- The report that a child should get. -/
structure ReportsRun (child : Child) (r : ExecutionResult) : Prop where
  status : r.status = "success"
  exitCode : r.result.get "exit_code" = some (.number (toString child.code))
  timedOut : r.result.get "timed_out" = some (.bool false)
  stdout : r.result.get "stdout"
    = some (.string (fromUtf8Lossy ((child.output .stdout).take maxShellOutputBytes)))
  stderr : r.result.get "stderr"
    = some (.string (fromUtf8Lossy ((child.output .stderr).take maxShellOutputBytes)))
  stdoutTruncated : r.result.get "stdout_truncated"
    = some (.bool (decide (maxShellOutputBytes < (child.output .stdout).length)))
  stderrTruncated : r.result.get "stderr_truncated"
    = some (.bool (decide (maxShellOutputBytes < (child.output .stderr).length)))

/-! ### `wedr-plugin` -/

/-- `WEDR_PLUGIN_EXE_BASENAME`. -/
def wedrPluginExeBasename : String := "wedr-plugin.exe"

/-- What `invoke_wedr_plugin` meets with. -/
structure ToolEnv where
  /-- The variables `WEDR_PLUGIN_EXE` and `ProgramFiles`. -/
  wedrPluginExe : Option String := none
  programFiles : Option String := none
  isFile : String → Bool
  /-- `{:?}` of a path. -/
  quoted : String → String
  /-- The child that an executable makes. -/
  spawn : String → Except String Child
  polls : ℕ → Poll := fun _ => {}
  /-- `wait_with_output` fails. -/
  drainError : Option String := none

/-- `resolve_wedr_plugin_exe`. -/
def resolveWedrPluginExe (env : ToolEnv) : Except String String :=
  match env.wedrPluginExe with
  | some path =>
    if env.isFile path then .ok path
    else .error ("WEDR_PLUGIN_EXE pointe sur un fichier inexistant: " ++ env.quoted path)
  | none =>
    match env.programFiles with
    | none => .ok wedrPluginExeBasename
    | some pf =>
      let path := join (join pf "WazabiEDR") wedrPluginExeBasename
      if env.isFile path then .ok path else .ok wedrPluginExeBasename

/-- `WEDR_PLUGIN_TIMEOUT`, and the pause of the loop. -/
def toolWatchdog : Watchdog where
  timeout := seconds 60
  pause := millis 50
  pause_pos := by decide

/-- What is made of a status and all of the output. -/
def toolResult (code : Int) (stdout stderr : List UInt8) : Except String String :=
  if code = 0 then .ok (fromUtf8Lossy stdout)
  else .error ("exit=Some(" ++ toString code ++ ") stderr=" ++
    String.ofList (Text.trim isWhitespace (fromUtf8Lossy stderr).toList))

/-- What comes after the loop. -/
def afterTool (env : ToolEnv) (exe : String) (code : Int) :
    WaitEnd Stream UInt8 → Except String String
  | .failed e => .error ("wait " ++ env.quoted exe ++ ": " ++ e)
  | .timedOut _ _ => .error "wedr-plugin timeout après 60s"
  | .exited _ s =>
    match env.drainError with
    | some e => .error ("wait_with_output " ++ env.quoted exe ++ ": " ++ e)
    | none => toolResult code (s.pipes .stdout) (s.pipes .stderr)

/-- `invoke_wedr_plugin`: waits for the tool, then reads its pipes. -/
def invokeWedrPlugin (capacity : ℕ) (env : ToolEnv) : Except String String := do
  let exe ← resolveWedrPluginExe env
  let child ← (env.spawn exe).mapError fun e => "spawn " ++ env.quoted exe ++ ": " ++ e
  afterTool env exe child.code
    (toolWatchdog.wait (some capacity) env.polls 0 0 (start child.acts))

/-- The result that a child should have. -/
def Child.toolResult (c : Child) : Except String String :=
  Control.toolResult c.code (c.output .stdout) (c.output .stderr)

/-! ### What is read -/

/-- However a pipe is cut, its content is read. -/
theorem yielded_pipeReads (cuts : List ℕ) (content : List UInt8) :
    Reader.yielded (pipeReads cuts content) = content := by
  induction cuts generalizing content with
  | nil =>
    rw [pipeReads]
    induction content with
    | nil => rfl
    | cons b content ih => exact congrArg (b :: ·) ih
  | cons n cuts ih =>
    rw [pipeReads]
    split_ifs with hempty
    · rw [hempty]
      rfl
    · have htake : content.take (min (n + 1) 8192) ≠ [] := by
        rw [Ne, List.take_eq_nil_iff]
        rintro (hmin | hnil)
        · omega
        · exact hempty hnil
      rw [Reader.yielded_piece htake, ih, List.take_append_drop]

theorem kept_eq {cap : ℕ} {buf : List UInt8} (hbuf : buf.length ≤ cap) :
    ((buf ++ []).take cap, decide (cap < (buf ++ []).length)) = (buf, false) := by
  rw [List.append_nil, List.take_of_length_le hbuf, decide_eq_false (Nat.not_lt.mpr hbuf)]

/-- What is kept of the answers is the beginning of what they yield. -/
theorem readBytes_eq {cap : ℕ} {buf : List UInt8} (hbuf : buf.length ≤ cap)
    (reads : List (Except String (List UInt8))) :
    readBytes cap buf reads = ((buf ++ Reader.yielded reads).take cap,
      decide (cap < (buf ++ Reader.yielded reads).length)) := by
  induction reads generalizing buf with
  | nil => exact (kept_eq hbuf).symm
  | cons answer reads ih =>
    rcases answer with e | chunk
    · exact (kept_eq hbuf).symm
    · by_cases hchunk : chunk = []
      · subst hchunk
        exact (kept_eq hbuf).symm
      rw [readBytes, if_neg hchunk, Reader.yielded_piece hchunk, ← List.append_assoc]
      split_ifs with hover
      · rw [← List.length_append] at hover
        rw [List.take_append_of_le_length (by omega), List.take_append,
          List.take_of_length_le hbuf, List.length_append, decide_eq_true (by omega)]
      · exact ih (by rw [List.length_append]; omega)

theorem readCapped_eq (reads : List (Except String (List UInt8))) (cap : ℕ) :
    readCapped (some reads) cap = (fromUtf8Lossy ((Reader.yielded reads).take cap),
      decide (cap < (Reader.yielded reads).length)) := by
  rw [readCapped, readBytes_eq (Nat.zero_le cap), List.nil_append]

/-- `read_capped` of a pipe that nobody writes to any more. -/
theorem readCapped_pipeReads (cuts : List ℕ) (content : List UInt8) (cap : ℕ) :
    readCapped (some (pipeReads cuts content)) cap
      = (fromUtf8Lossy (content.take cap), decide (cap < content.length)) := by
  rw [readCapped_eq, yielded_pipeReads]

variable {capacity : ℕ} {child : Child}

/-! ### `run_shell` -/

section

variable {env : ShellEnv} {payload : Json} {command : String}

theorem reportsRun_shellReport {now : ℕ} {s : State Stream UInt8}
    (hs : ∀ i, s.pipes i = child.output i) :
    ReportsRun child (shellReport env payload command (some child.code) false now s) := by
  constructor
  · rfl
  all_goals simp [shellReport, readCapped_pipeReads, hs, Json.get]

theorem executeRunShell_eq (hcommand : shellCommand payload = some command)
    (hspawn : env.spawn = .ok child) :
    executeRunShell capacity env payload = shellResult env payload command child.code
      ((shellWatchdog payload).wait (some capacity) env.polls 0 0 (start child.acts)) := by
  rw [executeRunShell, hcommand]
  dsimp only
  rw [hspawn]

/-- The report is the one the child should get if its exit was seen. -/
theorem reportsRun_iff_exited (hcommand : shellCommand payload = some command)
    (hspawn : env.spawn = .ok child) :
    ReportsRun child (executeRunShell capacity env payload) ↔
      ∃ now s, (shellWatchdog payload).wait (some capacity) env.polls 0 0 (start child.acts)
        = .exited now s := by
  rw [executeRunShell_eq hcommand hspawn]
  constructor
  · intro h
    cases hwait : (shellWatchdog payload).wait (some capacity) env.polls 0 0 (start child.acts) with
    | exited now s => exact ⟨now, s, rfl⟩
    | timedOut now s =>
      rw [hwait] at h
      cases h.timedOut
    | failed e =>
      rw [hwait] at h
      cases h.timedOut
  · rintro ⟨now, s, hwait⟩
    rw [hwait]
    exact reportsRun_shellReport (pipes_of_exited hwait)

end

/-! ### `wedr-plugin` -/

section

variable {env : ToolEnv} {exe : String}

theorem invokeWedrPlugin_eq (hexe : resolveWedrPluginExe env = .ok exe)
    (hspawn : env.spawn exe = .ok child) :
    invokeWedrPlugin capacity env = afterTool env exe child.code
      (toolWatchdog.wait (some capacity) env.polls 0 0 (start child.acts)) := by
  rw [invokeWedrPlugin, hexe]
  dsimp only [bind, Except.bind]
  rw [hspawn]
  rfl

/-- An error that does not begin like a report of the exit code is none. -/
theorem toolResult_ne_error (e : String) : child.toolResult ≠ .error ("w" ++ e) := by
  rw [Child.toolResult, toolResult]
  split_ifs
  · exact fun h => by cases h
  · intro h
    have hchars := congrArg String.toList (Except.error.inj h)
    simp [String.toList_append] at hchars

theorem toolResult_iff_exited (hexe : resolveWedrPluginExe env = .ok exe)
    (hspawn : env.spawn exe = .ok child) :
    invokeWedrPlugin capacity env = child.toolResult ↔
      (∃ now s, toolWatchdog.wait (some capacity) env.polls 0 0 (start child.acts)
        = .exited now s) ∧ env.drainError = none := by
  rw [invokeWedrPlugin_eq hexe hspawn]
  constructor
  · intro h
    cases hwait : toolWatchdog.wait (some capacity) env.polls 0 0 (start child.acts) with
    | failed e =>
      rw [hwait] at h
      exact absurd h.symm (toolResult_ne_error ("ait " ++ env.quoted exe ++ ": " ++ e))
    | timedOut now s =>
      rw [hwait] at h
      exact absurd h.symm (toolResult_ne_error "edr-plugin timeout après 60s")
    | exited now s =>
      refine ⟨⟨now, s, rfl⟩, ?_⟩
      rw [hwait] at h
      cases hdrain : env.drainError with
      | none => rfl
      | some e =>
        simp only [afterTool, hdrain] at h
        exact absurd h.symm
          (toolResult_ne_error ("ait_with_output " ++ env.quoted exe ++ ": " ++ e))
  · rintro ⟨⟨now, s, hwait⟩, hdrain⟩
    rw [hwait, afterTool, hdrain]
    dsimp only
    rw [pipes_of_exited hwait, pipes_of_exited hwait]
    rfl

end

/-- **The children that are reported as they ran**, by either function: those whose output the pipes
hold, and whose exit a turn of the loop sees before another finds the time over. -/
theorem children_reported_iff {shell : ShellEnv} {payload : Json} {command : String}
    {tool : ToolEnv} {exe : String} (hcommand : shellCommand payload = some command)
    (hshell : shell.spawn = .ok child) (hexe : resolveWedrPluginExe tool = .ok exe)
    (htool : tool.spawn exe = .ok child) :
    ((child.ExitsIfRead (shellWatchdog payload).timeout →
        ReportsRun child (executeRunShell capacity shell payload)) ↔
      (child.ExitsIfRead (shellWatchdog payload).timeout →
        child.Fits capacity ∧ (shellWatchdog payload).SeesEnd shell.polls child.duration)) ∧
    ((child.ExitsIfRead toolWatchdog.timeout →
        invokeWedrPlugin capacity tool = child.toolResult) ↔
      (child.ExitsIfRead toolWatchdog.timeout →
        (child.Fits capacity ∧ toolWatchdog.SeesEnd tool.polls child.duration) ∧
          tool.drainError = none)) := by
  constructor
  · rw [reportsRun_iff_exited hcommand hshell, exited_iff]
    rfl
  · rw [toolResult_iff_exited hexe htool, exited_iff]
    rfl

/-- A child without delays around it. -/
def shellOf (child : Child) : ShellEnv where
  spawn := .ok child
  startedAt := "2026-01-01T00:00:00.000Z"

/-- A machine where the tool is this child. -/
def toolOf (child : Child) : ToolEnv where
  isFile := fun _ => false
  quoted := fun path => path
  spawn := fun _ => .ok child

/-- A payload with a short command. -/
def dirPayload : Json := .object [("command", .string "dir")]

/-- Five milliseconds, and a line. -/
def greeter : Child where
  acts := .work (millis 5) :: ("ok\n".toList.map fun c => .write .stdout c.toUInt8)
  exitCode := 0

theorem greeter_reported :
    ReportsRun greeter (executeRunShell 4096 (shellOf greeter) dirPayload) ∧
      invokeWedrPlugin 4096 (toolOf greeter) = .ok "ok\n" := by
  have hfits : greeter.Fits 4096 := by
    intro i
    cases i <;> decide
  have hexits (time : ℕ) (h : millis 5 ≤ time) : greeter.ExitsIfRead time :=
    (greeter.exitsIfRead_iff time).mpr h
  have hsees (w : Watchdog) (h : millis 5 ≤ w.timeout) :
      w.SeesEnd (fun _ => {}) greeter.duration :=
    seesEnd_of_check_eq_zero (fun _ => rfl) (fun _ => rfl) h
  obtain ⟨hshell, htool⟩ := @children_reported_iff 4096 greeter (shellOf greeter) dirPayload "dir"
    (toolOf greeter) "wedr-plugin.exe" (by decide) rfl rfl rfl
  constructor
  · exact hshell.mpr (fun _ => ⟨hfits, hsees _ (by decide)⟩) (hexits _ (by decide))
  · exact htool.mpr (fun _ => ⟨⟨hfits, hsees _ (by decide)⟩, rfl⟩) (hexits _ (by decide))

/-- One byte more than a pipe of 64 KiB holds, at once. -/
def flood : Child where
  acts := List.replicate 65537 (.write .stdout 0x41)
  exitCode := 0

theorem output_replicate (i : Stream) (b : UInt8) (n : ℕ) :
    PipedProcess.output i (List.replicate n (.write i b)) = List.replicate n b := by
  induction n with
  | zero => rfl
  | succ n ih => rw [List.replicate_succ, PipedProcess.output, if_pos rfl, ih, List.replicate_succ]

theorem duration_replicate (i : Stream) (b : UInt8) (n : ℕ) :
    PipedProcess.duration (List.replicate n (.write i b)) = 0 := by
  induction n with
  | zero => rfl
  | succ n ih => rw [List.replicate_succ, PipedProcess.duration, ih]

/-- It would exit at once if it were read. It is killed instead, by both functions. -/
theorem flood_killed :
    (∀ time, flood.ExitsIfRead time) ∧
      (executeRunShell 65536 (shellOf flood) dirPayload).result.get "timed_out"
        = some (.bool true) ∧
      ¬ReportsRun flood (executeRunShell 65536 (shellOf flood) dirPayload) ∧
      invokeWedrPlugin 65536 (toolOf flood) = .error "wedr-plugin timeout après 60s" ∧
      flood.toolResult = .ok (fromUtf8Lossy (List.replicate 65537 0x41)) := by
  have hover : 65536 < (PipedProcess.output .stdout flood.acts).length := by
    rw [flood, output_replicate, List.length_replicate]
    omega
  have htimedOut : (executeRunShell 65536 (shellOf flood) dirPayload).result.get "timed_out"
      = some (.bool true) := by
    obtain ⟨now, s, hwait⟩ := @timedOut_of_overflow _ _ _ (shellWatchdog dirPayload) (fun _ => {})
      _ _ (fun _ => rfl) _ hover
    have hrun := @executeRunShell_eq 65536 flood (shellOf flood) dirPayload "dir" (by decide) rfl
    rw [hrun, shellOf, hwait]
    simp [shellResult, shellReport, Json.get]
  refine ⟨fun time => ?_, htimedOut, fun h => ?_, ?_, ?_⟩
  · rw [Child.exitsIfRead_iff, Child.duration, flood, duration_replicate]
    omega
  · rw [h.timedOut] at htimedOut
    cases htimedOut
  · obtain ⟨now, s, hwait⟩ := @timedOut_of_overflow _ _ _ toolWatchdog (fun _ => {}) _ _
      (fun _ => rfl) _ hover
    have hrun := @invokeWedrPlugin_eq 65536 flood (toolOf flood) "wedr-plugin.exe" rfl rfl
    rw [hrun, toolOf, hwait, afterTool]
  · rw [Child.toolResult, Child.output, flood, output_replicate]
    rfl

end Control

end WazabiAgent
