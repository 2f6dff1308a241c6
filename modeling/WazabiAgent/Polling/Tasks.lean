import WazabiAgent.Lib.Binary
import WazabiAgent.Lib.OsString
import WazabiAgent.Lib.Transition
import WazabiAgent.Lib.TreeWalk
import WazabiAgent.Lib.WinPath
import WazabiAgent.Polling.Envelope

/-!
# Polling the scheduled tasks

Windows keeps every scheduled task as a file below one directory. `polling/tasks.rs` walks that
directory, takes a digest of each file, and compares the result with the previous snapshot.

Opening a directory, reading an entry of one or its metadata, and reading a file may each fail,
wherever in the tree that is. A root that cannot be opened ends the scan without a result. Any other
failure leaves out what is behind it.

## Ghost state

`last` is the last scan that had a result.

## Main definitions

* `Scan`, `scanTasks` — a snapshot, by what the scan meets
* `diffAndEmitTasks` — the comparison
* `Tasks`, `Tasks.cycle` — the loop

## Main results

* `mem_scanTasks_iff` — which files are in a snapshot
-/

namespace WazabiAgent

namespace Polling

open Binary (fnv1a fnvOffset)

open LabelledStep

/-! ### The directory -/

/-- `TASKS_ROOT`. -/
def tasksRoot : OsString := OsString.ofString "C:\\Windows\\System32\\Tasks"

/-- The path of a directory entry. -/
def joinPath (dir name : OsString) : OsString := dir ++ .scalar '\\' :: name

/-- The file of a task. -/
structure TaskFile where
  /-- Seconds since 1970, if the file has a time and it is not earlier. -/
  modified : Option ℕ
  body : List UInt8

/-- A tree of files. What is neither a file nor a directory is a leaf without a file. -/
abbrev TaskTree := DirTree OsString (Option TaskFile)

/-- What a scan meets: the root, and the paths at which something fails. -/
structure Scan where
  root : List (OsString × TaskTree)
  readDirFails : OsString → Bool := fun _ => false
  entryFails : OsString → Bool := fun _ => false
  metadataFails : OsString → Bool := fun _ => false
  readFails : OsString → Bool := fun _ => false
  env : EmitEnv

/-! ### Snapshots -/

/-- What a cycle keeps of a task. -/
structure TaskSnapshot where
  mtime : ℕ
  digest : UInt64
  size : ℕ
  deriving DecidableEq

/-- The tasks by path. -/
abbrev TaskSnapshots := KeyedMap String TaskSnapshot

namespace Scan

variable (s : Scan)

/-- `file_snapshot`. -/
def fileSnapshot (path : OsString) (f : TaskFile) : Option TaskSnapshot :=
  if s.readFails path then none
  else some {
    mtime := f.modified.getD 0
    digest := fnv1a fnvOffset f.body
    size := f.body.length }

/-- The entry and its metadata can be read. -/
def sees (path : OsString) : Bool := !s.entryFails path && !s.metadataFails path

/-- The directory can be listed. -/
def opens (path : OsString) : Bool := !s.readDirFails path

/-- What `drain` does with an entry that is no directory. -/
def visit (out : TaskSnapshots) (path : OsString) (leaf : Option TaskFile) : TaskSnapshots :=
  match leaf.bind (s.fileSnapshot path) with
  | none => out
  | some snap => out.insert path.toStringLossy snap

/-- `scan_tasks`. The root is drained before there is anything on the stack. -/
def scanTasks : Option TaskSnapshots :=
  if !s.opens tasksRoot then none
  else
    let (stack, out) := TreeWalk.drain joinPath s.sees s.visit tasksRoot s.root [] ∅
    some (TreeWalk.walk joinPath s.sees s.opens s.visit stack out)

/-- The scan gets through to a file and reads it. Files are known by their paths, as text. -/
def Reads (key : String) : Prop :=
  ∃ path f, TreeWalk.Reaches joinPath s.sees s.opens tasksRoot s.root (path, some f) ∧
    s.readFails path = false ∧ path.toStringLossy = key

variable {s}

theorem scanTasks_of_not_opens (h : s.opens tasksRoot = false) : s.scanTasks = none := by
  rw [scanTasks, h]
  rfl

theorem scanTasks_of_opens (h : s.opens tasksRoot = true) :
    s.scanTasks
      = some (TreeWalk.walk joinPath s.sees s.opens s.visit [(tasksRoot, s.root)] ∅) := by
  rw [scanTasks, TreeWalk.walk, h]
  rfl

/-- What a visit adds. -/
theorem mem_visit_iff {out : TaskSnapshots} {path : OsString} {leaf : Option TaskFile}
    {key : String} :
    key ∈ s.visit out path leaf ↔
      key ∈ out ∨ ∃ f, leaf = some f ∧ s.readFails path = false ∧ path.toStringLossy = key := by
  rw [visit]
  cases leaf with
  | none => simp
  | some f =>
    rw [Option.bind_some, fileSnapshot]
    cases hfails : s.readFails path with
    | true => simp
    | false => simp [AList.mem_insert, or_comm, eq_comm]

theorem mem_foldl_visit_iff {ls : List (OsString × Option TaskFile)} {out : TaskSnapshots}
    {key : String} :
    key ∈ ls.foldl (fun o l => s.visit o l.1 l.2) out ↔
      key ∈ out ∨ ∃ l ∈ ls, ∃ f, l.2 = some f ∧ s.readFails l.1 = false ∧
        l.1.toStringLossy = key := by
  induction ls generalizing out with
  | nil => simp
  | cons l ls ih => rw [List.foldl_cons, ih, mem_visit_iff, List.exists_mem_cons_iff, or_assoc]

/-- **A snapshot has the files that the scan reads.** -/
theorem mem_scanTasks_iff {next : TaskSnapshots} (h : s.scanTasks = some next) {key : String} :
    key ∈ next ↔ s.Reads key := by
  cases hopen : s.opens tasksRoot with
  | false =>
    rw [scanTasks_of_not_opens hopen] at h
    cases h
  | true =>
    obtain ⟨ls, hwalk, hmem⟩ :=
      TreeWalk.walk_visits joinPath s.sees s.opens s.visit [(tasksRoot, s.root)] ∅
    rw [scanTasks_of_opens hopen, hwalk, Option.some.injEq] at h
    rw [← h, mem_foldl_visit_iff, or_iff_right (AList.notMem_empty key)]
    constructor
    · rintro ⟨⟨path, leaf⟩, hl, f, rfl, hread, hkey⟩
      obtain ⟨d, hd, -, hreach⟩ := (hmem _).mp hl
      rw [List.mem_singleton.mp hd] at hreach
      exact ⟨path, f, hreach, hread, hkey⟩
    · rintro ⟨path, f, hreach, hread, hkey⟩
      exact ⟨(path, some f), (hmem _).mpr ⟨_, List.mem_singleton_self _, hopen, hreach⟩, f, rfl,
        hread, hkey⟩

end Scan

/-! ### Comparison -/

/-- `{:016x}` -/
def hex16 (digest : UInt64) : String :=
  String.ofList ((List.range 16).reverse.map fun i => Json.hexDigit (digest.toNat / 16 ^ i % 16))

/-- What an event says of a task. -/
def taskMembers (snap : TaskSnapshot) : List (String × Json) :=
  [("mtime", .number (toString snap.mtime)),
    ("digest", .string (hex16 snap.digest)),
    ("size", .number (toString snap.size))]

/-- The payload of an event about a task. -/
def buildTaskPayload (path : String) (snap : TaskSnapshot) (prev : Option TaskSnapshot) : Json :=
  let v := Json.ofMembers (("task_path", .string path) ::
    ("task_name", ((WinPath.fileName path).map Json.string).getD .null) :: taskMembers snap)
  match prev with
  | none => .object v
  | some p => .object (Json.insert "previous" (.object (Json.ofMembers (taskMembers p))) v)

theorem get_task_path_buildTaskPayload (path : String) (snap : TaskSnapshot)
    (prev : Option TaskSnapshot) :
    (buildTaskPayload path snap prev).get "task_path" = some (.string path) := by
  cases prev <;> simp [buildTaskPayload, taskMembers, Json.ofMembers, Json.get_insert]

/-- The event about a task in the new snapshot. -/
def taskEventOf (path : String) (old : Option TaskSnapshot) (snap : TaskSnapshot) :
    List PersistenceEvent :=
  match old with
  | none => [⟨etTaskCreate, "ScheduledTaskCreate", 1, buildTaskPayload path snap none⟩]
  | some old =>
    if old = snap then []
    else [⟨etTaskModify, "ScheduledTaskModify", 1, buildTaskPayload path snap (some old)⟩]

/-- The events of `diff_and_emit`. -/
def diffAndEmitTasks (prev next : TaskSnapshots) : List PersistenceEvent :=
  KeyedMap.diffWith taskEventOf
    (fun path old => [⟨etTaskDelete, "ScheduledTaskDelete", 1, buildTaskPayload path old none⟩])
    prev next

/-! ### The loop -/

/-- The variables of `run`. -/
structure Tasks extends Poller TaskSnapshot where
  last : Option Scan := none

namespace Tasks

/-- One turn of `run`. -/
def cycle (silentFirst : Bool) (t : Tasks) (s : Scan) : Tasks :=
  match s.scanTasks with
  -- "keeping previous snapshot"
  | none => t
  | some next =>
    { toPoller := t.toPoller.take silentFirst diffAndEmitTasks s.env (some next)
      last := some s }

/-- The events of a turn. -/
def events (silentFirst : Bool) (t : Tasks) (s : Scan) : List PersistenceEvent :=
  t.toPoller.events silentFirst diffAndEmitTasks s.scanTasks

theorem toPoller_cycle (silentFirst : Bool) (t : Tasks) (s : Scan) :
    (t.cycle silentFirst s).toPoller
      = t.toPoller.take silentFirst diffAndEmitTasks s.env s.scanTasks := by
  rw [cycle]
  cases s.scanTasks with
  | none => rfl
  | some next => rfl

theorem emitted_cycle (silentFirst : Bool) (t : Tasks) (s : Scan) :
    (t.cycle silentFirst s).out.emitted = t.out.emitted ++ t.events silentFirst s := by
  rw [toPoller_cycle, Poller.emitted_take, events]

/-- A turn is always possible. -/
def step (silentFirst : Bool) (t : Tasks) (s : Scan) : Option Tasks := some (t.cycle silentFirst s)

/-- All that was emitted is counted, and submitted or dropped. -/
theorem balanced_of_run {silentFirst : Bool} {scans : List Scan} {t : Tasks}
    (h : run (step silentFirst) {} scans = some t) : t.out.Balanced := by
  refine invariant_of_run (I := fun t => t.out.Balanced) (fun t s u ht hst => ?_) ⟨rfl, rfl⟩ h
  rw [← Option.some.inj hst]
  rw [toPoller_cycle]
  exact Poller.balanced_take ht _

end Tasks

end Polling

end WazabiAgent
