import WazabiAgent.Plugin.ManifestStore
import WazabiAgent.Plugin.Supervisor

/-!
# The supervisor and its threads

`spawn_supervisor` scans the manifest directory once, then leaves it to a watcher thread to scan it
again. A scan starts a `supervise_one` thread for each plugin that has none, which is what the set
`supervised` is for: the scan enters a plugin before it starts the thread, and the thread takes it
out as the last thing it does. The handles of all threads, of the watcher too, are in a list that
`SupervisorHandle::shutdown` takes to join them.

`Plugin.Supervisor` is one such thread with its clock and its manifest file. Here there are all of
them, with their processes, and the threads are taken apart at each call that can fail or block:
`try_wait`, `kill` and `wait` are steps of their own. In exchange time is left out, so a sleep takes
as long as it may, and so are the manifest files: what a scan or a poll reads is the environment's
choice.

A thread that the operating system refuses to start ends the agent, and the run with it.

## Main definitions

* `Fleet`, `Fleet.step` — the supervisor, its watcher, its threads and their processes
* `Fleet.ThreadMove`, `Fleet.threadMove_of_step` — what a thread can do in one step
-/

namespace WazabiAgent

namespace Plugin

/-! ### Threads and processes -/

/-- A process that the supervisor has started, with the id in its `WEDR_PLUGIN_ID`. -/
structure Process where
  pluginId : String
  alive : Bool
  deriving DecidableEq

/-- Where a `supervise_one` thread is. A process is named by its number. -/
inductive Place
  /-- At the head of `while !SHUTDOWN`. -/
  | loopHead
  /-- Before `Command::spawn`. -/
  | spawning
  /-- In `wait_for_exit_or_change`, before the `try_wait` of a turn. -/
  | waiting (child : ℕ)
  /-- After it. -/
  | watching (child : ℕ)
  /-- In the loop of `SHUTDOWN_GRACE`. -/
  | grace (child : ℕ)
  /-- Before `child.kill`. -/
  | killing (child : ℕ) (outcome : WaitOutcome)
  /-- Before `child.wait`. -/
  | reaping (child : ℕ) (outcome : WaitOutcome)
  /-- In the branch `ChildExited`. -/
  | childExited
  | backingOff
  /-- `supervise_one` has returned. -/
  | leaving
  | done
  deriving DecidableEq

/-- The process in the thread's hands. -/
def Place.child : Place → Option ℕ
  | .waiting k | .watching k | .grace k | .killing k _ | .reaping k _ => some k
  | _ => none

/-- The thread that supervises a plugin. -/
structure Supervision where
  /-- The id that the thread was started for. -/
  pluginId : String
  current : PluginManifest
  place : Place := .loopHead

/-- The steps of `scan_and_spawn`. -/
inductive Scan
  | loading
  | filtering (store : ManifestStore)
  | launching (todo : List PluginManifest)
  /-- The plugin is in the set; before the thread is started. -/
  | inserted (m : PluginManifest) (todo : List PluginManifest)
  /-- The thread is started; before its handle is in the list. -/
  | pushing (thread : ℕ) (todo : List PluginManifest)

/-- What `threads` holds. A thread is named by its number. -/
inductive Handle
  | watcher
  | supervisor (i : ℕ)
  deriving DecidableEq

/-- The thread that calls `spawn_supervisor`, and `shutdown` in the end. -/
inductive MainPlace
  | initialScan
  /-- The watcher is started; before its handle is in the list. -/
  | pushingWatcher
  | running
  /-- In `shutdown`, with the handles that are still to be joined. -/
  | joining (rest : List Handle)
  | returned

/-- Where the thread that watches the directory stands. -/
inductive WatcherPlace
  | unborn
  | loopHead
  | sleeping
  | scanning
  | exited
  deriving DecidableEq

/-- The supervisor: its threads, and the processes they started. -/
structure Fleet where
  supervised : List String := []
  threads : List Supervision := []
  processes : List Process := []
  handles : List Handle := []
  /-- The scan in progress. -/
  scan : Option Scan := some .loading
  main : MainPlace := .initialScan
  watcher : WatcherPlace := .unborn
  shutdown : Bool := false

namespace Fleet

/-- The environment's part in a step of a thread. -/
structure Choice where
  /-- The call of this step fails: `spawn`, `try_wait` or `wait`. -/
  fails : Bool := false
  /-- The poll of the manifest, if it is due. -/
  poll : Option ManifestRead := none
  /-- The grace period is over. -/
  deadline : Bool := false
  /-- `kill` succeeds. -/
  kills : Bool := true

/-- What happens next. -/
inductive Label
  /-- `scan_and_spawn`; `load_dir` answers with a store, or fails. -/
  | scan (load : Option ManifestStore)
  | main
  | watch
  | thread (i : ℕ) (c : Choice)
  /-- A process ends by itself. -/
  | exits (k : ℕ)
  | raiseShutdown

/-- The process of this number runs. -/
def Alive (s : Fleet) (k : ℕ) : Prop := ∃ p, s.processes[k]? = some p ∧ p.alive = true

instance (s : Fleet) (k : ℕ) : Decidable (s.Alive k) :=
  decidable_of_iff ((s.processes[k]?.map Process.alive) = some true) (by simp [Alive])

/-- Moves a thread on. -/
def goTo (s : Fleet) (i : ℕ) (th : Supervision) (p : Place) : Fleet :=
  { s with threads := s.threads.set i { th with place := p } }

/-- The process is over. -/
def endProcess (s : Fleet) (k : ℕ) : Fleet :=
  { s with processes := s.processes.modify k fun p => { p with alive := false } }

/-- The thread goes on after `child.wait`. -/
def afterWait (s : Fleet) (i : ℕ) (th : Supervision) : WaitOutcome → Fleet
  | .updated m => s.goTo i { th with current := m } .loopHead
  | .childExited => s.goTo i th .childExited
  | .revoked | .shutdown => s.goTo i th .leaving

/-- The poll of the manifest: on with the wait, or off to kill the child. -/
def afterPoll (th : Supervision) (k : ℕ) (poll : Option ManifestRead) : Place :=
  match poll.map fun r => readManifest r th.current with
  | some .missing | some .revoked => .killing k .revoked
  | some (.changed m) => .killing k (.updated m)
  | some .unchanged | some .readError | none => .waiting k

/-- One step of the thread with the number `i`. -/
def stepThread (s : Fleet) (i : ℕ) (th : Supervision) (c : Choice) : Place → Option Fleet
  | .loopHead => some (s.goTo i th (if s.shutdown then .leaving else .spawning))
  | .spawning =>
    if c.fails then some (s.goTo i th .backingOff)
    else
      some { s.goTo i th (.waiting s.processes.length) with
        processes := s.processes ++ [⟨th.current.pluginId, true⟩] }
  | .waiting k =>
    if c.fails then some (s.goTo i th .childExited)
    else some (s.goTo i th (if s.Alive k then .watching k else .childExited))
  | .watching k =>
    some (s.goTo i th (if s.shutdown then .grace k else afterPoll th k c.poll))
  | .grace k =>
    if c.deadline then some (s.goTo i th (.killing k .shutdown))
    else some (s.goTo i th (if c.fails ∨ s.Alive k then .grace k else .leaving))
  | .killing k outcome =>
    some (if c.kills then (s.goTo i th (.reaping k outcome)).endProcess k
      else s.goTo i th (.reaping k outcome))
  -- `wait` blocks until the process is over
  | .reaping k outcome =>
    if s.Alive k ∧ c.fails = false then none else some (s.afterWait i th outcome)
  | .childExited => some (s.goTo i th (if s.shutdown then .leaving else .backingOff))
  | .backingOff => some (s.goTo i th (if s.shutdown then .leaving else .loopHead))
  | .leaving =>
    some { s.goTo i th .done with supervised := s.supervised.filter (· ≠ th.pluginId) }
  | .done => none

/-- What `scan_and_spawn` starts. -/
def toLaunch (s : Fleet) (store : ManifestStore) : List PluginManifest :=
  (store.manifests.map Subtype.val).filter fun m =>
    m.autoLaunch && !m.revoked && decide (m.pluginId ∉ s.supervised)

/-- One step of a scan. -/
def stepScan (s : Fleet) (load : Option ManifestStore) : Scan → Fleet
  | .loading => { s with scan := load.map .filtering }
  | .filtering store => { s with scan := some (.launching (s.toLaunch store)) }
  | .launching [] => { s with scan := none }
  | .launching (m :: todo) =>
    { s with
      supervised := s.supervised.insert m.pluginId
      scan := some (.inserted m todo) }
  | .inserted m todo =>
    { s with
      threads := s.threads ++ [⟨m.pluginId, m, .loopHead⟩]
      scan := some (.pushing s.threads.length todo) }
  | .pushing i todo =>
    { s with
      handles := s.handles ++ [.supervisor i]
      scan := some (.launching todo) }

/-- The thread of a handle has ended. -/
def Joinable (s : Fleet) : Handle → Prop
  | .watcher => s.watcher = .exited
  | .supervisor i => ∃ th, s.threads[i]? = some th ∧ th.place = .done

instance (s : Fleet) (h : Handle) : Decidable (s.Joinable h) :=
  match h with
  | .watcher => inferInstanceAs (Decidable (s.watcher = .exited))
  | .supervisor i => decidable_of_iff ((s.threads[i]?.map Supervision.place) = some .done)
    (by simp [Joinable])

/-- One step of the thread that started the supervisor. -/
def stepMain (s : Fleet) : Option Fleet :=
  match s.main with
  | .initialScan =>
    match s.scan with
    | none => some { s with main := .pushingWatcher, watcher := .loopHead }
    | some _ => none
  | .pushingWatcher => some { s with main := .running, handles := s.handles ++ [.watcher] }
  | .running => some { s with main := .joining s.handles, handles := [] }
  | .joining [] => some { s with main := .returned }
  | .joining (h :: rest) => if s.Joinable h then some { s with main := .joining rest } else none
  | .returned => none

/-- One step of the watcher. -/
def stepWatcher (s : Fleet) : Option Fleet :=
  match s.watcher with
  | .loopHead => some { s with watcher := if s.shutdown then .exited else .sleeping }
  | .sleeping =>
    some (if s.shutdown then { s with watcher := .exited }
      else { s with watcher := .scanning, scan := some .loading })
  | .scanning =>
    match s.scan with
    | none => some { s with watcher := .loopHead }
    | some _ => none
  | .unborn | .exited => none

/-- One step of main, of a thread or of a process. -/
def step (s : Fleet) : Label → Option Fleet
  | .scan load => s.scan.map (s.stepScan load)
  | .main => s.stepMain
  | .watch => s.stepWatcher
  | .thread i c => s.threads[i]?.bind fun th => s.stepThread i th c th.place
  | .exits k => if s.Alive k then some (s.endProcess k) else none
  | .raiseShutdown => some { s with shutdown := true }

/-- The call of `spawn_supervisor`. -/
def start : Fleet := {}

/-! ### What a thread does -/

variable {s t : Fleet} {i : ℕ} {th : Supervision} {c : Choice}

/-- What a step of a thread is, as far as its process and its place in the set go. -/
inductive ThreadMove (s : Fleet) (i : ℕ) (th : Supervision) (c : Choice) : Fleet → Prop
  /-- It goes on with the same process, or none. -/
  | go {p : Place} (hchild : p.child = th.place.child) (hplace : p ≠ .done) :
    ThreadMove s i th c (s.goTo i th p)
  | spawn (hplace : th.place = .spawning) :
    ThreadMove s i th c { s.goTo i th (.waiting s.processes.length) with
      processes := s.processes ++ [⟨th.current.pluginId, true⟩] }
  /-- It goes on without its process, which is over unless the call failed that would tell. -/
  | drop {k : ℕ} {p : Place} (hchild : th.place.child = some k) (hp : p.child = none)
    (hplace : p ≠ .done)
    (hover : s.Alive k → c.fails = true ∧ (th.place = .waiting k ∨ ∃ o, th.place = .reaping k o)) :
    ThreadMove s i th c (s.goTo i th p)
  /-- The same, with another manifest. -/
  | update {k : ℕ} {m : PluginManifest} (hplace : th.place = .reaping k (.updated m))
    (hover : s.Alive k → c.fails = true) :
    ThreadMove s i th c (s.goTo i { th with current := m } .loopHead)
  | kill {k : ℕ} {o : WaitOutcome} (hplace : th.place = .killing k o) :
    ThreadMove s i th c ((s.goTo i th (.reaping k o)).endProcess k)
  | finish (hplace : th.place = .leaving) :
    ThreadMove s i th c { s.goTo i th .done with
      supervised := s.supervised.filter (· ≠ th.pluginId) }

theorem afterPoll_child (th : Supervision) (k : ℕ) (poll : Option ManifestRead) :
    (afterPoll th k poll).child = some k ∧ afterPoll th k poll ≠ .done := by
  rw [afterPoll]
  split <;> exact ⟨rfl, Place.noConfusion⟩

/-- After the wait the process is over, unless it failed. -/
theorem threadMove_afterWait {k : ℕ} {o : WaitOutcome} (hplace : th.place = .reaping k o)
    (hover : s.Alive k → c.fails = true) : s.ThreadMove i th c (s.afterWait i th o) := by
  have hchild : th.place.child = some k := by rw [hplace]; rfl
  cases o with
  | updated m => exact .update hplace hover
  | childExited | revoked | shutdown =>
    exact .drop hchild rfl Place.noConfusion fun h => ⟨hover h, .inr ⟨_, hplace⟩⟩

theorem threadMove_of_step (hst : s.stepThread i th c th.place = some t) :
    s.ThreadMove i th c t := by
  cases hplace : th.place with
  | loopHead =>
    rw [hplace] at hst
    obtain rfl := Option.some.inj hst
    exact .go (by rw [hplace]; split_ifs <;> rfl) (by split_ifs <;> exact Place.noConfusion)
  | spawning =>
    rw [hplace] at hst
    simp only [stepThread] at hst
    split_ifs at hst
    · obtain rfl := Option.some.inj hst
      exact .go (by rw [hplace]; rfl) Place.noConfusion
    · obtain rfl := Option.some.inj hst
      exact .spawn hplace
  | waiting k =>
    rw [hplace] at hst
    have hchild : th.place.child = some k := by rw [hplace]; rfl
    simp only [stepThread] at hst
    split_ifs at hst with hfails halive
    · obtain rfl := Option.some.inj hst
      exact .drop hchild rfl Place.noConfusion fun _ => ⟨hfails, .inl hplace⟩
    · obtain rfl := Option.some.inj hst
      exact .go hchild.symm Place.noConfusion
    · obtain rfl := Option.some.inj hst
      exact .drop hchild rfl Place.noConfusion fun h => absurd h halive
  | watching k =>
    rw [hplace] at hst
    obtain rfl := Option.some.inj hst
    obtain ⟨hchild, hdone⟩ := afterPoll_child th k c.poll
    exact .go (by rw [hplace]; split_ifs <;> [rfl; exact hchild])
      (by split_ifs <;> [exact Place.noConfusion; exact hdone])
  | grace k =>
    rw [hplace] at hst
    have hchild : th.place.child = some k := by rw [hplace]; rfl
    simp only [stepThread] at hst
    split_ifs at hst with hdeadline halive
    · obtain rfl := Option.some.inj hst
      exact .go hchild.symm Place.noConfusion
    · obtain rfl := Option.some.inj hst
      exact .go hchild.symm Place.noConfusion
    · obtain rfl := Option.some.inj hst
      exact .drop hchild rfl Place.noConfusion fun h => absurd (.inr h) halive
  | killing k o =>
    rw [hplace] at hst
    simp only [stepThread] at hst
    split_ifs at hst
    · obtain rfl := Option.some.inj hst
      exact .kill hplace
    · obtain rfl := Option.some.inj hst
      exact .go (by rw [hplace]; rfl) Place.noConfusion
  | reaping k o =>
    rw [hplace] at hst
    simp only [stepThread] at hst
    split_ifs at hst with hblocked
    obtain rfl := Option.some.inj hst
    refine threadMove_afterWait hplace fun h => ?_
    by_contra hfails
    exact hblocked ⟨h, by simpa using hfails⟩
  | childExited | backingOff =>
    rw [hplace] at hst
    obtain rfl := Option.some.inj hst
    exact .go (by rw [hplace]; split_ifs <;> rfl) (by split_ifs <;> exact Place.noConfusion)
  | leaving =>
    rw [hplace] at hst
    obtain rfl := Option.some.inj hst
    exact .finish hplace
  | done =>
    rw [hplace] at hst
    cases hst

end Fleet

end Plugin

end WazabiAgent
