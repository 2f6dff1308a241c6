import Mathlib.Data.Nat.Digits.Defs
import WazabiAgent.Lib.JsonRead
import WazabiAgent.Lib.Replay
import WazabiAgent.Polling.ServiceDiff
import WazabiAgent.Polling.TaskEvents

/-!
# The snapshot, from the lines about its changes

A polling thread submits a line for each change that it sees, and nothing else; a server that wants
to know which services or tasks a host has must put the lines together. This file does: it reads the
lines with `Json.parse` and replays what they say on an earlier view of the host.

The first snapshot can be taken in silence, so the earlier view is that of a turn after it. A line
that the spool refuses is lost.

## Main definitions

* `Form` — how the events of one of the threads are read
* `Poller.Mirrors` — the lines between two turns turn the one snapshot into the other

## Main results

* `Form.Faithful.mirrors_take` — one turn
* `snapshots_mirrored` — any number of turns of either thread
-/

namespace WazabiAgent

namespace Polling

open LabelledStep

open Replay (replay Tells)

/-! ### Payloads -/

theorem readable_buildPayload (name : String) (snap : ServiceSnapshot)
    (prev : Option ServiceSnapshot) : (buildPayload name snap prev).readable = true := by
  unfold buildPayload
  have hmembers : (Json.object (Json.ofMembers [("name", .string name),
      ("display_name", .string snap.displayName), ("binary_path", .string snap.binaryPath),
      ("start_type", .number (toString snap.startType.toNat)),
      ("start_type_label", .string (startTypeLabel snap.startType)),
      ("service_type", .number (toString snap.serviceType.toNat)),
      ("account", .string snap.account), ("running", .bool snap.running)])).readable = true :=
    Json.readable_ofMembers (by simp)
  cases prev with
  | none => exact hmembers
  | some p =>
    exact Json.readable_insert hmembers (Json.readable_ofMembers (by simp [previousMembers]))

theorem readable_buildTaskPayload (path : String) (snap : TaskSnapshot)
    (prev : Option TaskSnapshot) : (buildTaskPayload path snap prev).readable = true := by
  unfold buildTaskPayload
  have hname : (((WinPath.fileName path).map Json.string).getD .null).readable = true := by
    cases WinPath.fileName path <;> rfl
  have hmembers : (Json.object (Json.ofMembers (("task_path", .string path) ::
      ("task_name", ((WinPath.fileName path).map Json.string).getD .null) ::
      taskMembers snap))).readable = true :=
    Json.readable_ofMembers (by simp [taskMembers, hname])
  cases prev with
  | none => exact hmembers
  | some p => exact Json.readable_insert hmembers (Json.readable_ofMembers (by simp [taskMembers]))

theorem readable_of_diffAndEmit {prev next : Snapshots} {evt : PersistenceEvent}
    (h : evt ∈ diffAndEmit prev next) : evt.payload.readable = true := by
  obtain ⟨entry, -, hevent⟩ := List.mem_filterMap.mp h
  obtain ⟨snap, -, rfl⟩ := Option.map_eq_some_iff.mp hevent
  exact readable_buildPayload _ _ _

theorem readable_of_diffAndEmitTasks {prev next : TaskSnapshots} {evt : PersistenceEvent}
    (h : evt ∈ diffAndEmitTasks prev next) : evt.payload.readable = true := by
  rcases KeyedMap.mem_diffWith_iff.mp h with ⟨path, new, -, hevt⟩ | ⟨path, old, -, -, hevt⟩
  · unfold taskEventOf at hevt
    split at hevt
    · rw [List.mem_singleton.mp hevt]
      exact readable_buildTaskPayload path new none
    · split_ifs at hevt
      · cases hevt
      · rw [List.mem_singleton.mp hevt]
        exact readable_buildTaskPayload path new (some _)
  · rw [List.mem_singleton.mp hevt]
    exact readable_buildTaskPayload path old none

theorem PersistenceEvent.readable_envelope {evt : PersistenceEvent}
    (h : evt.payload.readable = true) (ts : String) : (evt.envelope ts).readable = true :=
  Json.readable_object.mpr (by simp [h])

/-! ### Reading events -/

/-- Where an event has its key, what it is called if the key is gone, and how what is under the key
is read. -/
structure Form (β : Type) where
  key : String
  deleted : String
  decode : Json → Option β

namespace Form

variable {β : Type} (f : Form β)

/-- What an event says. -/
def update (eventType : String) (raw : Json) : Option (String × Option β) := do
  let key ← (raw.get f.key).bind Json.asStr
  if eventType = f.deleted then some (key, none)
  else
    let value ← f.decode raw
    some (key, some value)

/-- What a line says. -/
def readLine (line : String) : Option (String × Option β) := do
  let doc ← Json.parse line
  let eventType ← (doc.get "event_type").bind Json.asStr
  let raw ← doc.get "raw"
  f.update eventType raw

theorem readLine_intoNdjsonLine {evt : PersistenceEvent} (h : evt.payload.readable = true)
    (ts : String) : f.readLine (evt.intoNdjsonLine ts) = f.update evt.eventType evt.payload := by
  have hparse : Json.parse (evt.intoNdjsonLine ts) = some (evt.envelope ts) :=
    Json.parse_line (evt.readable_envelope h ts)
  rw [readLine, hparse]
  rfl

/-- The events of a comparison can be read, and tell of the change. -/
structure Faithful (diff : KeyedMap String β → KeyedMap String β → List PersistenceEvent) :
    Prop where
  readable : ∀ prev next, ∀ evt ∈ diff prev next, evt.payload.readable = true
  tells : ∀ prev next, Tells prev.lookup next.lookup
    ((diff prev next).filterMap fun evt => f.update evt.eventType evt.payload)

end Form

/-! ### Emission -/

/-- What is submitted, where nothing is dropped. -/
theorem Emission.submitted_emitAll {β : Type} (f : Form β) (env : EmitEnv) (o : Emission)
    {evts : List PersistenceEvent} (h : ∀ evt ∈ evts, evt.payload.readable = true) :
    ∃ lines, (o.emitAll env evts).submitted = o.submitted ++ lines ∧
      o.dropped ≤ (o.emitAll env evts).dropped ∧
      ((o.emitAll env evts).dropped = o.dropped →
        lines.filterMap f.readLine
          = evts.filterMap fun evt => f.update evt.eventType evt.payload) := by
  induction evts generalizing o with
  | nil => exact ⟨[], (List.append_nil _).symm, Nat.le_refl _, fun _ => rfl⟩
  | cons evt evts ih =>
    obtain ⟨hevt, hevts⟩ := List.forall_mem_cons.mp h
    obtain ⟨lines, hlines, hle, hread⟩ := ih (o.emit env evt) hevts
    have hstep : o.emitAll env (evt :: evts) = (o.emit env evt).emitAll env evts := rfl
    rw [hstep, hlines]
    cases hok : env.trySubmit o.counter with
    | true =>
      have hdropped : (o.emit env evt).dropped = o.dropped := by simp [Emission.emit, hok]
      refine ⟨evt.intoNdjsonLine (env.nowIso8601 o.counter) :: lines, ?_, hdropped ▸ hle, ?_⟩
      · simp [Emission.emit, hok]
      · intro hall
        rw [List.filterMap_cons, List.filterMap_cons, f.readLine_intoNdjsonLine hevt,
          hread (hall.trans hdropped.symm)]
    | false =>
      have hdropped : (o.emit env evt).dropped = o.dropped + 1 := by simp [Emission.emit, hok]
      refine ⟨lines, by simp [Emission.emit, hok], by omega, ?_⟩
      intro hall
      omega

/-! ### Turns -/

namespace Poller

variable {β : Type}

/-- From `p` to `q` lines are submitted which, unless one more is dropped, turn a view of the one
snapshot into a view of the other. -/
def Mirrors (f : Form β) (p q : Poller β) : Prop :=
  ∃ lines, q.out.submitted = p.out.submitted ++ lines ∧ p.out.dropped ≤ q.out.dropped ∧
    (q.out.dropped = p.out.dropped →
      replay p.prev.lookup (lines.filterMap f.readLine) = q.prev.lookup)

variable {f : Form β} {p q r : Poller β}

theorem Mirrors.refl (f : Form β) (p : Poller β) : Mirrors f p p :=
  ⟨[], (List.append_nil _).symm, Nat.le_refl _, fun _ => rfl⟩

theorem Mirrors.trans (hpq : Mirrors f p q) (hqr : Mirrors f q r) : Mirrors f p r := by
  obtain ⟨ls, hls, hle, hview⟩ := hpq
  obtain ⟨ms, hms, hle', hview'⟩ := hqr
  refine ⟨ls ++ ms, ?_, hle.trans hle', ?_⟩
  · rw [hms, hls, List.append_assoc]
  · intro hall
    -- neither half has dropped a line
    rw [List.filterMap_append, Replay.replay_append, hview (by omega), hview' (by omega)]

/-- The first snapshot is behind, or is not taken in silence. -/
def Started (silentFirst : Bool) (p : Poller β) : Prop := p.first = false ∨ silentFirst = false

end Poller

/-- A turn submits what has changed. -/
theorem Form.Faithful.mirrors_take {β : Type} {f : Form β}
    {diff : KeyedMap String β → KeyedMap String β → List PersistenceEvent}
    (hf : f.Faithful diff) {silentFirst : Bool} {p : Poller β} (hp : p.Started silentFirst)
    (env : EmitEnv) (snapshot : Option (KeyedMap String β)) :
    p.Mirrors f (p.take silentFirst diff env snapshot) ∧
      (p.take silentFirst diff env snapshot).Started silentFirst := by
  cases snapshot with
  | none => exact ⟨.refl f p, hp⟩
  | some next =>
    have hevents : p.events silentFirst diff (some next) = diff p.prev next := by
      have hnot : (p.first && silentFirst) = false := by
        rcases hp with hfirst | hsilent
        · rw [hfirst, Bool.false_and]
        · rw [hsilent, Bool.and_false]
      rw [Poller.events, hnot]
      rfl
    obtain ⟨lines, hlines, hle, hread⟩ :=
      Emission.submitted_emitAll f env p.out (hf.readable p.prev next)
    refine ⟨⟨lines, ?_, ?_, ?_⟩, .inl rfl⟩
    · rw [Poller.take, hevents]
      exact hlines
    · rw [Poller.take, hevents]
      exact hle
    · rw [Poller.take, hevents]
      intro hall
      rw [hread hall]
      exact Replay.replay_of_tells (hf.tells p.prev next)

/-! ### Services -/

/-- A 32-bit number of a payload. -/
def word (j : Json) : Option UInt32 := j.asU64.map UInt32.ofNat

@[simp] theorem word_toNat (n : UInt32) : word (.number n.toNat.repr) = some n := by
  have hread : Json.asU64 (.number n.toNat.repr) = some n.toNat :=
    Json.asU64_toString (n.toNat_lt.trans (by decide))
  rw [word, hread, Option.map_some, UInt32.ofNat_toNat]

/-- Reads a service back from its event. -/
def decodeService (raw : Json) : Option ServiceSnapshot := do
  let displayName ← (raw.get "display_name").bind Json.asStr
  let binaryPath ← (raw.get "binary_path").bind Json.asStr
  let startType ← (raw.get "start_type").bind word
  let serviceType ← (raw.get "service_type").bind word
  let account ← (raw.get "account").bind Json.asStr
  let running ← (raw.get "running").bind Json.asBool
  return { binaryPath, startType, serviceType, account, displayName, running }

/-- How the events of services are read. -/
def serviceForm : Form ServiceSnapshot := ⟨"name", etServiceDelete, decodeService⟩

/-- A payload says all of the snapshot, whatever it says about the previous one. -/
theorem decodeService_buildPayload (name : String) (snap : ServiceSnapshot)
    (prev : Option ServiceSnapshot) : decodeService (buildPayload name snap prev) = some snap := by
  have hget (key : String) (hkey : key ≠ "previous") :
      (buildPayload name snap prev).get key = (buildPayload name snap none).get key := by
    cases prev with
    | none => rfl
    | some p => exact (Json.get_insert _ _ _ _).trans (if_neg (Ne.symm hkey))
  rw [decodeService]
  simp only [hget _ (show "display_name" ≠ "previous" by decide),
    hget _ (show "binary_path" ≠ "previous" by decide),
    hget _ (show "start_type" ≠ "previous" by decide),
    hget _ (show "service_type" ≠ "previous" by decide),
    hget _ (show "account" ≠ "previous" by decide),
    hget _ (show "running" ≠ "previous" by decide)]
  simp [buildPayload, Json.ofMembers, Json.get_insert, Json.asStr, Json.asBool]

theorem mem_computeDiff_iff {prev next : Snapshots} {c : Change} {name : String} :
    Change.entry name c ∈ computeDiff prev next ↔
      c.occurs (prev.lookup name) (next.lookup name) = true := by
  rw [← List.count_pos_iff, count_entry_computeDiff]
  split_ifs with h <;> simp [h]

/-- The event about a change says what there is of the service now. -/
theorem update_of_occurs {prev next : Snapshots} {c : Change} {name : String}
    (h : c.occurs (prev.lookup name) (next.lookup name) = true) :
    ((Change.entry name c).event prev next).bind
      (fun evt => serviceForm.update evt.eventType evt.payload)
        = some (name, next.lookup name) := by
  have hname (snap : ServiceSnapshot) (p : Option ServiceSnapshot) :
      ((buildPayload name snap p).get serviceForm.key).bind Json.asStr = some name := by
    rw [serviceForm, get_name_buildPayload]
    rfl
  have hentry : (Change.entry name c).name = name := rfl
  rw [DiffEntry.event, hentry]
  cases hnew : next.lookup name with
  | some new =>
    have hkept : ¬ c.eventType = etServiceDelete := by
      rw [hnew] at h
      rcases c <;>
        first | decide | cases hold : prev.lookup name <;> simp [hold, Change.occurs] at h
    rw [Option.some_or, Option.map_some, Option.bind_some]
    dsimp only
    rw [Form.update, hname]
    show (if c.eventType = etServiceDelete then some (name, none)
      else (decodeService (buildPayload name new _)).bind fun value => some (name, some value))
        = some (name, some new)
    rw [if_neg hkept, decodeService_buildPayload, Option.bind_some]
  | none =>
    rw [hnew] at h
    cases hold : prev.lookup name with
    | none =>
      rw [hold] at h
      rcases c <;> cases h
    | some old =>
      have hgone : c.eventType = etServiceDelete := by
        rw [hold] at h
        rcases c <;> first | rfl | cases h
      rw [Option.none_or, Option.map_some, Option.bind_some]
      dsimp only
      rw [Form.update, hname]
      exact if_pos hgone

theorem serviceForm_faithful : serviceForm.Faithful diffAndEmit where
  readable _ _ _ h := readable_of_diffAndEmit h
  tells prev next := by
    have hupdates : (diffAndEmit prev next).filterMap
        (fun evt => serviceForm.update evt.eventType evt.payload)
        = (computeDiff prev next).filterMap fun entry =>
          (entry.event prev next).bind fun evt =>
            serviceForm.update evt.eventType evt.payload := List.filterMap_filterMap ..
    rw [hupdates]
    constructor
    · intro u hu
      obtain ⟨d, hd, hupdate⟩ := List.mem_filterMap.mp hu
      obtain ⟨c, name, rfl⟩ := exists_entry_of_mem hd
      rw [update_of_occurs (mem_computeDiff_iff.mp hd)] at hupdate
      obtain rfl := Option.some.inj hupdate
      rfl
    · intro name hne
      obtain ⟨c, hc⟩ := Change.exists_occurs_of_ne hne
      exact ⟨(name, next.lookup name), List.mem_filterMap.mpr
        ⟨Change.entry name c, mem_computeDiff_iff.mpr hc, update_of_occurs hc⟩, rfl⟩

/-! ### Tasks -/

/-- The digest that sixteen digits are. -/
def unhex16 (s : String) : Option UInt64 :=
  (s.toList.mapM Json.hexValue).map fun ds => UInt64.ofNat (Nat.ofDigits 16 ds.reverse)

/-- A number without a bound. -/
def natOf : Json → Option ℕ
  | .number literal =>
    if literal.toList ≠ [] ∧ literal.toList.all Char.isDigit then
      some (Nat.ofDigitChars 10 literal.toList 0)
    else none
  | _ => none

@[simp] theorem natOf_repr (n : ℕ) : natOf (.number n.repr) = some n := by
  rw [natOf, if_pos (Json.digits_repr n), Json.ofDigitChars_repr]

/-- The digits of a number, the last of them first. -/
theorem ofDigits_range (n m : ℕ) :
    Nat.ofDigits 16 ((List.range m).map fun i => n / 16 ^ i % 16) = n % 16 ^ m := by
  induction m generalizing n with
  | zero => simp [Nat.mod_one]
  | succ m ih =>
    have htail : (List.range m).map (fun i => n / 16 ^ (i + 1) % 16)
        = (List.range m).map fun i => n / 16 / 16 ^ i % 16 := by
      refine List.map_congr_left fun i _ => ?_
      rw [Nat.pow_succ', Nat.div_div_eq_div_mul]
    rw [List.range_succ_eq_map, List.map_cons, List.map_map, Nat.ofDigits_cons]
    show n / 16 ^ 0 % 16 + 16 * Nat.ofDigits 16
      ((List.range m).map fun i => n / 16 ^ (i + 1) % 16) = _
    rw [htail, ih, Nat.pow_zero, Nat.div_one, Nat.pow_succ', Nat.mod_mul]

@[simp] theorem unhex16_hex16 (digest : UInt64) : unhex16 (hex16 digest) = some digest := by
  have hdigit (i : ℕ) : Json.hexValue (Json.hexDigit (digest.toNat / 16 ^ i % 16))
      = some (digest.toNat / 16 ^ i % 16) := Json.hexValue_hexDigit (Nat.mod_lt _ (by decide))
  have hmapM (is : List ℕ) :
      (is.map fun i => Json.hexDigit (digest.toNat / 16 ^ i % 16)).mapM Json.hexValue
        = some (is.map fun i => digest.toNat / 16 ^ i % 16) := by
    induction is with
    | nil => rfl
    | cons i is ih => rw [List.map_cons, List.mapM_cons, hdigit, ih]; rfl
  have hbound : digest.toNat < 16 ^ 16 := digest.toNat_lt
  rw [unhex16, hex16, String.toList_ofList, hmapM, Option.map_some, ← List.map_reverse,
    List.reverse_reverse, ofDigits_range, Nat.mod_eq_of_lt hbound, UInt64.ofNat_toNat]

/-- Reads a task back from its event. -/
def decodeTask (raw : Json) : Option TaskSnapshot := do
  let mtime ← (raw.get "mtime").bind natOf
  let digest ← ((raw.get "digest").bind Json.asStr).bind unhex16
  let size ← (raw.get "size").bind natOf
  return { mtime, digest, size }

/-- How the events of tasks are read. -/
def taskForm : Form TaskSnapshot := ⟨"task_path", etTaskDelete, decodeTask⟩

theorem decodeTask_buildTaskPayload (path : String) (snap : TaskSnapshot)
    (prev : Option TaskSnapshot) : decodeTask (buildTaskPayload path snap prev) = some snap := by
  rw [decodeTask]
  cases prev <;> simp [buildTaskPayload, taskMembers, Json.ofMembers, Json.get_insert, Json.asStr]

theorem update_buildTaskPayload (eventType path : String) (snap : TaskSnapshot)
    (prev : Option TaskSnapshot) :
    taskForm.update eventType (buildTaskPayload path snap prev)
      = some (path, if eventType = etTaskDelete then none else some snap) := by
  have hkey : ((buildTaskPayload path snap prev).get taskForm.key).bind Json.asStr = some path := by
    rw [taskForm, get_task_path_buildTaskPayload]
    rfl
  have hdecode : taskForm.decode (buildTaskPayload path snap prev) = some snap :=
    decodeTask_buildTaskPayload path snap prev
  rw [Form.update, hkey, hdecode]
  show (if eventType = etTaskDelete then some (path, none) else some (path, some snap)) = _
  split_ifs <;> rfl

/-- What an event says. -/
def taskUpdate (evt : PersistenceEvent) : Option (String × Option TaskSnapshot) :=
  taskForm.update evt.eventType evt.payload

theorem updates_taskEventOf (path : String) (old : Option TaskSnapshot) (new : TaskSnapshot) :
    (taskEventOf path old new).filterMap taskUpdate
      = if old = some new then [] else [(path, some new)] := by
  have hupdate (eventType kind : String) (prev : Option TaskSnapshot)
      (h : eventType ≠ etTaskDelete) :
      [(⟨eventType, kind, 1, buildTaskPayload path new prev⟩ : PersistenceEvent)].filterMap
        taskUpdate = [(path, some new)] := by
    rw [List.filterMap_cons, taskUpdate, update_buildTaskPayload, if_neg h]
    rfl
  cases old with
  | none => exact hupdate _ _ _ (by decide)
  | some old =>
    unfold taskEventOf
    by_cases heq : old = new
    · rw [if_pos (congrArg some heq)]
      dsimp only
      rw [if_pos heq]
      rfl
    · rw [if_neg fun h => heq (Option.some.inj h)]
      dsimp only
      rw [if_neg heq]
      exact hupdate _ _ _ (by decide)

/-- What a comparison says, where every key that has changed is told of once. -/
theorem tells_of_updates {β : Type} {prev next : KeyedMap String β}
    {onNext : String → Option β → β → List PersistenceEvent}
    {onGone : String → β → List PersistenceEvent}
    (update : PersistenceEvent → Option (String × Option β)) [DecidableEq β]
    (hnext : ∀ key old new, (onNext key old new).filterMap update
      = if old = some new then [] else [(key, some new)])
    (hgone : ∀ key old, (onGone key old).filterMap update = [(key, none)]) :
    Tells prev.lookup next.lookup
      ((KeyedMap.diffWith onNext onGone prev next).filterMap update) := by
  have hsays {evts : List PersistenceEvent} {u : String × Option β} :
      u ∈ evts.filterMap update ↔ ∃ evt ∈ evts, update evt = some u := List.mem_filterMap
  constructor
  · intro u hu
    obtain ⟨evt, hevt, hupdate⟩ := hsays.mp hu
    rcases KeyedMap.mem_diffWith_iff.mp hevt with
      ⟨key, new, hnew, hmem⟩ | ⟨key, old, -, hnone, hmem⟩
    · have hu := hsays.mpr ⟨evt, hmem, hupdate⟩
      rw [hnext] at hu
      split_ifs at hu
      · cases hu
      · rw [List.mem_singleton.mp hu, hnew]
    · have hu := hsays.mpr ⟨evt, hmem, hupdate⟩
      rw [hgone] at hu
      rw [List.mem_singleton.mp hu, hnone]
  · intro key hne
    cases hnew : next.lookup key with
    | none =>
      obtain ⟨old, hold⟩ := Option.ne_none_iff_exists'.mp (hnew ▸ hne)
      have hu : (key, none) ∈ (onGone key old).filterMap update := by
        rw [hgone]
        exact List.mem_singleton_self _
      obtain ⟨evt, hevt, hupdate⟩ := hsays.mp hu
      exact ⟨_, hsays.mpr ⟨evt, KeyedMap.mem_diffWith_iff.mpr
        (.inr ⟨key, old, hold, hnew, hevt⟩), hupdate⟩, rfl⟩
    | some new =>
      have hu : (key, some new) ∈ (onNext key (prev.lookup key) new).filterMap update := by
        rw [hnext, if_neg (hnew ▸ hne)]
        exact List.mem_singleton_self _
      obtain ⟨evt, hevt, hupdate⟩ := hsays.mp hu
      exact ⟨_, hsays.mpr ⟨evt, KeyedMap.mem_diffWith_iff.mpr
        (.inl ⟨key, new, hnew, hevt⟩), hupdate⟩, rfl⟩

theorem taskForm_faithful : taskForm.Faithful diffAndEmitTasks where
  readable _ _ _ h := readable_of_diffAndEmitTasks h
  tells _ _ := by
    refine tells_of_updates taskUpdate updates_taskEventOf fun path old => ?_
    rw [List.filterMap_cons, taskUpdate, update_buildTaskPayload, if_pos rfl]
    rfl

/-! ### Runs -/

/-- **The lines make up for the snapshots.** Whatever the scans and calls of either thread meet,
once its first snapshot is behind, or if that is not taken in silence, the lines that it submits
between any two of its turns turn the view of the one snapshot into the view of the other, unless
the spool refuses one of them. -/
theorem snapshots_mirrored (silentFirst : Bool) :
    (∀ (cycles : List Cycle) (s t : Services), s.Started silentFirst →
      run (Services.step silentFirst) s cycles = some t →
        s.Mirrors serviceForm t.toPoller) ∧
    ∀ (scans : List Scan) (s t : Tasks), s.Started silentFirst →
      run (Tasks.step silentFirst) s scans = some t → s.Mirrors taskForm t.toPoller := by
  constructor
  · intro cycles s t hs hrun
    refine (invariant_of_run (I := fun t : Services => s.Mirrors serviceForm t.toPoller ∧
      t.Started silentFirst) (fun t c u ht hu => ?_) ⟨.refl _ _, hs⟩ hrun).1
    obtain ⟨hmirrors, hstarted⟩ := serviceForm_faithful.mirrors_take ht.2 c.env (t.snapshot c)
    rw [← Option.some.inj hu, Services.toPoller_cycle]
    exact ⟨ht.1.trans hmirrors, hstarted⟩
  · intro scans s t hs hrun
    refine (invariant_of_run (I := fun t : Tasks => s.Mirrors taskForm t.toPoller ∧
      t.Started silentFirst) (fun t c u ht hu => ?_) ⟨.refl _ _, hs⟩ hrun).1
    obtain ⟨hmirrors, hstarted⟩ := taskForm_faithful.mirrors_take ht.2 c.env c.scanTasks
    rw [← Option.some.inj hu, Tasks.toPoller_cycle]
    exact ⟨ht.1.trans hmirrors, hstarted⟩

/-- A service that the thread reports from nothing, and a task. -/
theorem spooler_mirrored : ∃ (s : Services) (t : Tasks),
    run (Services.step false) {} [Services.spoolerCycle 112] = some s ∧
      ({} : Services).Mirrors serviceForm s.toPoller ∧
    run (Tasks.step false) {} [Tasks.updateScan []] = some t ∧
      ({} : Tasks).Mirrors taskForm t.toPoller :=
  ⟨_, _, rfl, (snapshots_mirrored false).1 [Services.spoolerCycle 112] {} _ (.inr rfl) rfl, rfl,
    (snapshots_mirrored false).2 [Tasks.updateScan []] {} _ (.inr rfl) rfl⟩

end Polling

end WazabiAgent
