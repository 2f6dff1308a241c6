import WazabiAgent.Polling.Tasks

/-!
# Which task events are true

A `scheduled_task_delete` says that a task has no file any more, a `scheduled_task_create` that it
had none at the previous scan. Both are read off the snapshots, so what a scan does not get through
to is missing, and at the next scan new.

## Main definitions

* `Scan.Hidden` — a task file that a scan does not get through to
* `TrueTaskEvent` — an event about the files
* `Tasks.ScanOk` — a turn whose events are true

## Main results

* `forall_events_iff`, `task_events_true_iff_along` — which turns and which runs emit true events
* `along_scanOk_of_undisturbed` — runs without failures below the root
-/

namespace WazabiAgent

namespace Polling

open LabelledStep

/-! ### Task files -/

namespace Scan

variable {s : Scan} {key : String}

/-- There is a task file of this path. -/
def Present (s : Scan) (key : String) : Prop :=
  ∃ path f, TreeWalk.Reaches joinPath (fun _ => true) (fun _ => true) tasksRoot s.root
    (path, some f) ∧ path.toStringLossy = key

/-- There is one, behind a failure. -/
def Hidden (s : Scan) (key : String) : Prop := s.Present key ∧ ¬s.Reads key

theorem Reads.present (h : s.Reads key) : s.Present key := by
  obtain ⟨path, f, hreach, -, hkey⟩ := h
  exact ⟨path, f, TreeWalk.Reaches.mono (fun _ _ => rfl) (fun _ _ => rfl) hreach, hkey⟩

/-- Nothing fails. -/
structure Undisturbed (s : Scan) : Prop where
  readDir : ∀ path, s.readDirFails path = false
  entry : ∀ path, s.entryFails path = false
  metadata : ∀ path, s.metadataFails path = false
  read : ∀ path, s.readFails path = false

theorem Undisturbed.not_hidden (h : s.Undisturbed) (key : String) : ¬s.Hidden key := by
  rintro ⟨⟨path, f, hreach, hkey⟩, hreads⟩
  refine hreads ⟨path, f, TreeWalk.Reaches.mono (fun q _ => ?_) (fun q _ => ?_) hreach,
    h.read path, hkey⟩
  · rw [sees, h.entry, h.metadata]
    rfl
  · rw [opens, h.readDir]
    rfl

end Scan

/-! ### Events about the files -/

/-- The event names a task, which is absent where the event says so. -/
def TrueTaskEvent (last : Option Scan) (s : Scan) (e : PersistenceEvent) : Prop :=
  ∃ key, e.payload.get "task_path" = some (.string key) ∧
    (e.eventType = etTaskCreate → ∀ previous, last = some previous → ¬previous.Present key) ∧
    (e.eventType = etTaskDelete → ¬s.Present key)

variable {last : Option Scan} {s : Scan} {key : String} {snap : TaskSnapshot}
  {old : Option TaskSnapshot} {prev next : TaskSnapshots} {kind : String}

theorem trueTaskEvent_create_iff :
    TrueTaskEvent last s ⟨etTaskCreate, kind, 1, buildTaskPayload key snap old⟩ ↔
      ∀ previous, last = some previous → ¬previous.Present key := by
  simp [TrueTaskEvent, get_task_path_buildTaskPayload, etTaskCreate, etTaskDelete]

theorem trueTaskEvent_delete_iff :
    TrueTaskEvent last s ⟨etTaskDelete, kind, 1, buildTaskPayload key snap old⟩ ↔
      ¬s.Present key := by
  simp [TrueTaskEvent, get_task_path_buildTaskPayload, etTaskCreate, etTaskDelete]

/-- Modifications are not at issue. -/
theorem trueTaskEvent_modify :
    TrueTaskEvent last s ⟨etTaskModify, kind, 1, buildTaskPayload key snap old⟩ := by
  simp [TrueTaskEvent, get_task_path_buildTaskPayload, etTaskCreate, etTaskDelete, etTaskModify]

/-- Which comparisons yield true events. -/
theorem forall_diffAndEmitTasks_iff :
    (∀ e ∈ diffAndEmitTasks prev next, TrueTaskEvent last s e) ↔
      (∀ key ∈ next, key ∉ prev → ∀ previous, last = some previous → ¬previous.Present key) ∧
        ∀ key ∈ prev, key ∉ next → ¬s.Present key := by
  have hkept (key : String) (old snap : TaskSnapshot) :
      ∀ e ∈ taskEventOf key (some old) snap, TrueTaskEvent last s e := by
    rw [taskEventOf]
    split_ifs
    · exact fun e he => by cases he
    · exact List.forall_mem_singleton.mpr trueTaskEvent_modify
  rw [diffAndEmitTasks, KeyedMap.forall_mem_diffWith_iff]
  simp only [taskEventOf, List.forall_mem_singleton, trueTaskEvent_create_iff,
    trueTaskEvent_delete_iff, AList.lookup_eq_none]
  constructor
  · rintro ⟨hcreate, -, hdelete⟩
    refine ⟨fun key hnext hprev => ?_, fun key hprev hnext => ?_⟩
    · obtain ⟨snap, hsnap⟩ := KeyedMap.exists_lookup_iff.mpr hnext
      exact hcreate key snap hprev hsnap
    · obtain ⟨old, hold⟩ := KeyedMap.exists_lookup_iff.mpr hprev
      exact hdelete key old hold hnext
  · rintro ⟨hcreate, hdelete⟩
    refine ⟨fun key snap hprev hsnap => ?_, fun key old snap _ _ => hkept key old snap,
      fun key old hold hnext => ?_⟩
    · exact hcreate key (KeyedMap.exists_lookup_iff.mp ⟨snap, hsnap⟩) hprev
    · exact hdelete key (KeyedMap.exists_lookup_iff.mp ⟨old, hold⟩) hnext

/-! ### Turns -/

namespace Tasks

variable {silentFirst : Bool} {t : Tasks} {scans : List Scan}

/-- In a turn that compares: no task of the previous snapshot is hidden, and none is read that was
hidden when the previous snapshot was taken. -/
def ScanOk (silentFirst : Bool) (t : Tasks) (s : Scan) : Prop :=
  s.opens tasksRoot = false ∨ (t.first && silentFirst) = true ∨
    (∀ key ∈ t.prev, ¬s.Hidden key) ∧
      ∀ previous, t.last = some previous → ∀ key, previous.Hidden key → ¬s.Reads key

/-- The snapshot has what the last scan has read. -/
def Inv (t : Tasks) : Prop :=
  ∀ key, key ∈ t.prev ↔ ∃ previous, t.last = some previous ∧ previous.Reads key

theorem inv_start : ({} : Tasks).Inv := fun key =>
  iff_of_false (AList.notMem_empty key) fun ⟨_, h, _⟩ => by cases h

theorem inv_cycle (h : t.Inv) (silentFirst : Bool) (s : Scan) : (t.cycle silentFirst s).Inv := by
  rw [cycle]
  cases hscan : s.scanTasks with
  | none => exact h
  | some next =>
    intro key
    change key ∈ next ↔ ∃ previous, some s = some previous ∧ previous.Reads key
    rw [Scan.mem_scanTasks_iff hscan]
    simp

theorem last_cycle (h : s.opens tasksRoot = true) : (t.cycle silentFirst s).last = some s := by
  rw [cycle, Scan.scanTasks_of_opens h]

/-- **One turn.** -/
theorem forall_events_iff (h : t.Inv) :
    (∀ e ∈ t.events silentFirst s, TrueTaskEvent t.last s e) ↔ t.ScanOk silentFirst s := by
  cases hopen : s.opens tasksRoot with
  | false =>
    rw [events, Scan.scanTasks_of_not_opens hopen]
    exact iff_of_true (fun e he => by cases he) (.inl hopen)
  | true =>
    have hscan := Scan.scanTasks_of_opens hopen
    rw [events, hscan, Poller.events, ScanOk, hopen]
    by_cases hsilent : (t.first && silentFirst) = true
    · rw [if_pos hsilent]
      exact iff_of_true (fun e he => by cases he) (.inr (.inl hsilent))
    · rw [if_neg hsilent, forall_diffAndEmitTasks_iff]
      simp only [Scan.mem_scanTasks_iff hscan, hsilent, Bool.true_eq_false, Bool.false_eq_true,
        false_or]
      rw [and_comm]
      refine and_congr ?_ ?_
      · refine forall_congr' fun key => forall_congr' fun _ => ?_
        rw [Scan.Hidden, not_and, not_imp_not, not_not]
      · constructor
        · rintro hcreate previous hlast key ⟨hpresent, hreads⟩ hread
          refine hcreate key hread (fun hprev => ?_) previous hlast hpresent
          obtain ⟨previous', hlast', hread'⟩ := (h key).mp hprev
          obtain rfl : previous = previous' := Option.some.inj (hlast.symm.trans hlast')
          exact hreads hread'
        · intro hknown key hread hprev previous hlast hpresent
          refine hknown previous hlast key ⟨hpresent, fun hread' => ?_⟩ hread
          exact hprev ((h key).mpr ⟨previous, hlast, hread'⟩)

/-- **When task events are true.** In a run of the loop, all events are true of the task files
exactly if every turn is a `ScanOk`. -/
theorem task_events_true_iff_along (silentFirst : Bool) (scans : List Scan) :
    (∀ ms s rest t, scans = ms ++ s :: rest → run (step silentFirst) {} ms = some t →
        ∀ e ∈ t.events silentFirst s, TrueTaskEvent t.last s e) ↔
      Along (step silentFirst) (ScanOk silentFirst) {} scans := by
  obtain ⟨u, hu⟩ : ∃ u, run (step silentFirst) {} scans = some u :=
    exists_run (fun _ _ => rfl) _ scans
  have hturn (t : Tasks) (ht : Reachable (step silentFirst) {} t) (s : Scan) :
      t.ScanOk silentFirst s ↔ ∀ e ∈ t.events silentFirst s, TrueTaskEvent t.last s e := by
    refine (forall_events_iff (ht.invariant (fun t s v hv hst => ?_) inv_start)).symm
    rw [← Option.some.inj hst]
    exact inv_cycle hv silentFirst s
  rw [along_iff_of_reachable hturn, along_iff_forall_split hu]

/-- Without failures, other than of the root, all events are true. -/
theorem along_scanOk_of_undisturbed
    (h : ∀ s ∈ scans, s.opens tasksRoot = false ∨ s.Undisturbed) :
    Along (step silentFirst) (ScanOk silentFirst) {} scans := by
  refine Along.of_invariant (I := fun t => ∀ previous, t.last = some previous →
      previous.Undisturbed) (P := fun _ s => s.opens tasksRoot = false ∨ s.Undisturbed)
    (fun t s u ht hs hst => ?_) (fun t s ht hs => ?_) (fun _ hlast => by cases hlast)
    (along_of_forall_mem h _)
  · rw [← Option.some.inj hst, cycle]
    rcases hs with hclosed | hs
    · rw [Scan.scanTasks_of_not_opens hclosed]
      exact ht
    · cases s.scanTasks with
      | none => exact ht
      | some next =>
        intro previous hlast
        exact Option.some.inj hlast ▸ hs
  · refine hs.imp_right fun hs => .inr ⟨fun key _ => hs.not_hidden key, ?_⟩
    exact fun previous hlast key hhidden => absurd hhidden ((ht previous hlast).not_hidden key)

/-! ### A directory that is denied once -/

/-- One task, in a directory of its own, of which the given paths cannot be opened. -/
def updateScan (denied : List OsString) : Scan where
  root := [(OsString.ofString "Vendor", .node [(OsString.ofString "Update",
    .leaf (some {
      modified := some 1700000000
      body := [0x3C, 0x54, 0x61, 0x73, 0x6B, 0x2F, 0x3E] }))])]
  readDirFails := fun path => path ∈ denied
  env := {
    nowIso8601 := fun _ => "2026-01-01T00:00:00.000Z"
    trySubmit := fun _ => true }

/-- A directory below the root of the tasks. -/
def vendorDir : OsString := joinPath tasksRoot (OsString.ofString "Vendor")

/-- The task is there, whatever is denied. -/
theorem present_updateScan (denied : List OsString) :
    (updateScan denied).Present "C:\\Windows\\System32\\Tasks\\Vendor\\Update" :=
  ⟨_, _, .node (List.mem_singleton_self _) rfl rfl (.leaf (List.mem_singleton_self _) rfl),
    by decide⟩

/-- One directory that cannot be opened once, and its task is deleted and created again. -/
theorem denied_directory_deletes_and_creates :
    (∃ t, run (step true) {} [updateScan []] = some t ∧
      ∃ e ∈ t.events true (updateScan [vendorDir]), e.eventType = etTaskDelete ∧
        ¬TrueTaskEvent t.last (updateScan [vendorDir]) e) ∧
    ∃ t, run (step true) {} [updateScan [], updateScan [vendorDir]] = some t ∧
      ∃ e ∈ t.events true (updateScan []), e.eventType = etTaskCreate ∧
        ¬TrueTaskEvent t.last (updateScan []) e := by
  let t₁ : Tasks := Tasks.cycle true {} (updateScan [])
  let t₂ : Tasks := t₁.cycle true (updateScan [vendorDir])
  have hdelete : (t₁.events true (updateScan [vendorDir])).head?.map
      (fun e => (e.eventType, e.payload.get "task_path"))
        = some (etTaskDelete, some (.string "C:\\Windows\\System32\\Tasks\\Vendor\\Update")) := by
    decide +kernel
  have hcreate : (t₂.events true (updateScan [])).head?.map
      (fun e => (e.eventType, e.payload.get "task_path"))
        = some (etTaskCreate, some (.string "C:\\Windows\\System32\\Tasks\\Vendor\\Update")) := by
    decide +kernel
  refine ⟨⟨t₁, rfl, ?_⟩, t₂, rfl, ?_⟩
  · obtain ⟨e, he, hkey⟩ := Option.map_eq_some_iff.mp hdelete
    obtain ⟨htype, hpath⟩ := Prod.mk.inj hkey
    refine ⟨e, List.mem_of_head? he, htype, ?_⟩
    rintro ⟨key, hget, -, htrue⟩
    rw [hpath, Option.some.injEq, Json.string.injEq] at hget
    exact htrue htype (hget ▸ present_updateScan [vendorDir])
  · obtain ⟨e, he, hkey⟩ := Option.map_eq_some_iff.mp hcreate
    obtain ⟨htype, hpath⟩ := Prod.mk.inj hkey
    refine ⟨e, List.mem_of_head? he, htype, ?_⟩
    rintro ⟨key, hget, htrue, -⟩
    rw [hpath, Option.some.injEq, Json.string.injEq] at hget
    have hlast : t₂.last = some (updateScan [vendorDir]) := last_cycle (by decide +kernel)
    exact htrue htype _ hlast (hget ▸ present_updateScan [vendorDir])

end Tasks

end Polling

end WazabiAgent
