import WazabiAgent.Polling.Services

/-!
# Which service events are true

A `service_create`, `service_delete` or `service_modify` says how two snapshots differ. It is true
if what the SCM had at the two differs in the same way.

A comparison is wrong about the SCM where one of its snapshots is. A failed size probe hides all
services from a snapshot, which the comparison with the previous one takes for their deletion, and
the comparison with the next one for their creation. A failed query hides the configuration of one
service, in the same way.

## Main definitions

* `TrueEvent` — an event about what the SCM had
* `Services.Misread` — a query that makes an unchanged service look changed
* `Services.CycleOk` — a turn whose events are true

## Main results

* `forall_diffAndEmit_iff` — which comparisons yield true events
* `forall_events_iff`, `events_true_iff_along` — which turns, and which runs
* `along_cycleOk_of_undisturbed` — runs without failed probes and queries
-/

namespace WazabiAgent

namespace Polling

open LabelledStep

/-! ### Events about the SCM -/

/-- What `service_modify` compares. -/
def ServiceSnapshot.settings (s : ServiceSnapshot) : String × ServiceConfig :=
  (s.displayName, s.toServiceConfig)

section Comparison

variable {prev next : Snapshots} {seen seen' : String → Option ServiceSnapshot} {name : String}
  {p n : ServiceSnapshot}

/-- What was seen differs, in the way that the event says. -/
structure TrueChange (seen seen' : String → Option ServiceSnapshot) (eventType name : String) :
    Prop where
  create : eventType = etServiceCreate → seen name = none ∧ (seen' name).isSome
  delete : eventType = etServiceDelete → (seen name).isSome ∧ seen' name = none
  modify : eventType = etServiceModify →
    ∃ a b, seen name = some a ∧ seen' name = some b ∧ a.settings ≠ b.settings

/-- The event names a service, and is true of it. -/
def TrueEvent (seen seen' : String → Option ServiceSnapshot) (e : PersistenceEvent) : Prop :=
  ∃ name, e.payload.get "name" = some (.string name) ∧ TrueChange seen seen' e.eventType name

theorem trueChange_create_iff : TrueChange seen seen' etServiceCreate name ↔
    seen name = none ∧ (seen' name).isSome :=
  ⟨fun h => h.create rfl, fun h => ⟨fun _ => h,
    fun h => by simp [etServiceCreate, etServiceDelete] at h,
    fun h => by simp [etServiceCreate, etServiceModify] at h⟩⟩

theorem trueChange_delete_iff : TrueChange seen seen' etServiceDelete name ↔
    (seen name).isSome ∧ seen' name = none :=
  ⟨fun h => h.delete rfl, fun h => ⟨fun h => by simp [etServiceCreate, etServiceDelete] at h,
    fun _ => h, fun h => by simp [etServiceDelete, etServiceModify] at h⟩⟩

theorem trueChange_modify_iff : TrueChange seen seen' etServiceModify name ↔
    ∃ a b, seen name = some a ∧ seen' name = some b ∧ a.settings ≠ b.settings :=
  ⟨fun h => h.modify rfl, fun h => ⟨fun h => by simp [etServiceCreate, etServiceModify] at h,
    fun h => by simp [etServiceDelete, etServiceModify] at h, fun _ => h⟩⟩

/-- Starting and stopping are not at issue. -/
theorem trueChange_startStop (running : Bool) :
    TrueChange seen seen' (if running then etServiceStart else etServiceStop) name := by
  constructor <;> cases running <;>
    simp [etServiceCreate, etServiceDelete, etServiceModify, etServiceStart, etServiceStop]

theorem settings_eq_iff : p.settings = n.settings ↔
    p.displayName = n.displayName ∧ p.toServiceConfig = n.toServiceConfig := by
  rw [ServiceSnapshot.settings, ServiceSnapshot.settings, Prod.mk.injEq]

theorem settings_ne_iff : p.settings ≠ n.settings ↔
    p.binaryPath ≠ n.binaryPath ∨ p.startType ≠ n.startType ∨ p.serviceType ≠ n.serviceType ∨
      p.account ≠ n.account ∨ p.displayName ≠ n.displayName := by
  obtain ⟨⟨b, t, ty, a⟩, d, r⟩ := p
  obtain ⟨⟨b', t', ty', a'⟩, d', r'⟩ := n
  simp only [ServiceSnapshot.settings, ne_eq, Prod.mk.injEq, ServiceConfig.mk.injEq]
  tauto

theorem name_of_mem_entriesOf {old : Option ServiceSnapshot} :
    ∀ d ∈ entriesOf name old n, d.name = name := by
  cases old with
  | none => simp [entriesOf]
  | some p =>
    rw [entriesOf]
    split_ifs <;> simp

/-- The entries of a service that is new. -/
theorem forall_entriesOf_none_iff :
    (∀ d ∈ entriesOf name none n, TrueChange seen seen' d.eventType d.name) ↔
      seen name = none ∧ (seen' name).isSome := by
  rw [entriesOf, List.forall_mem_singleton, trueChange_create_iff]

/-- The entries of a service that was known. -/
theorem forall_entriesOf_some_iff :
    (∀ d ∈ entriesOf name (some p) n, TrueChange seen seen' d.eventType d.name) ↔
      (p.settings ≠ n.settings →
        ∃ a b, seen name = some a ∧ seen' name = some b ∧ a.settings ≠ b.settings) := by
  rw [entriesOf]
  by_cases heq : p = n
  · subst heq
    simp
  · rw [if_neg heq, List.forall_mem_append]
    have hflip : ∀ d ∈ (if p.running ≠ n.running then
        [DiffEntry.mk (if n.running then etServiceStart else etServiceStop)
          (if n.running then "ServiceStart" else "ServiceStop") name] else []),
        TrueChange seen seen' d.eventType d.name := by
      by_cases hrun : p.running = n.running
      · simp [hrun]
      · rw [if_pos hrun, List.forall_mem_singleton]
        exact trueChange_startStop n.running
    by_cases hset : p.settings ≠ n.settings
    · rw [if_pos (settings_ne_iff.mp hset), List.forall_mem_singleton, trueChange_modify_iff]
      exact ⟨fun h _ => h.2, fun h => ⟨hflip, h hset⟩⟩
    · rw [if_neg (mt settings_ne_iff.mpr hset)]
      exact iff_of_true ⟨hflip, by simp⟩ fun h => absurd h hset

/-- An entry names a service of one of the snapshots, so it becomes an event. -/
theorem event_of_mem_computeDiff {d : DiffEntry} (h : d ∈ computeDiff prev next) :
    ∃ e, d.event prev next = some e := by
  have hlookup : ∃ snap, (next.lookup d.name).or (prev.lookup d.name) = some snap := by
    rcases KeyedMap.mem_diffWith_iff.mp h with ⟨name, n, hn, hd⟩ | ⟨name, p, hp, hn, hd⟩
    · rw [name_of_mem_entriesOf d hd, hn]
      exact ⟨n, rfl⟩
    · rw [List.mem_singleton.mp hd]
      exact ⟨p, by rw [hn, hp, Option.none_or]⟩
  obtain ⟨snap, hsnap⟩ := hlookup
  exact ⟨_, by rw [DiffEntry.event, hsnap, Option.map_some]⟩

/-- The event has the type and the name of the entry. -/
theorem trueEvent_iff {d : DiffEntry} {e : PersistenceEvent} (h : d.event prev next = some e) :
    TrueEvent seen seen' e ↔ TrueChange seen seen' d.eventType d.name := by
  obtain ⟨snap, -, rfl⟩ := Option.map_eq_some_iff.mp h
  simp [TrueEvent, get_name_buildPayload]

theorem forall_diffAndEmit_iff_computeDiff :
    (∀ e ∈ diffAndEmit prev next, TrueEvent seen seen' e) ↔
      ∀ d ∈ computeDiff prev next, TrueChange seen seen' d.eventType d.name := by
  constructor
  · intro h d hd
    obtain ⟨e, he⟩ := event_of_mem_computeDiff hd
    exact (trueEvent_iff he).mp (h e (List.mem_filterMap.mpr ⟨d, hd, he⟩))
  · intro h e he
    obtain ⟨d, hd, he⟩ := List.mem_filterMap.mp he
    exact (trueEvent_iff he).mpr (h d hd)

/-- **Which comparisons yield true events.** -/
theorem forall_diffAndEmit_iff :
    (∀ e ∈ diffAndEmit prev next, TrueEvent seen seen' e) ↔
      (∀ name, name ∈ next → name ∉ prev → seen name = none ∧ (seen' name).isSome) ∧
      (∀ name, name ∈ prev → name ∉ next → (seen name).isSome ∧ seen' name = none) ∧
      ∀ name p n, prev.lookup name = some p → next.lookup name = some n →
        p.settings ≠ n.settings →
          ∃ a b, seen name = some a ∧ seen' name = some b ∧ a.settings ≠ b.settings := by
  rw [forall_diffAndEmit_iff_computeDiff, computeDiff, KeyedMap.forall_mem_diffWith_iff]
  simp only [forall_entriesOf_none_iff, forall_entriesOf_some_iff, List.forall_mem_singleton,
    trueChange_delete_iff, AList.lookup_eq_none]
  constructor
  · rintro ⟨hcreate, hmodify, hdelete⟩
    refine ⟨fun name hnext hprev => ?_, fun name hprev hnext => ?_, hmodify⟩
    · obtain ⟨n, hn⟩ := KeyedMap.exists_lookup_iff.mpr hnext
      exact hcreate name n hprev hn
    · obtain ⟨p, hp⟩ := KeyedMap.exists_lookup_iff.mpr hprev
      exact hdelete name p hp hnext
  · rintro ⟨hcreate, hdelete, hmodify⟩
    refine ⟨fun name n hprev hn => ?_, hmodify, fun name p hp hnext => ?_⟩
    · exact hcreate name (KeyedMap.exists_lookup_iff.mp ⟨n, hn⟩) hprev
    · exact hdelete name (KeyedMap.exists_lookup_iff.mp ⟨p, hp⟩) hnext

end Comparison

/-! ### Turns -/

/-- An enumeration lists nothing for want of a size, or all services. -/
theorem Cycle.cases_of_listing {c : Cycle} {es : List EnumServiceStatus}
    (h : c.listing = some es) :
    (c.calls.bytesNeeded = 0 ∧ es = []) ∨ (c.calls.bytesNeeded ≠ 0 ∧ es = c.scm.services) := by
  rw [Cycle.listing] at h
  split_ifs at h with hopen hsize hfill
  · exact .inl ⟨hsize, (Option.some.inj h).symm⟩
  · exact .inr ⟨hsize, (Option.some.inj h).symm⟩

/-- A query that goes through answers with what the SCM has. -/
theorem Cycle.queryServiceConfig_cases (c : Cycle) (name : String) :
    c.queryServiceConfig name = none ∨
      c.queryServiceConfig name = some (c.scm.config name).read := by
  rw [Cycle.queryServiceConfig]
  split_ifs <;> simp

namespace Services

variable {silentFirst : Bool} {s : Services} {c : Cycle} {name : String}

/-- A known service that has not changed is asked for its configuration, and either the query fails
though the previous snapshot has a configuration, or it goes through though the previous snapshot
has another one. -/
def Misread (s : Services) (c : Cycle) (name : String) : Prop :=
  ∃ e p r, entryOf c.scm.services name = some e ∧ s.prev.lookup name = some p ∧
    s.seen name = some r ∧ carriedOver s.prev s.fullRescan e = none ∧
    r.displayName = wideToString e.displayName ∧ r.toServiceConfig = (c.scm.config name).read ∧
    if (c.queryServiceConfig name).isSome then p.toServiceConfig ≠ r.toServiceConfig
    else p.toServiceConfig ≠ .blank

/-- In a turn that compares: if the size probe leaves no size, all services of the previous snapshot
are gone; if it does, every listed service that was there at the previous snapshot is in that
snapshot, and none is misread. -/
def CycleOk (silentFirst : Bool) (s : Services) (c : Cycle) : Prop :=
  c.listing = none ∨ (s.first && silentFirst) = true ∨
    if c.calls.bytesNeeded = 0 then ∀ name ∈ s.prev, entryOf c.scm.services name = none
    else (∀ name, (entryOf c.scm.services name).isSome → (s.seen name).isSome → name ∈ s.prev) ∧
      ∀ name, ¬s.Misread c name

theorem snapshot_of_none (h : c.listing = none) : s.snapshot c = none := by
  rw [snapshot, enumerateServices, h, Option.map_none]

theorem snapshot_of_some {es : List EnumServiceStatus} (h : c.listing = some es) :
    ∃ next, s.snapshot c = some next ∧
      ∀ name, next.lookup name = (entryOf es name).map (snapshotOf c s.prev s.fullRescan) :=
  ⟨_, by rw [snapshot, enumerateServices, h, Option.map_some],
    lookup_enumerateServices h (by rw [enumerateServices, h, Option.map_some])⟩

theorem cycle_of_listing_none (h : c.listing = none) : s.cycle silentFirst c = s := by
  rw [cycle, snapshot_of_none h]

theorem cycle_of_snapshot (silentFirst : Bool) {next : Snapshots}
    (h : s.snapshot c = some next) :
    (s.cycle silentFirst c).prev = next ∧ (s.cycle silentFirst c).first = false ∧
      (s.cycle silentFirst c).cyclesSinceFull
        = (if s.fullRescan then 0 else s.cyclesSinceFull + 1) ∧
      (s.cycle silentFirst c).seen = s.seenAt c := by
  rw [cycle, h]
  exact ⟨rfl, rfl, rfl, rfl⟩

theorem seenAt_of_entry {e : EnumServiceStatus} (h : entryOf c.scm.services name = some e) :
    s.seenAt c name = some (s.seenOf c e) := by rw [seenAt, h, Option.map_some]

/-- What is in the snapshot was seen, under the same display name. -/
def Inv (s : Services) : Prop :=
  ∀ name p, s.prev.lookup name = some p →
    ∃ r, s.seen name = some r ∧ p.displayName = r.displayName

theorem inv_start : ({} : Services).Inv := fun name p hp => by
  rw [AList.lookup_empty] at hp
  cases hp

theorem inv_cycle (h : s.Inv) (silentFirst : Bool) (c : Cycle) : (s.cycle silentFirst c).Inv := by
  cases hes : c.listing with
  | none => rwa [cycle_of_listing_none hes]
  | some es =>
    obtain ⟨next, hnext, hlookup⟩ := snapshot_of_some (s := s) hes
    obtain ⟨hprev, -, -, hseen⟩ := cycle_of_snapshot silentFirst hnext
    intro name p hp
    rw [hprev, hlookup] at hp
    obtain ⟨e, he, rfl⟩ := Option.map_eq_some_iff.mp hp
    rw [hseen]
    rcases Cycle.cases_of_listing hes with ⟨-, rfl⟩ | ⟨-, rfl⟩
    · cases he
    · exact ⟨s.seenOf c e, seenAt_of_entry he, rfl⟩

/-- A known service that is not misread looks changed only if it has changed. -/
theorem not_misread_iff {e : EnumServiceStatus} {p r : ServiceSnapshot}
    (he : entryOf c.scm.services name = some e) (hp : s.prev.lookup name = some p)
    (hr : s.seen name = some r) (hdisplay : p.displayName = r.displayName) :
    ¬s.Misread c name ↔
      (p.settings ≠ (snapshotOf c s.prev s.fullRescan e).settings →
        r.settings ≠ (s.seenOf c e).settings) := by
  have hmis : s.Misread c name ↔ carriedOver s.prev s.fullRescan e = none ∧
      r.displayName = wideToString e.displayName ∧ r.toServiceConfig = (c.scm.config name).read ∧
      if (c.queryServiceConfig name).isSome then p.toServiceConfig ≠ r.toServiceConfig
      else p.toServiceConfig ≠ .blank := by
    constructor
    · rintro ⟨e', p', r', he', hp', hr', h⟩
      obtain rfl : e = e' := Option.some.inj (he.symm.trans he')
      obtain rfl : p = p' := Option.some.inj (hp.symm.trans hp')
      obtain rfl : r = r' := Option.some.inj (hr.symm.trans hr')
      exact h
    · exact fun h => ⟨e, p, r, he, hp, hr, h⟩
  have hname : e.name = name := name_of_entryOf he
  rw [hmis, not_imp_not, settings_eq_iff, settings_eq_iff]
  simp only [snapshotOf, seenOf, hname, hr]
  cases hcarried : carriedOver s.prev s.fullRescan e with
  | some config =>
    -- both configurations are those of before
    have hconfig : p.toServiceConfig = config :=
      config_of_carriedOver (by rw [hname, hp]) hcarried
    simp [hconfig, hdisplay]
  | none =>
    simp only [true_and, hdisplay]
    rcases c.queryServiceConfig_cases name with hquery | hquery
    · rw [hquery, Option.isSome_none, if_neg Bool.false_ne_true, Option.getD_none]
      constructor
      · rintro h ⟨hd, hconfig⟩
        exact ⟨hd, by_contra fun hne => h ⟨hd, hconfig, hne⟩⟩
      · rintro h ⟨hd, hconfig, hne⟩
        exact hne (h ⟨hd, hconfig⟩).2
    · rw [hquery, Option.isSome_some, if_pos rfl, Option.getD_some]
      constructor
      · rintro h ⟨hd, hconfig⟩
        refine ⟨hd, by_contra fun hne => h ⟨hd, hconfig, fun heq => hne ?_⟩⟩
        rw [heq, hconfig]
      · rintro h ⟨hd, hconfig, hne⟩
        refine hne ?_
        rw [(h ⟨hd, hconfig⟩).2, hconfig]

theorem isSome_seen (h : s.Inv) (hname : name ∈ s.prev) : (s.seen name).isSome := by
  obtain ⟨p, hp⟩ := KeyedMap.exists_lookup_iff.mpr hname
  obtain ⟨r, hr, -⟩ := h name p hp
  rw [hr]
  rfl

theorem isSome_seenAt_iff :
    (s.seenAt c name).isSome ↔ (entryOf c.scm.services name).isSome := by
  rw [seenAt, Option.isSome_map]

/-- The comparison with a snapshot from which a failed size probe has hidden everything. -/
theorem forall_diffAndEmit_hidden_iff (h : s.Inv) {next : Snapshots}
    (hlookup : ∀ name, next.lookup name = none) :
    (∀ e ∈ diffAndEmit s.prev next, TrueEvent s.seen (s.seenAt c) e) ↔
      ∀ name ∈ s.prev, entryOf c.scm.services name = none := by
  have hempty (name : String) : name ∉ next := AList.lookup_eq_none.mp (hlookup name)
  rw [forall_diffAndEmit_iff]
  constructor
  · rintro ⟨-, hdelete, -⟩ name hname
    exact Option.map_eq_none_iff.mp (hdelete name hname (hempty name)).2
  · intro hgone
    refine ⟨fun name hname => absurd hname (hempty name), fun name hname _ => ?_,
      fun name p n _ hn => ?_⟩
    · exact ⟨isSome_seen h hname, by rw [seenAt, hgone name hname, Option.map_none]⟩
    · rw [hlookup] at hn
      cases hn

/-- The comparison with a snapshot that has all services. -/
theorem forall_diffAndEmit_listed_iff (h : s.Inv) {next : Snapshots}
    (hlookup : ∀ name, next.lookup name
      = (entryOf c.scm.services name).map (snapshotOf c s.prev s.fullRescan)) :
    (∀ e ∈ diffAndEmit s.prev next, TrueEvent s.seen (s.seenAt c) e) ↔
      (∀ name, (entryOf c.scm.services name).isSome → (s.seen name).isSome → name ∈ s.prev) ∧
        ∀ name, ¬s.Misread c name := by
  have hmem (name : String) : name ∈ next ↔ (entryOf c.scm.services name).isSome := by
    rw [← AList.lookup_isSome, hlookup, Option.isSome_map]
  rw [forall_diffAndEmit_iff]
  constructor
  · rintro ⟨hcreate, -, hmodify⟩
    refine ⟨fun name hentry hseen => ?_, fun name hmis => ?_⟩
    · by_contra hprev
      rw [(hcreate name ((hmem name).mpr hentry) hprev).1] at hseen
      cases hseen
    · obtain ⟨e, p, r, he, hp, hr, -⟩ := id hmis
      obtain ⟨r', hr', hdisplay⟩ := h name p hp
      obtain rfl : r = r' := Option.some.inj (hr.symm.trans hr')
      refine (not_misread_iff he hp hr hdisplay).mpr (fun hne => ?_) hmis
      obtain ⟨a, b, ha, hb, hab⟩ := hmodify name p _ hp (by rw [hlookup, he, Option.map_some]) hne
      obtain rfl : r = a := Option.some.inj (hr.symm.trans ha)
      obtain rfl : s.seenOf c e = b := Option.some.inj ((seenAt_of_entry he).symm.trans hb)
      exact hab
  · rintro ⟨hknown, hread⟩
    refine ⟨fun name hnext hprev => ⟨?_, ?_⟩, fun name hprev hnext => ⟨?_, ?_⟩,
      fun name p n hp hn hne => ?_⟩
    · by_contra hseen
      exact hprev (hknown name ((hmem name).mp hnext) (Option.isSome_iff_ne_none.mpr hseen))
    · exact isSome_seenAt_iff.mpr ((hmem name).mp hnext)
    · exact isSome_seen h hprev
    · exact Option.not_isSome_iff_eq_none.mp (mt isSome_seenAt_iff.mp (mt (hmem name).mpr hnext))
    · rw [hlookup] at hn
      obtain ⟨e, he, rfl⟩ := Option.map_eq_some_iff.mp hn
      obtain ⟨r, hr, hdisplay⟩ := h name p hp
      exact ⟨r, _, hr, seenAt_of_entry he, (not_misread_iff he hp hr hdisplay).mp (hread name) hne⟩

/-- **One turn.** -/
theorem forall_events_iff (h : s.Inv) :
    (∀ e ∈ s.events silentFirst c, TrueEvent s.seen (s.seenAt c) e) ↔ s.CycleOk silentFirst c := by
  cases hes : c.listing with
  | none =>
    rw [events, snapshot_of_none hes]
    exact iff_of_true (fun e he => by cases he) (.inl hes)
  | some es =>
    obtain ⟨next, hnext, hlookup⟩ := snapshot_of_some (s := s) hes
    rw [events, hnext, Poller.events, CycleOk, hes]
    by_cases hsilent : (s.first && silentFirst) = true
    · rw [if_pos hsilent]
      exact iff_of_true (fun e he => by cases he) (.inr (.inl hsilent))
    · rw [if_neg hsilent]
      simp only [reduceCtorEq, hsilent, false_or]
      rcases Cycle.cases_of_listing hes with ⟨hsize, rfl⟩ | ⟨hsize, rfl⟩
      · rw [if_pos hsize]
        exact forall_diffAndEmit_hidden_iff h hlookup
      · rw [if_neg hsize]
        exact forall_diffAndEmit_listed_iff h hlookup

/-- **When service events are true.** In a run of the loop, all events are true of what the SCM had
exactly if every turn is a `CycleOk`. -/
theorem events_true_iff_along (silentFirst : Bool) (cycles : List Cycle) :
    (∀ ms c rest s, cycles = ms ++ c :: rest → run (step silentFirst) {} ms = some s →
        ∀ e ∈ s.events silentFirst c, TrueEvent s.seen (s.seenAt c) e) ↔
      Along (step silentFirst) (CycleOk silentFirst) {} cycles := by
  obtain ⟨t, ht⟩ : ∃ t, run (step silentFirst) {} cycles = some t :=
    exists_run (fun _ _ => rfl) _ cycles
  have hturn (s : Services) (hs : Reachable (step silentFirst) {} s) (c : Cycle) :
      s.CycleOk silentFirst c ↔ ∀ e ∈ s.events silentFirst c, TrueEvent s.seen (s.seenAt c) e := by
    refine (forall_events_iff (hs.invariant (fun u c v hu hst => ?_) inv_start)).symm
    rw [← Option.some.inj hst]
    exact inv_cycle hu silentFirst c
  rw [along_iff_of_reachable hturn, along_iff_forall_split ht]

/-! ### Turns that nothing disturbs -/

/-- The snapshot is what was seen. -/
def Exact (s : Services) : Prop := ∀ name, s.prev.lookup name = s.seen name

theorem snapshotOf_eq_seenOf (h : s.Exact) {e : EnumServiceStatus}
    (hquery : (c.queryServiceConfig e.name).isSome) :
    snapshotOf c s.prev s.fullRescan e = s.seenOf c e := by
  rw [snapshotOf, seenOf]
  cases hcarried : carriedOver s.prev s.fullRescan e with
  | none =>
    rcases c.queryServiceConfig_cases e.name with hnone | hread
    · rw [hnone] at hquery
      cases hquery
    · rw [hread, Option.getD_some]
  | some config =>
    cases hp : s.prev.lookup e.name with
    | none =>
      rw [carriedOver, hp] at hcarried
      cases hcarried
    | some p =>
      rw [← h e.name, hp, ← config_of_carriedOver hp hcarried]

end Services

/-- If the size probe leaves no size, there is no service, and every query of a service that is
there goes through. The other calls may fail. -/
def Cycle.Undisturbed (c : Cycle) : Prop :=
  (c.calls.bytesNeeded = 0 → named c.scm.services = []) ∧
    ∀ name, (entryOf c.scm.services name).isSome → (c.queryServiceConfig name).isSome

/-- All services are listed. -/
theorem Cycle.Undisturbed.entryOf_eq {c : Cycle} (h : c.Undisturbed) {es : List EnumServiceStatus}
    (hes : c.listing = some es) (name : String) :
    entryOf es name = entryOf c.scm.services name := by
  rcases Cycle.cases_of_listing hes with ⟨hsize, rfl⟩ | ⟨-, rfl⟩
  · rw [entryOf, entryOf, h.1 hsize, named, List.filter_nil]
  · rfl

namespace Services

variable {silentFirst : Bool} {s : Services} {c : Cycle}

theorem exact_cycle (h : s.Exact) (hc : c.Undisturbed) (silentFirst : Bool) :
    (s.cycle silentFirst c).Exact := by
  cases hes : c.listing with
  | none => rwa [cycle_of_listing_none hes]
  | some es =>
    obtain ⟨next, hnext, hlookup⟩ := snapshot_of_some (s := s) hes
    obtain ⟨hprev, -, -, hseen⟩ := cycle_of_snapshot silentFirst hnext
    intro name
    rw [hprev, hseen, hlookup, hc.entryOf_eq hes, seenAt]
    cases he : entryOf c.scm.services name with
    | none => rfl
    | some e =>
      have hname : e.name = name := name_of_entryOf he
      rw [Option.map_some, Option.map_some,
        snapshotOf_eq_seenOf h (hname ▸ hc.2 name (by rw [he]; rfl))]

theorem cycleOk_of_exact (h : s.Exact) (hc : c.Undisturbed) : s.CycleOk silentFirst c := by
  refine .inr (.inr ?_)
  split_ifs with hsize
  · intro name _
    rw [entryOf, hc.1 hsize]
    rfl
  · refine ⟨fun name _ hseen => ?_, ?_⟩
    · rwa [← h name, AList.lookup_isSome] at hseen
    · rintro name ⟨e, p, r, he, hp, hr, -, -, -, hread⟩
      rw [if_pos (hc.2 name (by rw [he]; rfl))] at hread
      rw [← h name, hp] at hr
      exact hread (by rw [Option.some.inj hr])

/-- Without failures of a probe or a query, all events are true. -/
theorem along_cycleOk_of_undisturbed {cycles : List Cycle} (h : ∀ c ∈ cycles, c.Undisturbed) :
    Along (step silentFirst) (CycleOk silentFirst) {} cycles := by
  refine Along.of_invariant (I := Exact) (P := fun _ c => c.Undisturbed) (fun s c t hs hc hst => ?_)
    (fun s c hs hc => cycleOk_of_exact hs hc) (fun _ => rfl) (along_of_forall_mem h _)
  rw [← Option.some.inj hst]
  exact exact_cycle hs hc silentFirst

/-! ### A failed size probe -/

/-- A text without characters beyond the first 65536. -/
def wide (text : String) : WideStr := some (text.toList.map Char.toNat)

/-- The one service of the machine, which runs throughout. -/
def spooler : EnumServiceStatus where
  serviceName := wide "Spooler"
  displayName := wide "Print Spooler"
  currentState := 4

/-- A turn in which the probe leaves the given size, and no other call fails. -/
def spoolerCycle (bytesNeeded : ℕ) : Cycle where
  scm := {
    services := [spooler]
    config := fun _ => {
      binaryPathName := wide "C:\\Windows\\System32\\spoolsv.exe"
      startType := 2
      serviceType := 272
      serviceStartName := wide "LocalSystem" } }
  calls := {
    openScManager := true
    bytesNeeded := bytesNeeded
    fill := fun _ _ => .filled
    openService := fun _ => true
    configBytes := fun _ => 200
    queryServiceConfig := fun _ => true }
  env := {
    nowIso8601 := fun _ => "2026-01-01T00:00:00.000Z"
    trySubmit := fun _ => true }

/-- One failed probe, and the service is deleted and created again. -/
theorem failed_probe_deletes_and_creates :
    (∃ s, run (step true) {} [spoolerCycle 112] = some s ∧
      ∃ e ∈ s.events true (spoolerCycle 0), e.eventType = etServiceDelete ∧
        ¬TrueEvent s.seen (s.seenAt (spoolerCycle 0)) e) ∧
    ∃ s, run (step true) {} [spoolerCycle 112, spoolerCycle 0] = some s ∧
      ∃ e ∈ s.events true (spoolerCycle 112), e.eventType = etServiceCreate ∧
        ¬TrueEvent s.seen (s.seenAt (spoolerCycle 112)) e := by
  let s₁ : Services := Services.cycle true {} (spoolerCycle 112)
  let s₂ : Services := s₁.cycle true (spoolerCycle 0)
  have hdelete : (s₁.events true (spoolerCycle 0)).head?.map
      (fun e => (e.eventType, e.payload.get "name"))
        = some (etServiceDelete, some (.string "Spooler")) := by decide +kernel
  have hcreate : (s₂.events true (spoolerCycle 112)).head?.map
      (fun e => (e.eventType, e.payload.get "name"))
        = some (etServiceCreate, some (.string "Spooler")) := by decide +kernel
  refine ⟨⟨s₁, rfl, ?_⟩, s₂, rfl, ?_⟩
  · obtain ⟨e, he, hkey⟩ := Option.map_eq_some_iff.mp hdelete
    obtain ⟨htype, hname⟩ := Prod.mk.inj hkey
    refine ⟨e, List.mem_of_head? he, htype, ?_⟩
    rintro ⟨name, hget, htrue⟩
    obtain rfl : "Spooler" = name := by simpa [hname] using hget
    -- it is still there
    exact absurd (htrue.delete htype).2 (by decide +kernel)
  · obtain ⟨e, he, hkey⟩ := Option.map_eq_some_iff.mp hcreate
    obtain ⟨htype, hname⟩ := Prod.mk.inj hkey
    refine ⟨e, List.mem_of_head? he, htype, ?_⟩
    rintro ⟨name, hget, htrue⟩
    obtain rfl : "Spooler" = name := by simpa [hname] using hget
    -- it was there all the time
    exact absurd (htrue.create htype).1 (by decide +kernel)

end Services

end Polling

end WazabiAgent
