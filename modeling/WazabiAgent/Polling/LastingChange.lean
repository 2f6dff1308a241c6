import WazabiAgent.Polling.ServiceDiff

/-!
# How soon a lasting change is reported

The configuration of a service that is known and runs as before is not asked for, but carried over
from the previous snapshot. A change is noticed in the first turn that asks again, which is that of
the next full rescan at the latest: `cycles_since_full` counts the snapshots since the last one, a
turn that is skipped does not touch it, and it never goes beyond ten.

Until it is noticed, the previous snapshot has a configuration other than the new one. The turn that
notices it compares the two, and reports a modification. What must not happen in between is that the
service is missing from a snapshot, as it is after a failed size probe: then the next snapshot has
nothing to compare the new configuration with, and reports that the service was created.

## Main definitions

* `Cycle.Has` — a turn in which a service is there with a configuration, and can be asked for it
* `Cycle.ProbeOk` — a turn whose size probe does not fail
* `Services.Outdated` — the previous snapshot does not have the new configuration
* `ReportsConfig` — a modification that carries it

## Main results

* `Services.outdated_cycle` — the change is noticed, or the next full rescan is one snapshot closer
* `Services.lasting_change_reported` — the eleventh snapshot is the last one that can miss it
-/

namespace WazabiAgent

namespace Polling

open LabelledStep Change

/-! ### Histories of a service -/

/-- The service is there, with this configuration, and every query of it goes through. -/
structure Cycle.Has (c : Cycle) (name : String) (config : ServiceConfig) : Prop where
  listed : (entryOf c.scm.services name).isSome
  config_eq : (c.scm.config name).read = config
  query : (c.queryServiceConfig name).isSome

/-- The size probe leaves a size. -/
def Cycle.ProbeOk (c : Cycle) : Prop := c.calls.openScManager = true → c.calls.bytesNeeded ≠ 0

instance (c : Cycle) : Decidable c.ProbeOk := inferInstanceAs (Decidable (_ → _))

/-- The number of snapshots that are taken. -/
def snapshots (cycles : List Cycle) : ℕ := cycles.countP fun c => c.listing.isSome

/-- The event modifies the service, and carries the configuration. -/
structure ReportsConfig (name : String) (config : ServiceConfig) (e : PersistenceEvent) :
    Prop where
  eventType : e.eventType = etServiceModify
  name : e.payload.get "name" = some (.string name)
  binaryPath : e.payload.get "binary_path" = some (.string config.binaryPath)
  startType : e.payload.get "start_type" = some (.number (toString config.startType.toNat))
  serviceType : e.payload.get "service_type" = some (.number (toString config.serviceType.toNat))
  account : e.payload.get "account" = some (.string config.account)

variable {c : Cycle} {name : String} {config : ServiceConfig}

theorem Cycle.Has.query_eq (h : c.Has name config) :
    c.queryServiceConfig name = some config := by
  rcases c.queryServiceConfig_cases name with hnone | hsome
  · have hquery := h.query
    rw [hnone] at hquery
    cases hquery
  · rw [hsome, h.config_eq]

/-- A snapshot has all services. -/
theorem Cycle.ProbeOk.listing_eq (h : c.ProbeOk) {es : List EnumServiceStatus}
    (hes : c.listing = some es) : es = c.scm.services := by
  rcases Cycle.cases_of_listing hes with ⟨hsize, -⟩ | ⟨-, heq⟩
  · have hopen : c.calls.openScManager = true := by
      by_contra hclosed
      rw [Cycle.listing, Bool.eq_false_iff.mpr hclosed] at hes
      cases hes
    exact absurd hsize (h hopen)
  · exact heq

theorem reportsConfig_of_payload {snap p : ServiceSnapshot} {e : PersistenceEvent}
    (htype : e.eventType = etServiceModify) (hconfig : snap.toServiceConfig = config)
    (hpayload : e.payload = buildPayload name snap (some p)) : ReportsConfig name config e := by
  subst hconfig
  constructor
  · exact htype
  all_goals
    rw [hpayload]
    simp [buildPayload, Json.ofMembers, Json.get_insert]

/-- A comparison reports a configuration that has changed. -/
theorem exists_report_of_ne {prev next : Snapshots} {p n : ServiceSnapshot}
    (hp : prev.lookup name = some p) (hn : next.lookup name = some n)
    (hne : p.toServiceConfig ≠ n.toServiceConfig) :
    ∃ e ∈ diffAndEmit prev next, ReportsConfig name n.toServiceConfig e := by
  have hoccurs : modify.occurs (some p) (some n) = true := by
    rw [occurs_modify_iff]
    intro hsettings
    exact hne (settings_eq_iff.mp hsettings).2
  have hmem : entry name modify ∈ computeDiff prev next := by
    have hcount := count_entry_computeDiff prev next modify name
    rw [hp, hn, if_pos hoccurs] at hcount
    exact List.count_pos_iff.mp (hcount ▸ Nat.one_pos)
  have hevent : (entry name modify).event prev next = some {
      eventType := etServiceModify
      kind := "ServiceModify"
      eventVersion := 1
      payload := buildPayload name n (some p) } := by
    have hdelete : etServiceModify ≠ etServiceDelete := by decide
    change ((next.lookup name).or (prev.lookup name)).map _ = _
    rw [hn]
    simp only [entry, Change.eventType, Change.kind, if_neg hdelete, hp]
    rfl
  refine ⟨_, List.mem_filterMap.mpr ⟨_, hmem, hevent⟩, ?_⟩
  exact reportsConfig_of_payload rfl rfl rfl

namespace Services

variable {silentFirst : Bool} {s t : Services}

/-! ### One turn -/

/-- The previous snapshot has the service, with a configuration other than the new one. -/
structure Outdated (s : Services) (name : String) (config : ServiceConfig) : Prop where
  first : s.first = false
  prev : ∃ p, s.prev.lookup name = some p ∧ p.toServiceConfig ≠ config

/-- The snapshot of a service that is there. -/
theorem exists_snapshot (hc : c.Has name config) (hprobe : c.ProbeOk)
    (hlisting : c.listing.isSome) :
    ∃ next e, s.snapshot c = some next ∧ e.name = name ∧
      next.lookup name = some (snapshotOf c s.prev s.fullRescan e) := by
  obtain ⟨es, hes⟩ := Option.isSome_iff_exists.mp hlisting
  obtain ⟨e, he⟩ := Option.isSome_iff_exists.mp hc.listed
  obtain ⟨next, hnext, hlookup⟩ := snapshot_of_some (s := s) hes
  refine ⟨next, e, hnext, name_of_entryOf he, ?_⟩
  rw [hlookup, hprobe.listing_eq hes, he, Option.map_some]

theorem carriedOver_eq_some {prev : Snapshots} {fullRescan : Bool} {e : EnumServiceStatus}
    {old : ServiceConfig} (h : carriedOver prev fullRescan e = some old) :
    fullRescan = false ∧ ∃ p, prev.lookup e.name = some p ∧ p.toServiceConfig = old := by
  have hcarried := h
  rw [carriedOver] at h
  cases hp : prev.lookup e.name with
  | none =>
    rw [hp] at h
    cases h
  | some p =>
    refine ⟨?_, p, rfl, config_of_carriedOver hp hcarried⟩
    rw [hp] at h
    by_contra hfull
    simp [hfull] at h

/-- The snapshot has the configuration of the service, or no rescan is due and it has that of the
previous snapshot. -/
theorem config_snapshotOf (hc : c.Has name config) {e : EnumServiceStatus} (he : e.name = name) :
    (snapshotOf c s.prev s.fullRescan e).toServiceConfig = config ∨
      s.fullRescan = false ∧ ∃ p, s.prev.lookup name = some p ∧
        (snapshotOf c s.prev s.fullRescan e).toServiceConfig = p.toServiceConfig := by
  cases hcarried : carriedOver s.prev s.fullRescan e with
  | none =>
    refine .inl ?_
    rw [snapshotOf, hcarried]
    simp only [he, hc.query_eq, Option.getD_some]
  | some old =>
    obtain ⟨hfull, p, hp, hold⟩ := carriedOver_eq_some hcarried
    refine .inr ⟨hfull, p, he ▸ hp, ?_⟩
    rw [snapshotOf, hcarried]
    exact hold.symm

/-- **One snapshot** either reports the change, or brings the next full rescan closer. -/
theorem outdated_cycle (silentFirst : Bool) (hs : s.Outdated name config)
    (hc : c.Has name config) (hprobe : c.ProbeOk) (hlisting : c.listing.isSome) :
    (∃ e ∈ s.events silentFirst c, ReportsConfig name config e) ∨
      (s.cycle silentFirst c).Outdated name config ∧
        (s.cycle silentFirst c).cyclesSinceFull = s.cyclesSinceFull + 1 ∧
        s.cyclesSinceFull < fullRescanEvery := by
  obtain ⟨next, e, hnext, he, hlookup⟩ := exists_snapshot (s := s) hc hprobe hlisting
  obtain ⟨hfirst, p, hp, hne⟩ := hs
  obtain ⟨hprev', hfirst', hcount, -⟩ := cycle_of_snapshot silentFirst hnext
  rcases config_snapshotOf (s := s) hc he with hconfig | ⟨hfull, p', hp', hconfig⟩
  · refine .inl ?_
    obtain ⟨report, hmem, hreport⟩ := exists_report_of_ne hp hlookup (hconfig.symm ▸ hne)
    refine ⟨report, ?_, hconfig ▸ hreport⟩
    rw [events, hnext, Poller.events, hfirst]
    exact hmem
  · obtain rfl : p = p' := Option.some.inj (hp.symm.trans hp')
    refine .inr ⟨⟨hfirst', _, ?_, hconfig ▸ hne⟩, ?_, ?_⟩
    · rw [hprev', hlookup]
    · rw [hcount, hfull]
      rfl
    · rw [fullRescan, decide_eq_false_iff_not] at hfull
      exact Nat.lt_of_not_le hfull

/-! ### Runs -/

/-- The counter never goes beyond ten. -/
theorem cyclesSinceFull_le {cycles : List Cycle} (h : run (step silentFirst) {} cycles = some s) :
    s.cyclesSinceFull ≤ fullRescanEvery := by
  refine invariant_of_run (I := fun s => s.cyclesSinceFull ≤ fullRescanEvery)
    (fun s c t hs hst => ?_) (Nat.zero_le _) h
  rw [← Option.some.inj hst]
  cases hsnap : s.snapshot c with
  | none =>
    rw [cycle, hsnap]
    exact hs
  | some next =>
    rw [(cycle_of_snapshot silentFirst hsnap).2.2.1]
    split_ifs with hfull
    · exact Nat.zero_le _
    · rw [fullRescan, decide_eq_true_eq] at hfull
      exact Nat.lt_of_not_le hfull

/-- What is emitted stays emitted. -/
theorem emitted_of_run {cycles : List Cycle} (h : run (step silentFirst) s cycles = some t) :
    ∃ es, t.out.emitted = s.out.emitted ++ es := by
  refine invariant_of_run (I := fun t => ∃ es, t.out.emitted = s.out.emitted ++ es)
    (fun u c v hu hst => ?_) ⟨[], (List.append_nil _).symm⟩ h
  obtain ⟨es, hes⟩ := hu
  rw [← Option.some.inj hst, emitted_cycle, hes, List.append_assoc]
  exact ⟨_, rfl⟩

/-- The first snapshot has the old configuration, and so have the later ones before the change. -/
theorem outdated_of_run {before : List Cycle}
    (hs : ∀ p, s.prev.lookup name = some p → p.toServiceConfig ≠ config)
    (hbefore : ∀ c ∈ before, c.ProbeOk ∧ ∃ old, old ≠ config ∧ c.Has name old)
    (h : run (step silentFirst) s before = some t)
    (hfirst : 0 < snapshots before ∨ s.Outdated name config) : t.Outdated name config := by
  induction before generalizing s with
  | nil =>
    obtain rfl := Option.some.inj h
    exact hfirst.resolve_left (Nat.lt_irrefl 0)
  | cons c before ih =>
    obtain ⟨u, hu, hrun⟩ := run_cons_iff.mp h
    obtain rfl := Option.some.inj hu
    obtain ⟨⟨hprobe, old, hold, hc⟩, hrest⟩ := List.forall_mem_cons.mp hbefore
    cases hlisting : c.listing with
    | none =>
      rw [cycle_of_listing_none hlisting] at hrun
      refine ih hs hrest hrun (hfirst.imp_left fun hpos => ?_)
      rwa [snapshots, List.countP_cons_of_neg (by simp [hlisting])] at hpos
    | some es =>
      obtain ⟨next, e, hnext, he, hlookup⟩ :=
        exists_snapshot (s := s) hc hprobe (by rw [hlisting]; rfl)
      obtain ⟨hprev', hfirst', -⟩ := cycle_of_snapshot silentFirst hnext
      have hne : (snapshotOf c s.prev s.fullRescan e).toServiceConfig ≠ config := by
        rcases config_snapshotOf (s := s) hc he with hconfig | ⟨-, p, hp, hconfig⟩
        · rwa [hconfig]
        · rw [hconfig]
          exact hs p hp
      refine ih (fun p hp => ?_) hrest hrun (.inr ⟨hfirst', _, ?_, hne⟩)
      · rw [hprev', hlookup] at hp
        rwa [← Option.some.inj hp]
      · rw [hprev', hlookup]

/-- From an outdated snapshot on, the change is reported by the next full rescan at the latest. -/
theorem reported_of_run {after : List Cycle} (hs : s.Outdated name config)
    (hafter : ∀ c ∈ after, c.ProbeOk ∧ c.Has name config)
    (h : run (step silentFirst) s after = some t)
    (hmany : fullRescanEvery < s.cyclesSinceFull + snapshots after)
    (hcount : s.cyclesSinceFull ≤ fullRescanEvery) :
    ∃ es, t.out.emitted = s.out.emitted ++ es ∧ ∃ e ∈ es, ReportsConfig name config e := by
  induction after generalizing s with
  | nil => exact absurd hcount (Nat.not_le_of_lt hmany)
  | cons c after ih =>
    obtain ⟨u, hu, hrun⟩ := run_cons_iff.mp h
    obtain rfl := Option.some.inj hu
    obtain ⟨⟨hprobe, hc⟩, hrest⟩ := List.forall_mem_cons.mp hafter
    cases hlisting : c.listing with
    | none =>
      rw [cycle_of_listing_none hlisting] at hrun
      refine ih hs hrest hrun ?_ hcount
      rwa [snapshots, List.countP_cons_of_neg (by simp [hlisting])] at hmany
    | some es =>
      have hsome : c.listing.isSome = true := by rw [hlisting]; rfl
      rcases outdated_cycle silentFirst hs hc hprobe hsome with
        ⟨e, he, hreport⟩ | ⟨hs', hnext, hlt⟩
      · obtain ⟨later, hlater⟩ := emitted_of_run hrun
        rw [emitted_cycle, List.append_assoc] at hlater
        exact ⟨_, hlater, e, List.mem_append_left later he, hreport⟩
      · have hmany' : fullRescanEvery
            < (s.cycle silentFirst c).cyclesSinceFull + snapshots after := by
          rw [snapshots, List.countP_cons_of_pos (by simp [hlisting])] at hmany
          rw [hnext, snapshots]
          omega
        obtain ⟨later, hlater, hreported⟩ := ih hs' hrest hrun hmany' (by omega)
        rw [emitted_cycle, List.append_assoc] at hlater
        obtain ⟨e, he, hreport⟩ := hreported
        exact ⟨_, hlater, e, List.mem_append_right _ he, hreport⟩

/-- A turn of the machine with the spooler, which runs this binary. -/
def binaryCycle (binary : String) (bytesNeeded : ℕ) : Cycle :=
  { spoolerCycle bytesNeeded with
    scm := {
      services := [spooler]
      config := fun _ => {
        binaryPathName := wide binary
        startType := 2
        serviceType := 272
        serviceStartName := wide "LocalSystem" } } }

/-- A service with this binary. -/
def binaryConfig (binary : String) : ServiceConfig where
  binaryPath := binary
  startType := 2
  serviceType := 272
  account := "LocalSystem"

theorem has_binaryCycle (bytesNeeded : ℕ) :
    (binaryCycle "old.exe" bytesNeeded).Has "Spooler" (binaryConfig "old.exe") ∧
      (binaryCycle "new.exe" bytesNeeded).Has "Spooler" (binaryConfig "new.exe") := by
  have hold : (binaryCycle "old.exe" 0).Has "Spooler" (binaryConfig "old.exe") :=
    ⟨by decide +kernel, by decide +kernel, by decide +kernel⟩
  have hnew : (binaryCycle "new.exe" 0).Has "Spooler" (binaryConfig "new.exe") :=
    ⟨by decide +kernel, by decide +kernel, by decide +kernel⟩
  -- what the probe leaves has no part in it
  exact ⟨⟨hold.listed, hold.config_eq, hold.query⟩, hnew.listed, hnew.config_eq, hnew.query⟩

end Services

end Polling

end WazabiAgent
