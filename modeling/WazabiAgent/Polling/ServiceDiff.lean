import Mathlib.Data.List.Count
import WazabiAgent.Polling.ServiceEvents

/-!
# The service diff

`compute_diff` goes through the services of the new snapshot, and then through those that only the
old one has. Snapshots that are equal are passed over; for the others the transition is decided by
one field, and the modification by the five remaining ones, which are compared one by one.

The order of the entries is that of the maps. So a list of entries is described by how often each
entry is in it.

## Main definitions

* `Change`, `Change.occurs` — what can become of a service, by what the two snapshots have of it
* `Change.entry` — how it is listed

## Main results

* `diffAt_eq` — the entries of one service
* `computeDiff_exact` — every change is listed once, and nothing else
-/

namespace WazabiAgent

namespace Polling

/-! ### Changes -/

/-- What can become of a service between two snapshots. -/
inductive Change
  | create
  | delete
  | start
  | stop
  | modify
  deriving DecidableEq

namespace Change

/-- Every change, in the order in which one service's are told. -/
def all : List Change := [.create, .delete, .start, .stop, .modify]

theorem count_all (c : Change) : all.count c = 1 := by
  cases c <;> decide

/-- Whether it has, by what the old and the new snapshot have of the service. -/
def occurs : Change → Option ServiceSnapshot → Option ServiceSnapshot → Bool
  | .create, none, some _ => true
  | .delete, some _, none => true
  | .start, some old, some new => !old.running && new.running
  | .stop, some old, some new => old.running && !new.running
  | .modify, some old, some new =>
    old.binaryPath ≠ new.binaryPath ∨ old.startType ≠ new.startType ∨
      old.serviceType ≠ new.serviceType ∨ old.account ≠ new.account ∨
      old.displayName ≠ new.displayName
  | _, _, _ => false

/-- The same change seen from the other side. -/
def swap : Change → Change
  | .create => .delete
  | .delete => .create
  | .start => .stop
  | .stop => .start
  | .modify => .modify

/-- The type of its event. -/
def eventType : Change → String
  | .create => etServiceCreate
  | .delete => etServiceDelete
  | .start => etServiceStart
  | .stop => etServiceStop
  | .modify => etServiceModify

/-- The kind of its event. -/
def kind : Change → String
  | .create => "ServiceCreate"
  | .delete => "ServiceDelete"
  | .start => "ServiceStart"
  | .stop => "ServiceStop"
  | .modify => "ServiceModify"

/-- How it is listed. -/
def entry (name : String) (c : Change) : DiffEntry where
  eventType := c.eventType
  kind := c.kind
  name := name

theorem kind_injective : Function.Injective kind := by
  intro c c' h
  cases c <;> cases c' <;> first | rfl | exact absurd h (by decide)

theorem entry_injective (name : String) : Function.Injective (entry name) := by
  intro c c' h
  have hkind : (entry name c).kind = (entry name c').kind := by rw [h]
  exact kind_injective hkind

theorem occurs_modify_iff {old new : ServiceSnapshot} :
    modify.occurs (some old) (some new) = true ↔ old.settings ≠ new.settings := by
  rw [occurs, decide_eq_true_eq, settings_ne_iff]

theorem occurs_modify_comm (old new : ServiceSnapshot) :
    modify.occurs (some new) (some old) = modify.occurs (some old) (some new) := by
  rw [Bool.eq_iff_iff, occurs_modify_iff, occurs_modify_iff]
  exact ne_comm

theorem occurs_swap (c : Change) (old new : Option ServiceSnapshot) :
    c.swap.occurs new old = c.occurs old new := by
  cases old with
  | none => cases c <;> cases new <;> rfl
  | some old =>
    cases new with
    | none => cases c <;> rfl
    | some new =>
      cases c with
      | modify => exact occurs_modify_comm old new
      | create | delete => rfl
      | start | stop => exact Bool.and_comm _ _

theorem occurs_self (c : Change) (s : Option ServiceSnapshot) : c.occurs s s = false := by
  cases c <;> cases s <;> simp [occurs]

/-- The six fields are all that a snapshot has. -/
theorem eq_of_not_occurs {old new : ServiceSnapshot}
    (h : ∀ c : Change, c.occurs (some old) (some new) = false) : old = new := by
  have hsettings : old.settings = new.settings := by
    by_contra hne
    have := occurs_modify_iff.mpr hne
    rw [h] at this
    exact Bool.false_ne_true this
  have hrunning : old.running = new.running := by
    have hstart : (!old.running && new.running) = false := h .start
    have hstop : (old.running && !new.running) = false := h .stop
    cases hold : old.running <;> cases hnew : new.running <;> simp_all
  obtain ⟨hname, hconfig⟩ := settings_eq_iff.mp hsettings
  cases old
  cases new
  simp only at hname hconfig hrunning
  subst hname hconfig hrunning
  rfl

/-- Whatever is not the same has changed. -/
theorem exists_occurs_of_ne {old new : Option ServiceSnapshot} (h : old ≠ new) :
    ∃ c : Change, c.occurs old new = true := by
  cases old with
  | none =>
    cases new with
    | none => exact absurd rfl h
    | some new => exact ⟨.create, rfl⟩
  | some old =>
    cases new with
    | none => exact ⟨.delete, rfl⟩
    | some new =>
      by_contra hnone
      have heq : old = new := eq_of_not_occurs fun c => by
        by_contra hc
        exact hnone ⟨c, Bool.of_not_eq_false hc⟩
      exact h (congrArg some heq)

end Change

/-! ### The entries of one service -/

open Change

/-- What becomes of a service, in the order of the list. -/
def changesOf (old new : Option ServiceSnapshot) : List Change :=
  Change.all.filter fun c => c.occurs old new

theorem count_changesOf (c : Change) (old new : Option ServiceSnapshot) :
    (changesOf old new).count c = if c.occurs old new = true then 1 else 0 := by
  rw [changesOf]
  by_cases h : c.occurs old new = true
  · have hcount := List.count_filter (p := fun c : Change => c.occurs old new) (l := all) h
    rw [hcount, count_all, if_pos h]
  · rw [if_neg h, List.count_eq_zero]
    intro hmem
    exact h (List.mem_filter.mp hmem).2

/-- What is told of a service that is gone. -/
def onGone (name : String) (_ : ServiceSnapshot) : List DiffEntry :=
  [⟨etServiceDelete, "ServiceDelete", name⟩]

theorem changesOf_self (s : Option ServiceSnapshot) : changesOf s s = [] :=
  List.filter_eq_nil_iff.mpr fun c _ => Bool.eq_false_iff.mp (occurs_self c s)

theorem changesOf_some (old new : ServiceSnapshot) : changesOf (some old) (some new)
    = (if old.running ≠ new.running then [if new.running then start else stop] else []) ++
      if modify.occurs (some old) (some new) then [modify] else [] := by
  have hcreate : create.occurs (some old) (some new) = false := rfl
  have hdelete : delete.occurs (some old) (some new) = false := rfl
  have hstart : start.occurs (some old) (some new) = (!old.running && new.running) := rfl
  have hstop : stop.occurs (some old) (some new) = (old.running && !new.running) := rfl
  rw [changesOf, all]
  simp only [List.filter_cons, List.filter_nil, hcreate, hdelete, hstart, hstop]
  cases old.running <;> cases new.running <;> rfl

/-- Snapshots that are equal are passed over, which changes nothing. -/
theorem entriesOf_some (name : String) (old new : ServiceSnapshot) :
    entriesOf name (some old) new = (changesOf (some old) (some new)).map (entry name) := by
  by_cases heq : old = new
  · rw [entriesOf, if_pos heq, heq, changesOf_self]
    rfl
  · rw [entriesOf, if_neg heq, changesOf_some, List.map_append]
    refine congrArg₂ _ ?_ ?_
    · cases old.running <;> cases new.running <;> rfl
    · simp only [occurs, decide_eq_true_eq]
      split_ifs <;> rfl

/-- The comparison lists the changes of a service. -/
theorem diffAt_eq (name : String) (old new : Option ServiceSnapshot) :
    KeyedMap.diffAt entriesOf onGone name old new = (changesOf old new).map (entry name) := by
  cases new with
  | some new =>
    cases old with
    | none => rfl
    | some old => exact entriesOf_some name old new
  | none =>
    cases old with
    | none => rfl
    | some old => rfl

/-! ### The whole list -/

/-- What is in the list is there for the service that it names. -/
theorem count_computeDiff (prev next : Snapshots) (d : DiffEntry) :
    (computeDiff prev next).count d
      = ((changesOf (prev.lookup d.name) (next.lookup d.name)).map (entry d.name)).count d := by
  have hnext (name : String) (old : Option ServiceSnapshot) (new : ServiceSnapshot) :
      ∀ d ∈ entriesOf name old new, d.name = name := name_of_mem_entriesOf
  have hgone (name : String) (old : ServiceSnapshot) : ∀ d ∈ onGone name old, d.name = name := by
    simp [onGone]
  rw [← diffAt_eq]
  exact KeyedMap.count_diffWith hnext hgone d

theorem count_entry_computeDiff (prev next : Snapshots) (c : Change) (name : String) :
    (computeDiff prev next).count (entry name c)
      = if c.occurs (prev.lookup name) (next.lookup name) = true then 1 else 0 := by
  rw [count_computeDiff, ← count_changesOf]
  exact List.count_map_of_injective _ _ (entry_injective name) c

theorem exists_entry_of_mem {prev next : Snapshots} {d : DiffEntry}
    (h : d ∈ computeDiff prev next) : ∃ c name, d = entry name c := by
  have hcount := List.count_pos_iff.mpr h
  rw [count_computeDiff, List.count_pos_iff] at hcount
  obtain ⟨c, -, hc⟩ := List.mem_map.mp hcount
  exact ⟨c, d.name, hc.symm⟩

/-- The list is empty if no service has changed. -/
theorem computeDiff_eq_nil_iff (prev next : Snapshots) :
    computeDiff prev next = [] ↔ ∀ name, prev.lookup name = next.lookup name := by
  constructor
  · intro h name
    by_contra hne
    obtain ⟨c, hc⟩ := exists_occurs_of_ne hne
    have hcount := count_entry_computeDiff prev next c name
    rw [h, hc] at hcount
    exact absurd hcount (by simp)
  · intro h
    refine List.eq_nil_iff_forall_not_mem.mpr fun d hd => ?_
    obtain ⟨c, name, rfl⟩ := exists_entry_of_mem hd
    have hcount := count_entry_computeDiff prev next c name
    rw [h, occurs_self] at hcount
    exact List.count_eq_zero.mp hcount hd

/-- **The service diff is exact.** Every change is listed once, and nothing else is listed; so the
list is empty if the snapshots are equal, and in the list of the exchanged snapshots every change is
seen from the other side. -/
theorem computeDiff_exact (prev next : Snapshots) :
    (∀ c name, (computeDiff prev next).count (entry name c)
      = if c.occurs (prev.lookup name) (next.lookup name) = true then 1 else 0) ∧
    (∀ d ∈ computeDiff prev next, ∃ c name, d = entry name c) ∧
    (computeDiff prev next = [] ↔ ∀ name, prev.lookup name = next.lookup name) ∧
    ∀ c name, (computeDiff next prev).count (entry name c.swap)
      = (computeDiff prev next).count (entry name c) := by
  refine ⟨count_entry_computeDiff prev next, fun d => exists_entry_of_mem,
    computeDiff_eq_nil_iff prev next, fun c name => ?_⟩
  rw [count_entry_computeDiff, count_entry_computeDiff, occurs_swap]

end Polling

end WazabiAgent
