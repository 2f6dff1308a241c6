import WazabiAgent.Lib.Turns
import WazabiAgent.Plugin.EnrollOnce

/-!
# One thread for a package

`process_pending_plugins` downloads, enrols and reports for every action it is given, which takes
minutes. `IN_FLIGHT` is there for the case that it is called again meanwhile: it takes the packages
that nobody else is at, in one critical section, and an `InFlightGuard` gives them back when the
call ends, be it by a panic (`plugin/assignment.rs`).

Here any number of threads call it, and the operations of their handlers interleave. A worker is
the list of the actions it has taken, each with what is left of its handler.

## Main definitions

* `InFlight.State.step` — calls, single operations, and the end of the guard
* `InFlight.Exclusive` — what is to be shown of a run

## Main results

* `InFlight.all_processAction` — a handler names no package but its own
* `InFlight.exclusive_of_run` — the packages are worked at in turns
* `InFlight.run_alone` — a single caller does what `process_pending_plugins` does
-/

namespace WazabiAgent

namespace Plugin

namespace InFlight

open Prog LabelledStep Turns

variable {host : PluginHost}

/-! ### The workers -/

/-- A call in progress. -/
structure Worker where
  /-- What the `InFlightGuard` will give back. -/
  ids : List String
  /-- The packages still to be processed, the first of which is under way. -/
  todo : List (String × Prog PluginOp Unit)

/-- The machine, the actions that are worked on, and the calls that run. -/
structure State where
  machine : Machine
  /-- `IN_FLIGHT`. -/
  inFlight : List String
  workers : ℕ → Option Worker

/-- What happens next. -/
inductive Label
  /-- The thread `i` calls `process_pending_plugins`. -/
  | call (i : ℕ) (actions : List PendingPluginAction)
  | op (i : ℕ) (c : Choice)
  /-- The call returns or panics, and drops its guard. -/
  | leave (i : ℕ)

/-- What is finished goes. -/
def settle : List (String × Prog PluginOp Unit) → List (String × Prog PluginOp Unit)
  | [] => []
  | (_, .pure _) :: todo => settle todo
  | (p, .op o k) :: todo => (p, .op o k) :: todo

/-- The packages that the actions are about. -/
def packagesOf (actions : List PendingPluginAction) : List String :=
  actions.map PendingPluginAction.pluginPackageId

/-- The programs of some actions. -/
def programs (host : PluginHost) (actions : List PendingPluginAction) :
    List (String × Prog PluginOp Unit) :=
  actions.map fun a => (a.pluginPackageId, processAction host a)

/-- The critical section at the beginning, and the guard. -/
def State.enter (host : PluginHost) (s : State) (i : ℕ) (taken : List PendingPluginAction) :
    State :=
  if taken = [] then s
  else { s with
    inFlight := packagesOf taken ++ s.inFlight
    workers := Function.update s.workers i
      (some ⟨packagesOf taken, settle (programs host taken)⟩) }

/-- One step of a call. -/
def State.step (host : PluginHost) (s : State) : Label → Option State
  | .call i actions =>
    match s.workers i with
    | none => some (s.enter host i (toProcess s.inFlight actions))
    | some _ => none
  | .op i c =>
    match s.workers i with
    | some ⟨ids, (p, .op o k) :: todo⟩ =>
      let r := perform host o s.machine c
      some { s with
        machine := r.2
        workers := Function.update s.workers i (some ⟨ids, settle ((p, k r.1) :: todo)⟩) }
    | _ => none
  | .leave i =>
    match s.workers i with
    | some w => some { s with
        inFlight := s.inFlight.filter (· ∉ w.ids)
        workers := Function.update s.workers i none }
    | none => none

/-- Nothing is worked on. -/
def State.start (m : Machine) : State := ⟨m, [], fun _ => none⟩

/-! ### What is to be shown -/

/-- The package that an operation names. -/
def package? {β : Type} : PluginOp β → Option String
  | .reportPluginStatus p _ | .getPluginInfo p | .downloadPluginBinary p _
  | .downloadPluginExtra p _ _ | .invokeWedrPlugin p _ => some p
  | _ => none

/-- The operation names no package but `p`. -/
def About (p : String) {β : Type} (o : PluginOp β) : Prop := ∀ q ∈ package? o, q = p

/-- Who takes, works at and gives back which package. An operation that names no package counts
for the one that is being processed. -/
def emits (s : State) : Label → List (Turns.Event ℕ String)
  | .call i actions =>
    match s.workers i with
    | none => (packagesOf (toProcess s.inFlight actions)).map (.begin i)
    | some _ => []
  | .op i _ =>
    match s.workers i with
    | some ⟨_, (p, .op o _) :: _⟩ => [.act i ((package? o).getD p)]
    | _ => []
  | .leave i =>
    match s.workers i with
    | some w => w.ids.map (.finish i)
    | none => []

/-- A worker processes packages it has taken, each once, and names no other. -/
structure Worker.Own (w : Worker) : Prop where
  ids : w.ids.Nodup
  todo : (w.todo.map Prod.fst).Sublist w.ids
  about : ∀ e ∈ w.todo, e.2.All (About e.1)

/-- **Mutual exclusion.** The packages are worked at in turns; whoever has a package is the one
worker that has taken it; and `IN_FLIGHT` holds exactly those that somebody has. -/
structure Exclusive (s : State) (log : List (Turns.Event ℕ String)) (holder : String → Option ℕ) :
    Prop where
  orderly : Orderly log holder
  holds : ∀ p i, holder p = some i ↔ ∃ w, s.workers i = some w ∧ p ∈ w.ids
  inFlight : ∀ p, p ∈ s.inFlight ↔ (holder p).isSome = true
  own : ∀ i w, s.workers i = some w → w.Own

/-! ### The programs -/

theorem about_of_none {p : String} {β : Type} {o : PluginOp β} (h : package? o = none) :
    About p o := by
  intro q hq
  rw [h] at hq
  cases hq

theorem about_self {p : String} {β : Type} {o : PluginOp β} (h : package? o = some p) :
    About p o := by
  intro q hq
  rw [h] at hq
  exact (Option.mem_some_iff.mp hq).symm

theorem all_report (p phase version : String) (pluginIdLocal error : Option String) :
    (report p phase version pluginIdLocal error).All (About p) := All.call (about_self rfl)

theorem all_requireInfo (p missing : String) : (requireInfo p missing).All (About p) :=
  All.andThen (All.mapError (All.call (about_self rfl))) fun info => by cases info <;> trivial

theorem all_verifySha (p path expectedHex : String) :
    (verifySha host path expectedHex).All (About p) := by
  rw [verifySha]
  split_ifs
  · trivial
  · refine All.andThen (All.call (about_of_none rfl)) fun actual => ?_
    split_ifs
    · trivial
    · exact (All.call (about_of_none rfl)).bind fun _ => trivial

theorem all_replaceFile (p dir filename : String) :
    (replaceFile host dir filename).All (About p) := by
  refine (All.call (about_of_none rfl)).bind fun present => All.andThen ?_ fun _ => ?_
  · cases present with
    | true => exact All.mapError (All.call (about_of_none rfl))
    | false => trivial
  · refine (All.call (about_of_none rfl)).bind fun r => ?_
    cases r with
    | ok u => trivial
    | error e => exact (All.call (about_of_none rfl)).bind fun _ => trivial

theorem all_downloadAndVerify (p dir filename : String) (isPrimary : Bool) :
    (downloadAndVerify host p dir filename isPrimary).All (About p) := by
  rw [downloadAndVerify]
  split
  · trivial
  · refine All.andThen ?_ fun sha =>
      All.andThen (all_verifySha p _ _) fun _ => all_replaceFile p _ _
    rw [downloadFile]
    split_ifs <;> exact All.mapError (All.call (about_self rfl))

theorem all_downloadExtras (p dir : String) (extras : List PluginExtraInfo) :
    (downloadExtras host p dir extras).All (About p) := by
  induction extras with
  | nil => trivial
  | cons extra extras ih => exact All.andThen (all_downloadAndVerify _ _ _ _) fun _ => ih

theorem all_downloadAll (p : String) (info : PluginInfoForAgent) :
    (downloadAll host p info).All (About p) := by
  rw [downloadAll]
  split
  · trivial
  · exact All.andThen (all_downloadAndVerify _ _ _ _) fun _ =>
      All.andThen (all_downloadExtras _ _ _) fun _ => trivial

theorem all_handleInstall (action : PendingPluginAction) :
    (handleInstall host action).All (About action.pluginPackageId) := by
  refine All.andThen (all_report _ _ _ _ _) fun _ => All.andThen (all_requireInfo _ _) fun info =>
    All.andThen (all_downloadAll _ _) fun path => All.andThen (all_report _ _ _ _ _) fun _ =>
      All.andThen ?_ fun id => all_report _ _ _ _ _
  refine All.andThen (All.mapError (All.call (about_self rfl))) fun stdout => ?_
  split <;> trivial

theorem all_handleUpdate (action : PendingPluginAction) :
    (handleUpdate host action).All (About action.pluginPackageId) := by
  unfold handleUpdate
  dsimp only
  split
  · trivial
  · exact All.andThen (all_report _ _ _ _ _) fun _ => All.andThen (all_requireInfo _ _) fun info =>
      All.andThen (all_downloadAll _ _) fun _ =>
        All.andThen (All.mapError (All.call (about_self rfl))) fun _ =>
          (All.call (about_of_none rfl)).bind fun _ => all_report _ _ _ _ _

theorem all_handleRevoke (action : PendingPluginAction) :
    (handleRevoke host action).All (About action.pluginPackageId) := by
  unfold handleRevoke
  dsimp only
  split
  · trivial
  · refine (all_readManifestExpectedPath _ (about_of_none rfl)).bind fun path => ?_
    refine All.andThen (All.mapError (All.call (about_self rfl))) fun _ => ?_
    refine All.andThen (All.mapError (All.call (about_self rfl))) fun _ => ?_
    exact (all_cleanup _ fun _ => about_of_none rfl).bind fun _ => all_report _ _ _ _ _

/-- **A handler names no package but its own.** -/
theorem all_processAction (host : PluginHost) (action : PendingPluginAction) :
    (processAction host action).All (About action.pluginPackageId) := by
  have hhandler : ∀ p ∈ handle host action, p.All (About action.pluginPackageId) := by
    intro p hp
    rw [handle] at hp
    split_ifs at hp
    · exact Option.mem_some_iff.mp hp ▸ all_handleInstall action
    · exact Option.mem_some_iff.mp hp ▸ all_handleUpdate action
    · exact Option.mem_some_iff.mp hp ▸ all_handleRevoke action
    · cases hp
  rw [processAction]
  cases hh : handle host action with
  | none => trivial
  | some handler =>
    refine (hhandler handler hh).bind fun r => ?_
    cases r with
    | ok u => trivial
    | error e => exact (all_report _ _ _ _ _).bind fun _ => trivial

/-! ### The critical section -/

/-- What is taken was not in flight, and is taken once. -/
theorem nodup_toProcess (inFlight : List String) (actions : List PendingPluginAction) :
    (packagesOf (toProcess inFlight actions)).Nodup ∧
      ∀ p ∈ packagesOf (toProcess inFlight actions), p ∉ inFlight := by
  induction actions generalizing inFlight with
  | nil => exact ⟨.nil, by simp [toProcess, packagesOf]⟩
  | cons action actions ih =>
    rw [toProcess]
    split_ifs with hin
    · exact ih inFlight
    · obtain ⟨hnd, hfree⟩ := ih (action.pluginPackageId :: inFlight)
      refine ⟨List.nodup_cons.mpr ⟨fun hmem => hfree _ hmem List.mem_cons_self, hnd⟩, ?_⟩
      intro p hp
      rcases List.mem_cons.mp hp with rfl | hp
      · exact hin
      · exact fun hmem => hfree p hp (List.mem_cons_of_mem _ hmem)

theorem settle_sublist (todo : List (String × Prog PluginOp Unit)) :
    (settle todo).Sublist todo := by
  induction todo with
  | nil => exact .refl _
  | cons e todo ih =>
    obtain ⟨p, prog⟩ := e
    cases prog with
    | pure u => exact ih.cons _
    | op o k => exact .refl _

/-- What is finished is no longer a worker's business. -/
theorem Worker.Own.settle {ids : List String} {todo : List (String × Prog PluginOp Unit)}
    (h : Worker.Own ⟨ids, todo⟩) : Worker.Own ⟨ids, InFlight.settle todo⟩ where
  ids := h.ids
  todo := ((settle_sublist todo).map _).trans h.todo
  about := fun e he => h.about e ((settle_sublist todo).subset he)

theorem own_enter {taken : List PendingPluginAction} (hnd : (packagesOf taken).Nodup) :
    Worker.Own ⟨packagesOf taken, settle (programs host taken)⟩ := by
  refine Worker.Own.settle ⟨hnd, ?_, fun e he => ?_⟩
  · simp [programs, packagesOf, Function.comp_def]
  · obtain ⟨a, -, rfl⟩ := List.mem_map.mp he
    exact all_processAction host a

/-! ### The invariant -/

variable {s t : State} {log : List (Turns.Event ℕ String)} {holder : String → Option ℕ} {i : ℕ}

theorem exclusive_start (m : Machine) : Exclusive (.start m) [] fun _ => none where
  orderly := orderly_nil
  holds p i := by simp [State.start]
  inFlight p := by simp [State.start]
  own i w hw := by cases hw

/-- A package that nobody holds is not in flight, and nobody's. -/
theorem Exclusive.free (h : Exclusive s log holder) {p : String} (hp : p ∉ s.inFlight) :
    holder p = none := by
  cases hh : holder p with
  | none => rfl
  | some i => exact absurd ((h.inFlight p).mpr (by rw [hh]; rfl)) hp

theorem own_update {workers : ℕ → Option Worker} {x : Option Worker}
    (h : ∀ j w, workers j = some w → w.Own) (hx : ∀ w ∈ x, w.Own) :
    ∀ j w, Function.update workers i x j = some w → w.Own := by
  intro j w hw
  by_cases hj : j = i
  · rw [hj, Function.update_self] at hw
    exact hx w hw
  · rw [Function.update_of_ne hj] at hw
    exact h j w hw

/-- A call takes what is free. -/
theorem Exclusive.enter (h : Exclusive s log holder) (hi : s.workers i = none)
    {taken : List PendingPluginAction} (hnd : (packagesOf taken).Nodup)
    (hfree : ∀ p ∈ packagesOf taken, p ∉ s.inFlight) :
    Exclusive (s.enter host i taken) (log ++ (packagesOf taken).map (.begin i))
      fun p => if p ∈ packagesOf taken then some i else holder p := by
  rw [State.enter]
  split_ifs with htaken
  · subst htaken
    simpa [packagesOf] using h
  · refine ⟨h.orderly.begins i hnd fun p hp => h.free (hfree p hp), fun p j => ?_, fun p => ?_,
      own_update h.own fun w hw => ?_⟩
    · by_cases hj : j = i
      · subst hj
        by_cases hp : p ∈ packagesOf taken
        · simp [hp]
        · -- the worker had nothing before
          simp [hp, h.holds, hi]
      · by_cases hp : p ∈ packagesOf taken
        · have hnone : ¬ ∃ w, s.workers j = some w ∧ p ∈ w.ids := fun hw => by
            have := (h.holds p j).mpr hw
            rw [h.free (hfree p hp)] at this
            cases this
          simpa [hp, Function.update_of_ne hj, Ne.symm hj] using hnone
        · simp [hp, h.holds, Function.update_of_ne hj]
    · by_cases hp : p ∈ packagesOf taken <;> simp [hp, h.inFlight]
    · exact Option.mem_some_iff.mp hw ▸ own_enter hnd

/-- A worker performs an operation for the package it is at. -/
theorem Exclusive.op (h : Exclusive s log holder) {ids : List String} {p : String} {β : Type}
    {o : PluginOp β} {k : β → Prog PluginOp Unit} {todo : List (String × Prog PluginOp Unit)}
    (hi : s.workers i = some ⟨ids, (p, .op o k) :: todo⟩) (m : Machine) (b : β) :
    Exclusive { s with
        machine := m
        workers := Function.update s.workers i (some ⟨ids, settle ((p, k b) :: todo)⟩) }
      (log ++ [.act i ((package? o).getD p)]) holder := by
  have hown := h.own i _ hi
  have hop : (Prog.op o k).All (About p) := hown.about (p, .op o k) List.mem_cons_self
  have hname : (package? o).getD p = p := by
    cases hq : package? o with
    | none => rfl
    | some q => exact hop.1 q hq
  have hmem : p ∈ ids := hown.todo.subset List.mem_cons_self
  refine ⟨?_, fun q j => ?_, h.inFlight, own_update h.own fun w hw => ?_⟩
  · rw [hname]
    exact h.orderly.act ((h.holds p i).mpr ⟨_, hi, hmem⟩)
  · rw [h.holds]
    by_cases hj : j = i
    · subst hj
      simp [hi]
    · simp [Function.update_of_ne hj]
  · obtain rfl := Option.mem_some_iff.mp hw
    refine Worker.Own.settle ⟨hown.ids, hown.todo, fun e he => ?_⟩
    rcases List.mem_cons.mp he with rfl | he
    · exact hop.2 b
    · exact hown.about e (List.mem_cons_of_mem _ he)

/-- A guard gives back what its worker had. -/
theorem Exclusive.leave (h : Exclusive s log holder) {w : Worker} (hi : s.workers i = some w) :
    Exclusive { s with
        inFlight := s.inFlight.filter (· ∉ w.ids)
        workers := Function.update s.workers i none }
      (log ++ w.ids.map (.finish i)) fun p => if p ∈ w.ids then none else holder p := by
  have hhas : ∀ p ∈ w.ids, holder p = some i := fun p hp => (h.holds p i).mpr ⟨w, hi, hp⟩
  refine ⟨h.orderly.finishes i (h.own i w hi).ids hhas, fun p j => ?_, fun p => ?_,
    own_update h.own nofun⟩
  · by_cases hj : j = i
    · subst hj
      by_cases hp : p ∈ w.ids
      · simp [hp]
      · simp [hp, h.holds, hi]
    · by_cases hp : p ∈ w.ids
      · have hnone : ¬ ∃ v, s.workers j = some v ∧ p ∈ v.ids := fun hv =>
          hj (Option.some.inj (((h.holds p j).mpr hv).symm.trans (hhas p hp)))
        simpa [hp, Function.update_of_ne hj] using hnone
      · simp [hp, h.holds, Function.update_of_ne hj]
  · by_cases hp : p ∈ w.ids <;> simp [hp, h.inFlight]

/-- **The step lemma.** -/
theorem Exclusive.step (h : Exclusive s log holder) {l : Label} (hst : s.step host l = some t) :
    ∃ holder', Exclusive t (log ++ emits s l) holder' := by
  cases l with
  | call i actions =>
    cases hi : s.workers i with
    | some w => simp [State.step, hi] at hst
    | none =>
      simp only [State.step, hi, Option.some.injEq] at hst
      obtain rfl := hst
      obtain ⟨hnd, hfree⟩ := nodup_toProcess s.inFlight actions
      simp only [emits, hi]
      exact ⟨_, h.enter hi hnd hfree⟩
  | op i c =>
    match hi : s.workers i with
    | none => simp [State.step, hi] at hst
    | some ⟨ids, []⟩ => simp [State.step, hi] at hst
    | some ⟨ids, (p, .pure u) :: todo⟩ => simp [State.step, hi] at hst
    | some ⟨ids, (p, .op o k) :: todo⟩ =>
      simp only [State.step, hi, Option.some.injEq] at hst
      obtain rfl := hst
      simp only [emits, hi]
      exact ⟨_, h.op hi _ _⟩
  | leave i =>
    cases hi : s.workers i with
    | none => simp [State.step, hi] at hst
    | some w =>
      simp only [State.step, hi, Option.some.injEq] at hst
      obtain rfl := hst
      simp only [emits, hi]
      exact ⟨_, h.leave hi⟩

/-- **One thread for a package**, however many call `process_pending_plugins`, whatever they are
given, and whenever they end. -/
theorem exclusive_of_run (host : PluginHost) (m : Machine) (ls : List Label) (t : State)
    (hr : run (State.step host) (.start m) ls = some t) :
    ∃ holder, Exclusive t (emitted (State.step host) emits (.start m) ls) holder := by
  have hI : ∃ holder, Exclusive t ([] ++ emitted (State.step host) emits (.start m) ls) holder :=
    invariant_of_emitted (P := fun _ _ => True) (I := fun s es => ∃ holder, Exclusive s es holder)
      (fun s es l t h _ hst => h.elim fun _ h => h.step hst) ⟨_, exclusive_start m⟩
      (along_of_forall (fun _ _ => trivial) _ _) hr
  exact hI

/-- **Within a turn nobody else acts**: from the moment a thread has taken a package until it gives
it back, everything that concerns the package is its doing. -/
theorem acts_alone_of_run (host : PluginHost) (m : Machine) (ls : List Label) (t : State)
    (hr : run (State.step host) (.start m) ls = some t)
    {before between after : List (Turns.Event ℕ String)} {p : String} {e : Turns.Event ℕ String}
    (hlog : emitted (State.step host) emits (.start m) ls =
      before ++ .begin i p :: between ++ e :: after)
    (he : e.key = p) (hf : ∀ j, .finish j p ∉ between) : e.party = i ∧ ∀ j, e ≠ .begin j p := by
  obtain ⟨holder, h⟩ := exclusive_of_run host m ls t hr
  have horderly := h.orderly
  rw [hlog] at horderly
  exact horderly.party_of_begin he hf

/-- The second caller is given a package that the first is at, and another one twice; the first
ends, and the package is taken again. -/
def overlapping : List Label :=
  [.call 0 [{ pluginPackageId := "acme", version := "1.0", action := "install" }],
    .call 1 [{ pluginPackageId := "acme", version := "1.0", action := "install" },
      { pluginPackageId := "beta", version := "1.0", action := "revoke" },
      { pluginPackageId := "beta", version := "1.0", action := "revoke" }],
    .op 0 {}, .op 1 {}, .leave 0, .leave 1,
    .call 1 [{ pluginPackageId := "acme", version := "1.0", action := "install" }]]

theorem overlapping_exclusive : ∃ t,
    run (State.step plainHost) (.start acmeMachine) overlapping = some t ∧
      t.inFlight = ["acme"] ∧ t.machine.reports.map Prod.fst = ["acme", "beta"] ∧
      ∃ holder, Exclusive t
        (emitted (State.step plainHost) emits (.start acmeMachine) overlapping) holder :=
  ⟨_, rfl, rfl, rfl, exclusive_of_run plainHost acmeMachine overlapping _ rfl⟩

/-! ### A single caller -/

/-- What a worker still has to do, as one program. -/
def remaining : List (String × Prog PluginOp Unit) → Prog PluginOp Unit
  | [] => .pure ()
  | (_, p) :: todo => p >>= fun _ => remaining todo

theorem remaining_settle (todo : List (String × Prog PluginOp Unit)) :
    remaining (settle todo) = remaining todo := by
  induction todo with
  | nil => rfl
  | cons e todo ih =>
    obtain ⟨p, prog⟩ := e
    cases prog with
    | pure u => exact ih
    | op o k => rfl

theorem remaining_programs (actions : List PendingPluginAction) :
    remaining (programs host actions) = processAll host actions := by
  induction actions with
  | nil => rfl
  | cons a actions ih =>
    rw [processAll, ← ih]
    rfl

/-- The operations of a worker that nobody interrupts are those of its program. -/
theorem machine_of_ops {ids : List String} {todo : List (String × Prog PluginOp Unit)}
    (hi : s.workers i = some ⟨ids, todo⟩) {cs : List Choice}
    (hr : run (State.step host) s (cs.map (.op i)) = some t) :
    t.machine = (exec (perform host) (remaining todo) s.machine cs).2 := by
  induction cs generalizing s todo with
  | nil =>
    obtain rfl : s = t := by simpa using hr
    cases remaining todo <;> rfl
  | cons c cs ih =>
    obtain ⟨u, hu, hr⟩ := run_cons_iff.mp hr
    match todo with
    | [] => simp [State.step, hi] at hu
    | (p, .pure a) :: todo => simp [State.step, hi] at hu
    | (p, .op o k) :: todo =>
      simp only [State.step, hi, Option.some.injEq] at hu
      obtain rfl := hu
      rw [ih (Function.update_self _ _ _) hr, remaining_settle]
      rfl

/-- **A single caller does what `process_pending_plugins` does**, as far as it comes. -/
theorem run_alone (host : PluginHost) (m : Machine) (actions : List PendingPluginAction)
    (cs : List Choice) (hr : run (State.step host) (.start m)
      (.call i actions :: cs.map (.op i)) = some t) :
    t.machine = (exec (perform host) (processPendingPlugins host actions) m cs).2 := by
  obtain ⟨u, hu, hr⟩ := run_cons_iff.mp hr
  simp only [State.step, State.start, Option.some.injEq] at hu
  rw [processPendingPlugins]
  rw [State.enter] at hu
  split_ifs at hu with htaken
  · obtain rfl := hu
    rw [htaken]
    cases cs with
    | nil =>
      obtain rfl := Option.some.inj hr
      rfl
    | cons c cs => cases hr
  · obtain rfl := hu
    rw [machine_of_ops (Function.update_self _ _ _) hr, remaining_settle, remaining_programs]

end InFlight

end Plugin

end WazabiAgent
