import WazabiAgent.Agent.SystemCalls
import WazabiAgent.Lib.Contract

/-!
# The services over the calls

`enumerate_services` as a program over the Windows calls takes the snapshot that its model takes.
The model speaks of how the calls of a turn end; here the manager answers the calls one by one, by
the handles it has given and by how often it was asked.

## Main definitions

* `Manager.Does` — what a call does, in a turn `c`

## Main results

* `services_over_calls` — the snapshot over the calls is the snapshot of the model
-/

namespace WazabiAgent

namespace Win32

open Prog Polling

/-- What the manager remembers of a turn. -/
structure Manager where
  /-- The calls with a buffer so far. -/
  fills : ℕ := 0
  /-- The service that a handle was given for. -/
  name : ℕ → String := fun _ => ""

/-- The reply to a call with a buffer. -/
def replyOf (c : Cycle) : FillReply → EnumReply
  | .filled => .filled c.scm.services
  | .failed lastError bytesNeeded => .failed lastError bytesNeeded

/-- What a call of the service manager may answer in a cycle. -/
def Manager.Does (c : Cycle) : {β : Type} → Call β → Manager → β → Manager → Prop
  | _, .openSCManager, w, scm, w' => w' = w ∧ (scm = 0 ↔ c.calls.openScManager = false)
  | _, .probeServices _, w, bytesNeeded, w' => w' = w ∧ bytesNeeded = c.calls.bytesNeeded
  | _, .enumServices _ bufSize, w, reply, w' =>
    w' = { w with fills := w.fills + 1 } ∧ reply = replyOf c (c.calls.fill w.fills bufSize)
  | _, .openService _ name, w, svc, w' =>
    w' = { w with name := Function.update w.name svc name } ∧
      (svc = 0 ↔ c.calls.openService name = false)
  | _, .probeServiceConfig svc, w, bytesNeeded, w' =>
    w' = w ∧ bytesNeeded = c.calls.configBytes (w.name svc)
  | _, .queryServiceConfig svc _, w, answer, w' =>
    w' = w ∧ answer = if c.calls.queryServiceConfig (w.name svc) then
      some (c.scm.config (w.name svc)) else none
  | _, _, w, _, w' => w' = w

variable {c : Cycle} {w : Manager} {scm : ℕ} {prev : Snapshots} {fullRescan : Bool}

/-- The precondition over the manager. -/
abbrev Asks {α : Type} (c : Cycle) (p : Prog Call α) (Q : α → Manager → Prop) (w : Manager) :
    Prop :=
  Ensures (Manager.Does c) Returns p Q w

/-- Closing is nothing to the manager. -/
theorem asks_close {α : Type} {h : ℕ} {f : Unit → Prog Call α} {Q : α → Manager → Prop}
    (hf : Asks c (f ()) Q w) : Asks c (call (.closeServiceHandle h) >>= f) Q w := by
  refine ensures_call trivial fun _ w' hw => ?_
  rw [show w' = w from hw]
  exact hf

theorem asks_queryServiceConfig (name : String) :
    Asks c (queryServiceConfig scm name) (fun r _ => r = c.queryServiceConfig name) w := by
  refine ensures_call trivial fun svc w' ⟨hw, hopens⟩ => ?_
  rw [Cycle.queryServiceConfig]
  by_cases hnull : svc = 0
  · rw [if_pos hnull]
    show none = _
    rw [hopens.mp hnull]
    rfl
  · have hopen : c.calls.openService name = true := by simpa [hnull] using hopens
    have hname : w'.name svc = name := by
      rw [hw]
      exact Function.update_self ..
    rw [if_neg hnull, hopen]
    refine ensures_call trivial fun bytesNeeded v ⟨hv, hbytes⟩ => ?_
    subst hv
    rw [hname] at hbytes
    by_cases hzero : bytesNeeded = 0
    · rw [if_pos hzero]
      refine asks_close ?_
      show none = _
      simp [← hbytes, hzero]
    · rw [if_neg hzero]
      refine ensures_call trivial fun answer v' ⟨hv', hanswer⟩ => ?_
      rw [hname] at hanswer
      rw [hanswer]
      by_cases hquery : c.calls.queryServiceConfig name = true
      · rw [if_pos hquery]
        refine asks_close ?_
        show some _ = _
        simp [← hbytes, hzero, hquery]
      · rw [if_neg hquery]
        refine asks_close ?_
        show none = _
        simp [hquery]

/-- As many calls are left as in the model. -/
theorem asks_fillServices (n bufSize : ℕ) :
    Asks c (fillServices scm n bufSize) (fun r _ => r = if Cycle.fillServices c.calls.fill n w.fills
      bufSize then some c.scm.services else none) w := by
  induction n generalizing w bufSize with
  | zero => exact asks_close rfl
  | succ n ih =>
    refine ensures_call trivial fun reply w' ⟨hw, hreply⟩ => ?_
    rw [Cycle.fillServices, hreply]
    cases c.calls.fill w.fills bufSize with
    | filled => rfl
    | failed lastError bytesNeeded =>
      dsimp only [replyOf]
      by_cases hmore : lastError ≠ Cycle.errorMoreData
      · simp only [if_pos hmore]
        exact asks_close rfl
      · simp only [if_neg hmore]
        subst hw
        exact ih (w := { fills := w.fills + 1, name := w.name }) _

theorem asks_configOf (e : EnumServiceStatus) :
    Asks c (configOf scm prev fullRescan e)
      (fun r _ => r = (snapshotOf c prev fullRescan e).toServiceConfig) w := by
  rw [configOf, snapshotOf]
  cases carriedOver prev fullRescan e with
  | some config => exact rfl
  | none =>
    refine ensures_bind.mpr (ensures_mono (asks_queryServiceConfig e.name) fun answer v hr => ?_)
    rw [hr]
    rfl

/-- The entries without a name are passed over, the others go into the map. -/
theorem asks_snapshotEntries (entries : List EnumServiceStatus) (map : Snapshots) :
    Asks c (snapshotEntries scm prev fullRescan entries map) (fun r _ => r = (named entries).foldl
      (fun m e => m.insert e.name (snapshotOf c prev fullRescan e)) map) w := by
  induction entries generalizing map w with
  | nil => exact rfl
  | cons e entries ih =>
    rw [snapshotEntries]
    by_cases hname : e.name = ""
    · rw [if_pos hname]
      have hnamed : named (e :: entries) = named entries := by simp [named, hname]
      rw [hnamed]
      exact ih map
    · rw [if_neg hname]
      have hnamed : named (e :: entries) = e :: named entries := by simp [named, hname]
      rw [hnamed]
      refine ensures_bind.mpr (ensures_mono (asks_configOf e) fun config v hconfig => ?_)
      subst hconfig
      exact ih _

theorem asks_enumerateServices :
    Asks c (enumerateServices prev fullRescan)
      (fun r _ => r = Polling.enumerateServices c prev fullRescan) {} := by
  refine ensures_call trivial fun scm w hdoes => ?_
  obtain ⟨hw, hopens⟩ := hdoes
  subst hw
  rw [Polling.enumerateServices, Cycle.listing]
  by_cases hnull : scm = 0
  · rw [if_pos hnull, hopens.mp hnull]
    rfl
  · have hopen : c.calls.openScManager = true := by simpa [hnull] using hopens
    rw [if_neg hnull, hopen]
    refine ensures_call trivial fun bytesNeeded v hprobe => ?_
    obtain ⟨hv, hbytes⟩ := hprobe
    subst hv hbytes
    by_cases hzero : c.calls.bytesNeeded = 0
    · rw [if_pos hzero, if_pos hzero]
      exact asks_close rfl
    · rw [if_neg hzero, if_neg hzero]
      refine ensures_bind.mpr (ensures_mono (asks_fillServices _ _) fun filled v hfilled => ?_)
      rw [hfilled]
      by_cases hfills :
          Cycle.fillServices c.calls.fill Cycle.maxRetries 0 c.calls.bytesNeeded = true
      · simp only [hfills]
        refine ensures_bind.mpr (ensures_mono (asks_snapshotEntries _ _) fun map u hmap => ?_)
        subst hmap
        exact asks_close rfl
      · simp only [hfills]
        exact rfl

theorem manager_total {β : Type} (o : Call β) (w : Manager) (ho : Returns o) :
    ∃ b w', Manager.Does c o w b w' := by
  cases o with
  | stuck => exact ho.elim
  | openSCManager =>
    refine ⟨if c.calls.openScManager then 1 else 0, w, rfl, ?_⟩
    cases c.calls.openScManager <;> simp
  | openService scm name =>
    refine ⟨if c.calls.openService name then 1 else 0, _, rfl, ?_⟩
    cases c.calls.openService name <;> simp
  | enumServices | probeServices | probeServiceConfig | queryServiceConfig => exact ⟨_, _, rfl, rfl⟩
  | readFrame => exact ⟨.ok none, w, rfl⟩
  | store => exact ⟨.empty, w, rfl⟩
  | _ => exact ⟨default, w, rfl⟩

/-- **The services over the calls.** The program of `enumerate_services` can always be finished,
and its result is the snapshot of the model: whatever handles the manager gives, the configuration
of a service is asked for through the handle of that service. -/
theorem services_over_calls (c : Cycle) (prev : Snapshots) (fullRescan : Bool) :
    Settles (Manager.Does c) (enumerateServices prev fullRescan)
      (fun r _ => r = Polling.enumerateServices c prev fullRescan) {} :=
  asks_enumerateServices.settles manager_total

end Win32

end WazabiAgent
