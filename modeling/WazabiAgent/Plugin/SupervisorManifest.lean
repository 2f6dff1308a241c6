import Mathlib.Data.List.Chain
import WazabiAgent.Plugin.Supervisor

/-!
# Does a spawn honour the manifest of the previous one?

Revocation and update reach a running plugin through the poll inside `wait_for_exit_or_change`.
This file says which spawns of a run are the ones that should not have been made, and under which
condition on the run there are none.

An attempt *follows* an earlier one properly when the earlier one was not made against a revoked
or missing manifest, and, if the file already named another binary then, when the binary it uses
was on disk at the earlier attempt or later. The second half deliberately does not ask for the
version that was on disk at the earlier attempt: the file may have been edited again since.

## Where it fails

Both back-off branches return to the spawn with the manifest the thread already held. So a spawn
that fails, and a child that ends before the first poll, are repeated for ever after the
revocation, and with the old binary after an update. `spawn_again_after_revocation` is the
shortest run of that kind, and `honoursManifest_of_along` says that these branches are the only
ones.
-/

namespace WazabiAgent

namespace Plugin

open LabelledStep

/-- The file already named another binary than the one the attempt used. -/
def Attempt.SawChange (a : Attempt) : Prop := ∃ b ∈ a.disk.binary?, b ≠ a.used.binary

/-- The binary was on disk when the attempt was made, or has been since. -/
def Attempt.Offered (a : Attempt) (b : String × Option String) : Prop :=
  ∃ f ∈ a.versions, f.binary? = some b

/-- An attempt that uses the binary `b` may come after `a`. -/
def Attempt.Permits (a : Attempt) (b : String × Option String) : Prop :=
  ¬ a.disk.Stops ∧ (a.SawChange → a.Offered b)

/-- Every attempt but the first was permitted by the one before it. -/
def HonoursManifest (s : Supervisor) : Prop :=
  s.attempts.IsChain fun later earlier => earlier.Permits later.used.binary

/-- The waiting thread reads the manifest in its next turn. -/
def Supervisor.ManifestDue (s : Supervisor) : Prop :=
  match s.pc with
  | .waiting _ last _ => manifestPoll ≤ s.clock - last
  | _ => False

/-- The condition on a step: a back-off branch is taken only after an attempt that permits its own
repetition, and a changed manifest is read only after an attempt that was not made against a
revoked or missing one. -/
def BacksOffFresh (s : Supervisor) : Label → Prop
  | .spawn false => s.shutdown = false → s.attempt.Permits s.current.binary
  | .poll tryWaitFails ioError => s.shutdown = false → ∀ a ∈ s.attempts.head?,
      (tryWaitFails = true ∨ s.childAlive = false → a.Permits a.used.binary) ∧
      (s.ManifestDue → (readManifest (s.disk.read ioError) s.current).IsChanged →
        ¬ a.disk.Stops)
  | _ => True

instance (a : Attempt) : Decidable a.SawChange := by unfold Attempt.SawChange; infer_instance

instance (a : Attempt) (b : String × Option String) : Decidable (a.Offered b) := by
  unfold Attempt.Offered; infer_instance

instance (a : Attempt) (b : String × Option String) : Decidable (a.Permits b) := by
  unfold Attempt.Permits; infer_instance

instance (s : Supervisor) : Decidable (HonoursManifest s) := by
  unfold HonoursManifest; infer_instance

instance (s : Supervisor) : Decidable s.ManifestDue := by
  unfold Supervisor.ManifestDue; split <;> infer_instance

instance (s : Supervisor) (l : Label) : Decidable (BacksOffFresh s l) := by
  unfold BacksOffFresh; split <;> infer_instance

/-! ### The invariant -/

/-- What the thread knows at each of its places: on the way to a spawn, the last attempt permits
the binary in hand; while it waits, that attempt used it. -/
def Ready (s : Supervisor) : Prop :=
  match s.pc with
  | .loopHead | .backingOff _ => ∀ a ∈ s.attempts.head?, a.Permits s.current.binary
  | .waiting _ _ _ => ∃ a ∈ s.attempts.head?, a.used = s.current
  | .returned => True

/-- The invariant behind `honoursManifest_of_along`. -/
structure ManifestInv (s : Supervisor) : Prop where
  honours : HonoursManifest s
  ready : Ready s
  /-- The newest attempt has seen the file as it is. -/
  seen : ∀ a ∈ s.attempts.head?, s.disk ∈ a.versions

theorem manifestInv_start (m : PluginManifest) (f : ManifestFile) :
    ManifestInv (.start m f) where
  honours := .nil
  ready := by simp [Ready, Supervisor.start]
  seen := by simp [Supervisor.start]

/-- A new version on disk only adds to what an attempt permits. -/
theorem Attempt.Permits.note {a : Attempt} {b : String × Option String} (f : ManifestFile)
    (h : a.Permits b) : Attempt.Permits { a with versions := f :: a.versions } b := by
  refine ⟨h.1, fun hsaw => ?_⟩
  obtain ⟨g, hg, hb⟩ := h.2 hsaw
  exact ⟨g, List.mem_cons_of_mem _ hg, hb⟩

/-- The chain looks at an attempt's later versions only from its successor, and the newest has
none. -/
theorem isChain_modifyHead {as : List Attempt} (f : ManifestFile)
    (h : as.IsChain fun later earlier => earlier.Permits later.used.binary) :
    (as.modifyHead fun a => { a with versions := f :: a.versions }).IsChain
      fun later earlier => earlier.Permits later.used.binary := by
  cases as with
  | nil => exact h
  | cons a as =>
    rw [List.modifyHead_cons, List.isChain_cons]
    rw [List.isChain_cons] at h
    exact h

theorem ManifestInv.edit {s : Supervisor} (h : ManifestInv s) (f : ManifestFile) :
    ManifestInv { s with
      disk := f
      attempts := s.attempts.modifyHead fun a => { a with versions := f :: a.versions } } where
  honours := isChain_modifyHead f h.honours
  ready := by
    have hr := h.ready
    cases has : s.attempts with
    | nil => simpa [Ready, has] using hr
    | cons a as =>
      cases hpc : s.pc with
      | loopHead | backingOff =>
        simp only [Ready, hpc, has, List.head?_cons, Option.mem_some_iff, forall_eq'] at hr
        simpa [Ready, hpc] using hr.note f
      | waiting => simpa [Ready, hpc, has] using hr
      | returned => simp [Ready]
  seen := by
    cases has : s.attempts with
    | nil => simp
    | cons a as => simp

/-- Making the attempt keeps the chain, since the last one permits it. -/
theorem ManifestInv.isChain_attempt {s : Supervisor} (h : ManifestInv s)
    (hpc : s.pc = .loopHead) :
    (s.attempt :: s.attempts).IsChain fun later earlier => earlier.Permits later.used.binary := by
  rw [List.isChain_cons]
  have hr := h.ready
  rw [Ready, hpc] at hr
  exact ⟨hr, h.honours⟩

theorem ManifestInv.spawn {s t : Supervisor} {ok : Bool} (h : ManifestInv s)
    (hok : BacksOffFresh s (.spawn ok)) (hst : s.step (.spawn ok) = some t) : ManifestInv t := by
  simp only [Supervisor.step] at hst
  cases hpc : s.pc with
  | loopHead =>
    rw [hpc] at hst
    cases hsd : s.shutdown with
    | true =>
      obtain rfl : { s with pc := .returned } = t := by simpa [hsd] using hst
      exact ⟨h.honours, trivial, h.seen⟩
    | false =>
      cases ok with
      | true =>
        obtain rfl := Option.some.inj (by simpa [hsd] using hst)
        exact ⟨h.isChain_attempt hpc, ⟨s.attempt, rfl, rfl⟩, by simp [Supervisor.attempt]⟩
      | false =>
        obtain rfl := Option.some.inj (by simpa [hsd] using hst)
        refine ⟨h.isChain_attempt hpc, ?_, by simp [Supervisor.attempt]⟩
        simpa [Ready] using hok hsd
  | backingOff | waiting | returned => simp [hpc] at hst

theorem ManifestInv.wake {s t : Supervisor} (h : ManifestInv s)
    (hst : s.step .wake = some t) : ManifestInv t := by
  simp only [Supervisor.step] at hst
  cases hpc : s.pc with
  | backingOff wakeAt =>
    simp only [hpc] at hst
    split_ifs at hst with hsd hw
    · obtain rfl := Option.some.inj hst
      exact ⟨h.honours, trivial, h.seen⟩
    · obtain rfl := Option.some.inj hst
      have hr := h.ready
      rw [Ready, hpc] at hr
      exact ⟨h.honours, hr, h.seen⟩
  | loopHead | waiting | returned => simp [hpc] at hst

/-- What a turn of the wait can end with, and the facts each end is taken on. -/
theorem waitTurn_cases {s : Supervisor} {started last wakeAt : ℕ}
    (hpc : s.pc = .waiting started last wakeAt) (tw io : Bool) :
    (waitTurn s last tw io = .inl .childExited ∧ (tw = true ∨ s.childAlive = false)) ∨
    (waitTurn s last tw io = .inl .shutdown ∧ s.shutdown = true) ∨
    waitTurn s last tw io = .inl .revoked ∨
    (∃ m, waitTurn s last tw io = .inl (.updated m) ∧ s.shutdown = false ∧ s.ManifestDue ∧
      readManifest (s.disk.read io) s.current = .changed m) ∨
    ∃ last', waitTurn s last tw io = .inr last' := by
  rw [waitTurn]
  split_ifs with hexit hsd hdue
  · exact Or.inl ⟨rfl, hexit⟩
  · exact Or.inr (Or.inl ⟨rfl, hsd⟩)
  · have hd : s.ManifestDue := by rwa [Supervisor.ManifestDue, hpc]
    cases hr : readManifest (s.disk.read io) s.current with
    | missing | revoked => simp
    | changed m => simpa [hd] using hsd
    | unchanged | readError => simp
  · simp

theorem ManifestInv.onOutcome_childExited {s : Supervisor} {started : ℕ} (h : ManifestInv s)
    (hp : s.shutdown = false → ∀ a ∈ s.attempts.head?, a.Permits s.current.binary) :
    ManifestInv (onOutcome s started .childExited) := by
  cases hsd : s.shutdown with
  | true =>
    rw [onOutcome, if_pos hsd]
    exact ⟨h.honours, trivial, h.seen⟩
  | false =>
    rw [onOutcome, if_neg (by simp [hsd])]
    exact ⟨h.honours, hp hsd, h.seen⟩

theorem ManifestInv.onOutcome_updated {s : Supervisor} {started : ℕ} {io : Bool}
    {m : PluginManifest} (h : ManifestInv s)
    (hm : readManifest (s.disk.read io) s.current = .changed m)
    (hns : ∀ a ∈ s.attempts.head?, ¬ a.disk.Stops) :
    ManifestInv (onOutcome s started (.updated m)) where
  honours := h.honours
  -- the new manifest was read off the file, which the newest attempt has seen
  ready := fun a ha =>
    ⟨hns a ha, fun _ => ⟨.manifest m, readManifest_eq_changed hm ▸ h.seen a ha, rfl⟩⟩
  seen := h.seen

theorem ManifestInv.poll {s t : Supervisor} {tw io : Bool} (h : ManifestInv s)
    (hok : BacksOffFresh s (.poll tw io)) (hst : s.step (.poll tw io) = some t) :
    ManifestInv t := by
  simp only [Supervisor.step] at hst
  cases hpc : s.pc with
  | waiting started last wakeAt =>
    simp only [hpc] at hst
    split_ifs at hst with hw
    have hr := h.ready
    rw [Ready, hpc] at hr
    obtain ⟨a, ha, hused⟩ := hr
    have heq : ∀ b ∈ s.attempts.head?, b = a := fun b hb => Option.mem_unique hb ha
    rcases waitTurn_cases hpc tw io with
      ⟨hw, hexit⟩ | ⟨hw, hsd⟩ | hw | ⟨m, hw, hsd, hdue, hm⟩ | ⟨last', hw⟩ <;>
      rw [hw] at hst <;> obtain rfl := Option.some.inj hst
    · refine h.onOutcome_childExited fun hsd b hb => ?_
      rw [heq b hb, ← hused]
      exact (hok hsd a ha).1 hexit
    · exact ⟨h.honours, trivial, h.seen⟩
    · exact ⟨h.honours, trivial, h.seen⟩
    · refine h.onOutcome_updated hm fun b hb => ?_
      rw [heq b hb]
      exact (hok hsd a ha).2 hdue (by rw [hm]; trivial)
    · exact ⟨h.honours, ⟨a, ha, hused⟩, h.seen⟩
  | loopHead | backingOff | returned => simp [hpc] at hst

theorem ManifestInv.step {s t : Supervisor} {l : Label} (h : ManifestInv s)
    (hok : BacksOffFresh s l) (hst : s.step l = some t) : ManifestInv t := by
  cases l with
  | tick d =>
    obtain rfl := Option.some.inj hst
    exact ⟨h.honours, h.ready, h.seen⟩
  | edit f =>
    obtain rfl := Option.some.inj hst
    exact h.edit f
  | childExits =>
    simp only [Supervisor.step] at hst
    split_ifs at hst
    obtain rfl := Option.some.inj hst
    exact ⟨h.honours, h.ready, h.seen⟩
  | raiseShutdown =>
    obtain rfl := Option.some.inj hst
    exact ⟨h.honours, h.ready, h.seen⟩
  | spawn ok => exact h.spawn hok hst
  | wake => exact h.wake hst
  | poll tw io => exact h.poll hok hst

/-! ### Runs -/

/-- **Revocation and update are honoured in every run that backs off only while the manifest it
holds is fresh.** -/
theorem honoursManifest_of_along (m : PluginManifest) (f : ManifestFile) (ls : List Label)
    (t : Supervisor) (hok : Along Supervisor.step BacksOffFresh (.start m f) ls)
    (hr : run Supervisor.step (.start m f) ls = some t) : HonoursManifest t :=
  (invariant_of_along (I := ManifestInv) (fun _ _ _ h hok hst => h.step hok hst)
    (manifestInv_start m f) hok hr).honours

/-- A plugin for the runs below. -/
def hookPlugin : PluginManifest where
  pluginId := "8f3c1d8e-5a8b-4ad0-94d2-cab9b1d0e2a0"
  name := "hook"
  expectedPath := "C:\\hook\\1.0\\hook.exe"
  expectedSha256 := some "f4b9"
  expectedSigner := none
  revoked := false
  autoLaunch := true
  env := []

/-- The same run with a child that lives until the poll: the update is picked up. -/
def updateRun : List Label :=
  [.spawn true, .edit (.manifest { hookPlugin with expectedSha256 := some "77a0" }),
    .tick 5000, .poll false false, .spawn true]

theorem updateRun_honours :
    ∃ t, run Supervisor.step (.start hookPlugin (.manifest hookPlugin)) updateRun = some t ∧
      t.attempts.length = 2 ∧ HonoursManifest t :=
  ⟨_, rfl, rfl, honoursManifest_of_along hookPlugin (.manifest hookPlugin) updateRun _
    (by decide) rfl⟩

/-- **A revoked plugin is spawned again.** The manifest is revoked on disk before the first
attempt; that attempt fails, and after the back-off the thread tries again. -/
theorem spawn_again_after_revocation :
    ∃ t, run Supervisor.step
        (.start hookPlugin (.manifest { hookPlugin with revoked := true }))
        [.spawn false, .tick 1000, .wake, .spawn true] = some t ∧ ¬ HonoursManifest t :=
  ⟨_, rfl, by decide⟩

end Plugin

end WazabiAgent
