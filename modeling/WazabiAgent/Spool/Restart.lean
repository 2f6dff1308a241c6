import WazabiAgent.Spool.Discipline

/-!
# Does sealing overwrite what earlier runs have left?

The number in a batch name counts the sealings since the start, and starts at 0 again. What keeps
the names of two runs apart is the clock: a second in which nothing else is sealed. A restart
within a second, or a clock that is set back, gives a name a second time, and `File::create` then
truncates the batch that has it.

`leaves_iff_fresh` says that this is all that can go wrong, over any number of restarts in any
directory: a run of the writer leaves the batches of the directory alone, apart from counted
evictions, exactly if no batch file is created over another one.

## Main results

* `Spool.leaves_iff_fresh` — when every batch is left alone
* `Spool.restart_overwrites` — two runs within one second
-/

namespace WazabiAgent

namespace Spool

open LabelledStep Prog

/-! ### Restarts -/

/-- What can happen to a spool directory. -/
inductive RunLabel
  | step (l : Label)
  /-- The agent stops at any point and starts again. -/
  | restart

/-- The thread is started again in the directory that it left. -/
def System.restarting (cfg : SpoolConfig) (s : System) : RunLabel → Option System
  | .step l => s.step cfg l
  | .restart => some (.start s.spool.dir)

/-- The shipper deletes a batch. -/
def RunLabel.ships : RunLabel → Bool
  | .step (.other (.ship _)) => true
  | _ => false

/-- The step leaves every batch file that is there unchanged, but for the one that it is encoding
and for one that it evicts and then counts. -/
def Leaves (cfg : SpoolConfig) (s : System) (l : RunLabel) : Prop :=
  ∀ t, s.restarting cfg l = some t → l.ships = false → ∀ n f, isBatchName n = true →
    s.spool.dir n = some f → (∀ e ∈ s.spool.encoding, e.1 ≠ n) →
      t.spool.dir n = some f ∨
        t.spool.dir n = none ∧ ∃ k, t.writer = some (.op .countEvicted k)

/-- The operation does not create a file over another one, unless that one is empty. -/
def SpoolOp.createsFresh {β : Type} : SpoolOp β → SpoolState → Choice → Prop
  | .createFile n, w, c => c.ok = true → ∀ f ∈ w.dir n, f = .zst [] .empty 0
  | _, _, _ => True

/-- The step creates no file over another one, unless that one is empty. -/
def Fresh (s : System) : RunLabel → Prop
  | .step l => OnOp (fun o _ w c => o.createsFresh w c) s l
  | .restart => True

variable {cfg : SpoolConfig} {dir : Dir} {s t : System}

/-- The thread comes to its operations as it should, in every run. -/
theorem disciplined_of_restarting (h : Reachable (System.restarting cfg) (.start dir) s) :
    Disciplined .none s := by
  refine h.invariant (fun s l t hs hst => ?_) (disciplined_start .none False.elim)
  cases l with
  | step l => exact hs.step (stepGranted_none s l) hst
  | restart =>
    obtain rfl := Option.some.inj hst
    exact disciplined_start .none False.elim

theorem fresh_of_leaves (hd : Disciplined .none s) {l : RunLabel} (h : Leaves cfg s l) :
    Fresh s l := by
  cases l with
  | restart => trivial
  | step l =>
    refine onOp_intro fun o k c hl hw => ?_
    cases o with
    | createFile n =>
      intro hok f hf
      obtain ⟨ts, seq, cs, rfl, hstage⟩ := hd.sound_op hw
      have hst : s.restarting cfg (.step l) = some
          ⟨(perform (.createFile (batchName ts seq)) s.spool c).2, some (resume cfg (k true))⟩ := by
        simp [System.restarting, System.step, hl, hw, SpoolOp.enabled, perform, hok]
      have hnew : (perform (.createFile (batchName ts seq)) s.spool c).2.dir
          (batchName ts seq) = some (.zst [] .empty 0) := by simp [perform, hok]
      rcases h _ hst (by rw [hl]; rfl) _ f (isBatchName_batchName ts seq) hf
          (fun e he => (hstage.numbered.encoder e he).ne) with hsame | ⟨hnone, -⟩
      · exact Option.some.inj (hsame.symm.trans hnew)
      · simp [hnew] at hnone
    | _ => trivial

theorem leaves_of_fresh (hd : Disciplined .none s) {l : RunLabel} (h : Fresh s l) :
    Leaves cfg s l := by
  intro t hst hship n f hn hf henc
  cases l with
  | restart =>
    obtain rfl := Option.some.inj hst
    exact .inl hf
  | step l =>
    rcases System.step_cases hst with ⟨x, rfl, hx, -⟩ | ⟨c, β, o, k, rfl, hw, -, rfl⟩ |
      ⟨-, -, rfl⟩
    · rcases SpoolState.other_cases hx with ⟨y, rfl, hy⟩ | ⟨_, _, _, hy⟩ | ⟨name, rfl, -, -⟩
      · rw [hy, SpoolState.trySubmit]
        split_ifs <;> exact .inl hf
      · rw [hy]
        exact .inl hf
      · simp [RunLabel.ships] at hship
    · rcases (hd.sound_op hw).batchFile hn c with hsame | ⟨hcr, hok, hnew⟩ |
        ⟨-, ⟨given, hgiven⟩, -, -⟩ | ⟨hrm, hasks, hnone⟩
      · exact .inl (hsame.trans hf)
      · cases o with
        | createFile name =>
          obtain rfl : name = n := hcr
          rw [(onOp_op hw).mp h hok f hf]
          exact .inl hnew
        | _ => exact hcr.elim
      · exact absurd rfl (henc _ hgiven)
      · obtain ⟨k', hk'⟩ : ∃ k', resume cfg (k _) = .op .countEvicted k' :=
          hd.counted hw hrm hasks
        exact .inr ⟨hnone, k', congrArg some hk'⟩
    · exact .inl hf

/-- **When every batch is left alone.** Over any number of restarts in any directory, each step
leaves the batches that are there unchanged, apart from counted evictions, if and only if no step
creates a batch file over one with something in it. -/
theorem leaves_iff_fresh (cfg : SpoolConfig) (dir : Dir) (ls : List RunLabel) :
    Along (System.restarting cfg) (Leaves cfg) (.start dir) ls ↔
      Along (System.restarting cfg) Fresh (.start dir) ls :=
  along_iff_of_reachable (fun _ hs _ => ⟨fresh_of_leaves (disciplined_of_restarting hs),
    leaves_of_fresh (disciplined_of_restarting hs)⟩) ls

/-! ### Two runs within one second -/

/-- A batch is sealed, the agent is started again, and goes on to the creation of the next batch
file in the same second. -/
def restarted : List RunLabel :=
  (settingUp ++ sealAt 1700000000).map .step ++ [.restart] ++
    (settingUp ++ (sealAt 1700000000).take 9).map .step

/-- **The second batch is created over the first.** -/
theorem restart_overwrites : ∃ s t,
    run (System.restarting smallSpool) (.start fun _ => none) restarted = some s ∧
      s.restarting smallSpool (.step (.op {})) = some t ∧
      s.spool.dir (batchName 1700000000 0) = some (.zst [.whole emptyEvent] .whole 0) ∧
      t.spool.dir (batchName 1700000000 0) = some (.zst [] .empty 0) ∧
      ¬ Along (System.restarting smallSpool) (Leaves smallSpool) (.start fun _ => none)
        (restarted ++ [.step (.op {})]) := by
  have hrun : (run (System.restarting smallSpool) (.start fun _ => none) restarted).map (fun s =>
      (s.spool.encoding, s.spool.dir (batchName 1700000000 0),
        (s.restarting smallSpool (.step (.op {}))).map fun t =>
          t.spool.dir (batchName 1700000000 0))) =
      some (none, some (.zst [.whole emptyEvent] .whole 0), some (some (.zst [] .empty 0))) := by
    decide +kernel
  obtain ⟨s, hs, hstate⟩ := Option.map_eq_some_iff.mp hrun
  simp only [Prod.mk.injEq] at hstate
  obtain ⟨henc, hbefore, hafter⟩ := hstate
  obtain ⟨t, ht, hnew⟩ := Option.map_eq_some_iff.mp hafter
  refine ⟨s, t, hs, ht, hbefore, hnew, fun ha => ?_⟩
  have hleaves := (along_iff_forall_split (run_snoc_iff.mpr ⟨s, hs, ht⟩)).mp ha
    restarted (.step (.op {})) [] s rfl hs
  rcases hleaves t ht rfl _ _ (isBatchName_batchName _ _) hbefore (by simp [henc]) with
    hsame | ⟨hnone, -⟩
  · simp [hnew] at hsame
  · simp [hnew] at hnone

end Spool

end WazabiAgent
