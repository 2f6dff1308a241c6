import WazabiAgent.Control.Isolation

/-!
# When isolation keeps the firewall policy

The policy that an isolation replaced must be in force or in the backup file until an import has
restored it. What decides is what the commands do not look at: whether the export succeeded,
whether the import did before the file goes, and whether the file that is found belongs to the
isolation.

The proof follows an isolate up to its reset. Before the reset nothing has been replaced; from the
probe on, the file holds the live policy (`Saved`), whether it was found or written; after the
reset the file holds the replaced policy, and no later call touches it. An unisolate touches the
file last, after the import.

## Main results

* `wp_executeIsolate`, `wp_executeUnisolate` — what each command preserves, wherever it is cut
* `safe_of_along` — the policy is never lost in a run whose steps meet `StepOk`
* `lost_by_failed_import` — the shortest run in which it is
-/

namespace WazabiAgent

namespace Control

open LabelledStep Prog

section

variable {P : Type}

/-- The policy that the isolation replaced is in force or in the backup, and no import has brought
back another one. -/
def Host.Safe (w : Host P) : Prop :=
  (∀ p, w.preIsolation = some p → w.live = p ∨ w.backup = .wfw p) ∧ w.staleImport = false

/-! ### The condition on a step -/

/-- What an operation must not come to. -/
def OpOk {β : Type} : FwOp β → Host P → Choice P → Prop
  | .backupExists, w, c =>
    (w.preIsolation ≠ none → c.ok = true) ∧ (w.isolating = true → w.preIsolation = none →
      c.ok = true → w.backup = .absent ∨ w.backup = .wfw w.live)
  | .netsh cmd, _, c => cmd = .exportTo → c.output.ok = true
  | .removeBackup, w, c => c.ok = true → w.preIsolation = none
  | _, _, _ => True

/-- The condition: either command sees the backup of the isolation in progress, and an isolate that
begins one finds no other than of the live policy; exports succeed; the policy is not edited under
an isolate that has its backup and is about to begin an isolation; and the backup is not removed
before its policy has been restored. -/
def StepOk (s : Executor P) : Executor.Label P → Prop
  | .op c =>
    match s.running with
    | some (.op o _) => OpOk o s.host c
    | _ => True
  | .edit _ =>
    s.running.isSome = true → s.host.isolating = true → s.host.preIsolation = none →
      s.host.backup = .absent
  | _ => True

instance [DecidableEq P] {β : Type} : ∀ (o : FwOp β) (w : Host P) (c : Choice P),
    Decidable (OpOk o w c)
  | .backupExists, _, _ => by unfold OpOk; infer_instance
  | .netsh _, _, _ => by unfold OpOk; infer_instance
  | .removeBackup, _, _ => by unfold OpOk; infer_instance
  | .resolveHostToIpv4 _, _, _ | .createParentDir, _, _ | .now, _, _ => isTrue trivial

instance [DecidableEq P] (s : Executor P) (l : Executor.Label P) : Decidable (StepOk s l) := by
  unfold StepOk
  split
  · split <;> infer_instance
  · infer_instance
  · infer_instance

/-! ### What holds between two operations -/

/-- The backup file holds the policy that was replaced. -/
structure Host.Inv (w : Host P) : Prop where
  fresh : w.staleImport = false
  kept : ∀ p, w.preIsolation = some p → w.backup = .wfw p

theorem Host.Inv.safe {w : Host P} (h : w.Inv) : w.Safe :=
  ⟨fun p hp => .inr (h.kept p hp), h.fresh⟩

/-- What the others do while a command runs. -/
structure Edited (w w' : Host P) : Prop where
  backup : w'.backup = w.backup
  isolating : w'.isolating = w.isolating
  preIsolation : w'.preIsolation = w.preIsolation
  staleImport : w'.staleImport = w.staleImport
  live : w.isolating = true → w.preIsolation = none → w.backup ≠ .absent → w'.live = w.live

instance : IsPreorder (Host P) Edited where
  refl _ := ⟨rfl, rfl, rfl, rfl, fun _ _ _ => rfl⟩
  trans _ _ _ h₁ h₂ := by
    refine ⟨h₂.backup.trans h₁.backup, h₂.isolating.trans h₁.isolating,
      h₂.preIsolation.trans h₁.preIsolation, h₂.staleImport.trans h₁.staleImport, ?_⟩
    intro hi hp hb
    have h := h₂.live (h₁.isolating.trans hi) (h₁.preIsolation.trans hp) (h₁.backup ▸ hb)
    exact h.trans (h₁.live hi hp hb)

variable {w w' : Host P} {c : Choice P}

theorem Host.Inv.edited (h : w.Inv) (he : Edited w w') : w'.Inv :=
  ⟨he.staleImport.trans h.fresh, fun p hp =>
    he.backup.trans (h.kept p (he.preIsolation.symm.trans hp))⟩

/-- Between the probe and the reset of an isolate: if nothing has been replaced yet, the file
holds the live policy. -/
structure Host.Saved (w : Host P) : Prop where
  inv : w.Inv
  isolating : w.isolating = true
  saved : w.preIsolation = none → w.backup = .wfw w.live

theorem Host.Saved.edited (h : w.Saved) (he : Edited w w') : w'.Saved := by
  refine ⟨h.inv.edited he, he.isolating.trans h.isolating, fun hp => ?_⟩
  have hp' : w.preIsolation = none := he.preIsolation.symm.trans hp
  have hb : w.backup = .wfw w.live := h.saved hp'
  rw [he.backup, he.live h.isolating hp' (by simp [hb]), hb]

/-! ### Operations -/

/-- An isolation is in progress, or no isolate runs: a reset begins nothing. -/
def Host.Begun (w : Host P) : Prop := w.isolating = true → w.preIsolation ≠ none

theorem beginIsolation_of_begun (h : w.Begun) : w.beginIsolation = w := by
  rw [Host.beginIsolation, if_neg]
  exact fun hcond => h hcond.1 hcond.2

/-- Setting the policy concerns the live policy only. -/
theorem Host.Inv.set (h : w.Inv) (policy : P) : (w.set policy c).Inv := ⟨h.fresh, h.kept⟩

end

variable {P : Type} [DecidableEq P] {fw : Firewall P} {path : String} {w w' : Host P}
  {c : Choice P}

/-- The precondition of a part of a command, with the invariant wherever it is cut. -/
abbrev keeping (fw : Firewall P) {α : Type} (p : Prog FwOp α) (Q : α → Host P → Prop)
    (w : Host P) : Prop :=
  wp (perform fw) OpOk Edited Host.Inv p Q w

/-- An import brings back the policy that was replaced, since the file holds no other. -/
theorem Host.Inv.restore {q : P} (h : w.Inv) (hq : w.backup = .wfw q) : (w.restore q).Inv := by
  by_cases hp : w.preIsolation = none
  · exact ⟨by simp [Host.restore, hp, h.fresh], by simp [Host.restore, hp]⟩
  · obtain ⟨p, hp⟩ := Option.ne_none_iff_exists'.mp hp
    obtain rfl : p = q := by simpa [hq] using (h.kept p hp).symm
    exact ⟨by simp [Host.restore, hp, h.fresh], by simp [Host.restore, hp]⟩

theorem Host.Inv.importFrom (h : w.Inv) : (w.netsh fw c .importFrom).Inv := by
  rw [Host.netsh]
  split
  · next q hb _ => exact h.restore hb
  · exact ⟨h.fresh, h.kept⟩

/-- The operations that neither write the backup nor look for it. -/
def FwOp.Calls {β : Type} : FwOp β → Prop
  | .netsh .exportTo | .netsh .importFrom | .backupExists | .removeBackup | .createParentDir =>
    False
  | _ => True

theorem Host.Inv.calls {β : Type} {o : FwOp β} (h : w.Inv ∧ w.Begun) (ho : o.Calls) :
    (perform fw o w c).2.Inv ∧ (perform fw o w c).2.Begun := by
  cases o with
  | netsh cmd =>
    cases cmd with
    | exportTo | importFrom => exact ho.elim
    | reset =>
      simp only [perform, Host.netsh, beginIsolation_of_begun h.2]
      exact ⟨h.1.set _, h.2⟩
    | stateOn | firewallPolicy policy | addRule suffix dir scope => exact ⟨h.1.set _, h.2⟩
  | resolveHostToIpv4 host | now => exact h
  | backupExists | removeBackup | createParentDir => exact ho.elim

/-! ### Parts of the commands -/

/-- The calls of a list of planned steps, from the first on. -/
theorem all_runAll {ps : List Planned}
    (hps : ∀ cmd, Planned.netsh cmd ∈ ps → cmd ≠ .exportTo ∧ cmd ≠ .importFrom) :
    All FwOp.Calls (runAll path ps) := by
  induction ps with
  | nil => trivial
  | cons p ps ih =>
    have htail := ih fun cmd hcmd => hps cmd (List.mem_cons_of_mem p hcmd)
    cases p with
    | step name => exact htail.bind fun _ => trivial
    | netsh cmd =>
      refine ⟨?_, fun out => htail.bind fun _ => trivial⟩
      obtain ⟨hexport, himport⟩ := hps cmd List.mem_cons_self
      cases cmd with
      | exportTo => exact hexport rfl
      | importFrom => exact himport rfl
      | _ => trivial

theorem keeping_of_calls {α : Type} {p : Prog FwOp α} (hp : All FwOp.Calls p)
    (h : w.Inv ∧ w.Begun) : keeping fw p (fun _ w => w.Inv ∧ w.Begun) w := by
  refine wp_of_all (φ := FwOp.Calls) hp (fun v v' hv he => ?_) (fun v hv => hv.1)
    (fun o v c ho _ hv => Host.Inv.calls hv ho) h
  refine ⟨hv.1.edited he, fun hi => ?_⟩
  rw [he.preIsolation]
  exact hv.2 (he.isolating.symm.trans hi)

theorem wp_resolveAll {hosts : List String} (h : w.Inv ∧ w.isolating = true) :
    keeping fw (resolveAll hosts) (fun _ w => w.Inv ∧ w.isolating = true) w := by
  refine wp_of_all (φ := fun o => ∀ (v : Host P) c, (perform fw o v c).2 = v) ?_
    (fun v v' hv he => ⟨hv.1.edited he, he.isolating.trans hv.2⟩) (fun v hv => hv.1)
    (fun o v c ho _ hv => by rwa [ho v c]) h
  induction hosts with
  | nil => trivial
  | cons host hosts ih =>
    simp only [resolveAll, call_bind]
    refine ⟨fun _ _ => rfl, fun ip => All.bind ih fun r => ?_⟩
    cases ip <;> trivial

/-- The backup step leaves the policy saved: it was found in the file, or is written there. -/
theorem wp_saveBackup (h : w.Inv ∧ w.isolating = true) :
    keeping fw (saveBackup path) (fun _ => Host.Saved) w := by
  have hstable : ∀ v v' : Host P, v.Inv ∧ v.isolating = true → Edited v v' →
      v'.Inv ∧ v'.isolating = true :=
    fun v v' hv he => ⟨hv.1.edited he, he.isolating.trans hv.2⟩
  simp only [saveBackup, call_bind, pure_eq]
  refine wp_op_of_stable h hstable (fun v hv => hv.1) fun v c hv hok => ?_
  obtain ⟨htruthful, hfresh⟩ := hok
  by_cases hfound : (c.ok && decide (v.backup ≠ .absent)) = true
  · simp only [perform, hfound, if_true]
    refine fun v' he => Host.Saved.edited ⟨hv.1, hv.2, fun hp => ?_⟩ he
    rw [Bool.and_eq_true, decide_eq_true_eq] at hfound
    exact (hfresh hv.2 hp hfound.1).resolve_left hfound.2
  · -- a file that is not seen is not there, and then no isolation is in progress
    have hnone : v.preIsolation = none := by
      by_contra hp
      obtain ⟨p, hp'⟩ := Option.ne_none_iff_exists'.mp hp
      simp [htruthful hp, hv.1.kept p hp'] at hfound
    rw [Bool.not_eq_true] at hfound
    simp only [perform, hfound, Bool.false_eq_true, if_false]
    have hidle : ∀ u u' : Host P, (u.Inv ∧ u.isolating = true) ∧ u.preIsolation = none →
        Edited u u' → (u'.Inv ∧ u'.isolating = true) ∧ u'.preIsolation = none :=
      fun u u' hu he => ⟨hstable u u' hu.1 he, he.preIsolation.trans hu.2⟩
    refine wp_op_of_stable ⟨hv, hnone⟩ hidle (fun u hu => hu.1.1) fun u c hu _ => ?_
    refine wp_op_of_stable hu hidle (fun u hu => hu.1.1) fun u c hu hok => ?_
    have hwritten : ((perform fw (.netsh .exportTo) u c).2).Saved := by
      refine ⟨⟨hu.1.1.fresh, fun p hp => ?_⟩, hu.1.2, fun _ => ?_⟩
      · exact absurd (hu.2.symm.trans hp) (by simp)
      · simp [perform, Host.netsh, hok rfl]
    exact fun u' he => hwritten.edited he

/-- The reset: what it replaces is in the file. -/
theorem Host.Saved.reset (h : w.Saved) :
    (w.netsh fw c .reset).Inv ∧ (w.netsh fw c .reset).Begun := by
  by_cases hp : w.preIsolation = none
  · have hbegin : w.beginIsolation = { w with preIsolation := some w.live } :=
      if_pos ⟨h.isolating, hp⟩
    have hinv : Host.Inv { w with preIsolation := some w.live } := by
      refine ⟨h.inv.fresh, fun p hp' => ?_⟩
      obtain rfl : w.live = p := Option.some.inj hp'
      exact h.saved hp
    simp only [Host.netsh, hbegin]
    exact ⟨hinv.set _, fun _ => Option.some_ne_none _⟩
  · have hbegun : w.Begun := fun _ => hp
    simp only [Host.netsh, beginIsolation_of_begun hbegun]
    exact ⟨h.inv.set _, hbegun⟩

theorem wp_isolationScript {ips : List String} (h : w.Saved) :
    keeping fw (runAll path (isolationScript ips)) (fun _ w => w.Inv ∧ w.Begun) w := by
  have hrest : ∀ ps, isolationScript ips = .step "reset" :: .netsh .reset :: ps →
      keeping fw (runAll path (isolationScript ips)) (fun _ w => w.Inv ∧ w.Begun) w := by
    intro ps hps
    rw [hps]
    simp only [runAll, call_bind, pure_eq]
    refine wp_op_of_stable h (fun v v' hv he => hv.edited he) (fun v hv => hv.inv)
      fun v c hv _ => ?_
    have hcalls : All FwOp.Calls (runAll path ps) := all_runAll fun cmd hcmd => by
      have hmem : Planned.netsh cmd ∈ isolationScript ips := by simp [hps, hcmd]
      by_cases hips : ips = [] <;>
        simp [isolationScript, hips, Netsh.addAllow, Netsh.addDhcp] at hmem <;>
        rcases hmem with rfl | rfl | rfl | rfl | rfl | rfl | rfl | rfl | rfl <;> simp
    refine keeping_of_calls (All.bind (All.bind hcalls ?_) ?_) hv.reset <;> exact fun _ => trivial
  exact hrest _ rfl

theorem wp_executeIsolate {payload : Json} (h : w.Inv ∧ w.isolating = true) :
    keeping fw (executeIsolate path payload) (fun _ w => w.Inv) w := by
  rw [executeIsolate]
  refine wp_bind.mpr (wp_mono (fun r v hv => ?_) (wp_resolveAll h))
  refine wp_bind.mpr (wp_mono (fun backup v hv => ?_) (wp_saveBackup hv))
  refine wp_bind.mpr (wp_mono (fun calls v hv => ?_) (wp_isolationScript hv))
  refine wp_mono (fun _ v hv => hv.1) (keeping_of_calls ?_ hv)
  exact ⟨trivial, fun _ => trivial⟩

/-- The operations of an unisolate. -/
def FwOp.Restores {β : Type} : FwOp β → Prop
  | .netsh cmd => cmd ≠ .exportTo
  | _ => True

theorem Host.Inv.restores {β : Type} {o : FwOp β} (h : w.Inv ∧ w.isolating = false)
    (ho : o.Restores) (hok : OpOk o w c) :
    (perform fw o w c).2.Inv ∧ (perform fw o w c).2.isolating = false := by
  cases o with
  | netsh cmd =>
    cases cmd with
    | exportTo => exact absurd rfl ho
    | importFrom =>
      have hinv : (w.netsh fw c .importFrom).Inv := h.1.importFrom
      refine ⟨hinv, ?_⟩
      simp only [perform, Host.netsh]
      split <;> exact h.2
    | reset =>
      have hbegun : w.Begun := fun hi => absurd (h.2.symm.trans hi) Bool.false_ne_true
      simp only [perform, Host.netsh, beginIsolation_of_begun hbegun]
      exact ⟨h.1.set _, h.2⟩
    | stateOn | firewallPolicy policy | addRule suffix dir scope => exact ⟨h.1.set _, h.2⟩
  | removeBackup =>
    simp only [perform]
    split_ifs with hc
    · refine ⟨⟨h.1.fresh, fun p hp => ?_⟩, h.2⟩
      exact absurd ((hok hc.1).symm.trans hp) (Option.some_ne_none p).symm
    · exact h
  | resolveHostToIpv4 host | now | backupExists | createParentDir => exact h

theorem all_executeUnisolate : All FwOp.Restores (executeUnisolate path) := by
  simp only [executeUnisolate, restoreBackup, call_bind]
  refine All.bind ⟨trivial, fun found => ?_⟩ fun actions => ⟨trivial, fun _ => trivial⟩
  cases found with
  | true => exact ⟨by simp [FwOp.Restores], fun out => ⟨trivial, fun removed => trivial⟩⟩
  | false => simp [runAll, All, FwOp.Restores]

theorem wp_executeUnisolate (h : w.Inv ∧ w.isolating = false) :
    keeping fw (executeUnisolate path) (fun _ w => w.Inv) w :=
  wp_mono (fun _ _ hv => hv.1) (wp_of_all all_executeUnisolate
    (fun _ _ hv he => ⟨hv.1.edited he, he.isolating.trans hv.2⟩) (fun _ hv => hv.1)
    (fun _ _ _ ho hok hv => Host.Inv.restores hv ho hok) h)

/-! ### Runs -/

/-- Whatever command runs, what is left of it is safe. -/
structure ExecutorInv (fw : Firewall P) (s : Executor P) : Prop where
  inv : s.host.Inv
  running : ∀ p, s.running = some p → keeping fw p (fun _ w => w.Inv) s.host

theorem inv_of_keeping {α : Type} {p : Prog FwOp α} (h : keeping fw p (fun _ w => w.Inv) w) :
    w.Inv := by
  cases p with
  | pure a => exact wp_result h
  | op o k => exact wp_cut h

theorem ExecutorInv.step {s t : Executor P} {l : Executor.Label P} (h : ExecutorInv fw s)
    (hok : StepOk s l) (hst : s.step fw path l = some t) : ExecutorInv fw t := by
  obtain ⟨host, running⟩ := s
  cases l with
  | isolate payload =>
    simp only [Executor.step] at hst
    split at hst
    · obtain rfl := Option.some.inj hst
      have hinv : Host.Inv { host with isolating := true } := ⟨h.inv.fresh, h.inv.kept⟩
      refine ⟨hinv, fun p hp => ?_⟩
      obtain rfl := Option.some.inj hp
      exact wp_executeIsolate ⟨hinv, rfl⟩
    · cases hst
  | unisolate =>
    simp only [Executor.step] at hst
    split at hst
    · obtain rfl := Option.some.inj hst
      have hinv : Host.Inv { host with isolating := false } := ⟨h.inv.fresh, h.inv.kept⟩
      refine ⟨hinv, fun p hp => ?_⟩
      obtain rfl := Option.some.inj hp
      exact wp_executeUnisolate ⟨hinv, rfl⟩
    · cases hst
  | op c =>
    match running with
    | none | some (.pure a) => simp [Executor.step] at hst
    | some (.op o k) =>
      obtain rfl := Option.some.inj hst
      have hk := wp_next (h.running _ rfl) (show OpOk o host c from hok)
      refine ⟨inv_of_keeping hk, fun p hp => ?_⟩
      obtain rfl := Option.some.inj hp
      exact hk
  | done =>
    simp only [Executor.step] at hst
    split at hst
    · obtain rfl := Option.some.inj hst
      exact ⟨h.inv, by simp⟩
    · cases hst
  | crash =>
    obtain rfl := Option.some.inj hst
    exact ⟨h.inv, by simp⟩
  | edit policy =>
    obtain rfl := Option.some.inj hst
    refine ⟨⟨h.inv.fresh, h.inv.kept⟩, fun p hp => wp_rely (h.running p hp) ?_⟩
    refine ⟨rfl, rfl, rfl, rfl, fun hi hp' hb => absurd (hok ?_ hi hp') hb⟩
    exact Option.isSome_iff_exists.mpr ⟨p, hp⟩

/-- **Isolation keeps the policy.** In a run whose steps all meet the condition, whatever else
fails, wherever commands are cut and however often they are repeated, the policy that an
isolation replaced is in force or in the backup file until it has been restored, and no import
brings back another. -/
theorem safe_of_along (fw : Firewall P) (path : String) (live : P) (backup : Backup P)
    (ls : List (Executor.Label P)) (s : Executor P)
    (ha : Along (Executor.step fw path) StepOk (.start live backup) ls)
    (hr : run (Executor.step fw path) (.start live backup) ls = some s) : s.host.Safe := by
  have hstart : ExecutorInv fw (.start live backup) :=
    ⟨⟨rfl, fun _ hp => by cases hp⟩, fun _ hp => by cases hp⟩
  exact (invariant_of_along (fun _ _ _ h hok hst => h.step hok hst) hstart ha hr).inv.safe

/-- A policy as the list of the changes made since the reset, with the hosts let through. -/
def smallFirewall : Firewall (List String) where
  reset := []
  stateOn p := p
  firewallPolicy policy p := policy :: p
  addRule args p := args.getLastD "" :: p

/-- An isolate on which everything succeeds. -/
def isolateRun : List (Executor.Label (List String)) :=
  .isolate (.object []) :: List.replicate 11 (.op {}) ++ [.done]

theorem isolateRun_keeps : ∃ s,
    run (Executor.step smallFirewall (isolationBackupPath none)) (.start ["web"] .absent)
        (isolateRun ++ .unisolate :: List.replicate 4 (.op {})) = some s ∧ s.host.Safe :=
  ⟨_, rfl, safe_of_along smallFirewall (isolationBackupPath none) ["web"] .absent
    (isolateRun ++ .unisolate :: List.replicate 4 (.op {})) _ (by decide) rfl⟩

/-- The import fails, and the backup is removed. -/
def failedImport : List (Executor.Label (List String)) :=
  isolateRun ++ [.unisolate, .op {}, .op { output := .exited false (.number "1") "" "" }, .op {}]

/-- **A failed import loses the policy.** -/
theorem lost_by_failed_import : ∃ s,
    run (Executor.step smallFirewall (isolationBackupPath none)) (.start ["web"] .absent)
        failedImport = some s ∧
      s.host.preIsolation = some ["web"] ∧ s.host.backup = .absent ∧ s.host.live ≠ ["web"] ∧
      ¬ s.host.Safe := by
  refine ⟨_, rfl, rfl, rfl, by decide, fun h => ?_⟩
  exact absurd (h.1 ["web"] rfl) (by decide)

end Control

end WazabiAgent
