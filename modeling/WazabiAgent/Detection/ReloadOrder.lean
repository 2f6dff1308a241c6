import WazabiAgent.Detection.HotReload

/-!
# The order of reloads

A tick of the reload thread and a forced reload may overlap. Each of the two reads the files and
then installs what it has parsed, and nothing keeps the one that has read first from installing
last. The engine that it installs may then be older than the one that it replaces.

An engine is older than another if some file was read for it in an earlier version. `Forward` says
that no engine is older than one before it, so that the one in force is built from the newest
versions that any engine was built from.

## Main results

* `Order.step` — what a parse reads is no older than what was installed before it began
* `forward_iff_along` — no engine is older than one before it, exactly if no parse is overtaken
* `overtaken_goes_back` — a reload thread that is slow
-/

namespace WazabiAgent

namespace Detection

namespace RuleSystem

open LabelledStep

/-- No file was read in an earlier version the second time. -/
def NotOlder (before after : List Read) : Prop :=
  ∀ x ∈ before, ∀ y ∈ after, x.path = y.path → x.version ≤ y.version

instance (before after : List Read) : Decidable (NotOlder before after) :=
  inferInstanceAs
    (Decidable (∀ x ∈ before, ∀ y ∈ after, x.path = y.path → x.version ≤ y.version))

variable {R : Type}

/-- The engines, newest first. -/
def engines (s : RuleSystem R) : List (Engine R) := s.engine.toList ++ s.replaced

/-- No engine is older than one before it. -/
def Forward (s : RuleSystem R) : Prop :=
  s.engines.Pairwise fun after before => NotOlder before.reads after.reads

instance (s : RuleSystem R) : Decidable s.Forward := by
  unfold Forward
  infer_instance

/-- The condition: a parse installs its engine only if of no file that it has read a later version
was read for an engine that has been installed since it began. -/
def NotOvertaken (s : RuleSystem R) : Label → Prop
  | .parse c => ∀ r ∈ s.running c, r.succeeds = true →
      ∀ e ∈ r.meanwhile, NotOlder e.reads r.reads
  | _ => True

instance (s : RuleSystem R) : (l : Label) → Decidable (s.NotOvertaken l)
  | .parse c => inferInstanceAs (Decidable (∀ r ∈ s.running c, r.succeeds = true →
      ∀ e ∈ r.meanwhile, NotOlder e.reads r.reads))
  | .edit _ _ | .firstFingerprint | .tick | .forceReload => isTrue trivial

variable {parser : RuleParser R} {rulesPath : String} {s t : RuleSystem R} {l : Label}

/-- Nothing has been read that is not there yet. -/
def Seen (s : RuleSystem R) (reads : List Read) : Prop :=
  ∀ x ∈ reads, x.version ≤ s.edits x.path

/-- What a parse reads is no older than what was installed before it began. -/
structure Order (s : RuleSystem R) : Prop where
  running : ∀ c r, s.running c = some r → s.Seen r.reads
  meanwhile : ∀ c r, s.running c = some r → ∀ e ∈ r.meanwhile, e ∈ s.engines
  engines : ∀ e ∈ s.engines, s.Seen e.reads
  before : ∀ c r, s.running c = some r →
    ∀ e ∈ s.engines, e ∈ r.meanwhile ∨ NotOlder e.reads r.reads

theorem mem_engines_install {c : Caller} {e e' : Engine R} :
    e' ∈ (s.install c e).engines ↔ e' = e ∨ e' ∈ s.engines := by
  simp [engines, install]

theorem order_start (files : String → Option RuleFile) : (start parser rulesPath files).Order := by
  refine ⟨fun c r hr => ?_, fun c r hr => ?_, by simp [engines, start], by simp [engines, start]⟩
  · obtain rfl := running_start hr
    exact fun x hx => by cases hx
  · obtain rfl := running_start hr
    exact fun e he => by cases he

theorem Seen.edit {reads : List Read} (h : s.Seen reads) (path : String)
    (file : Option RuleFile) : (s.edit path file).Seen reads := by
  intro x hx
  show x.version ≤ Function.update s.edits path (s.edits path + 1) x.path
  rw [Function.update_apply]
  split_ifs with hpath
  · have hseen := h x hx
    rw [hpath] at hseen
    omega
  · exact h x hx

theorem Order.call (h : s.Order) (c : Caller) : (s.call parser rulesPath c).Order := by
  refine ⟨fun c' r hr => ?_, fun c' r hr => ?_, h.engines, fun c' r hr e he => ?_⟩
  · rcases running_call hr with ⟨-, rfl⟩ | hr
    · exact fun x hx => by cases hx
    · exact h.running c' r hr
  · rcases running_call hr with ⟨-, rfl⟩ | hr
    · exact fun e he => by cases he
    · exact h.meanwhile c' r hr
  · rcases running_call hr with ⟨-, rfl⟩ | hr
    · exact .inr fun x _ y hy => by cases hy
    · exact h.before c' r hr e he

/-- A file is read as it is now, later than all that has been installed. -/
theorem Order.read (h : s.Order) {c : Caller} {r : Parse R} (hrun : s.running c = some r)
    (path : String)
    (rest : Option (List UInt8) → Prog (Lookup String (Option (List UInt8))) (Except String R)) :
    (s.read c r path rest).Order := by
  refine ⟨fun c' r' hr' => ?_, fun c' r' hr' => ?_, h.engines, fun c' r' hr' e he => ?_⟩
  · rcases running_read hr' with ⟨rfl, rfl⟩ | hr'
    · intro x hx
      rcases List.mem_append.mp hx with hx | hx
      · exact h.running _ r hrun x hx
      · obtain rfl := List.mem_singleton.mp hx
        exact Nat.le_refl _
    · exact h.running c' r' hr'
  · rcases running_read hr' with ⟨rfl, rfl⟩ | hr'
    · exact h.meanwhile _ r hrun
    · exact h.meanwhile c' r' hr'
  · rcases running_read hr' with ⟨rfl, rfl⟩ | hr'
    · refine (h.before _ r hrun e he).imp_right fun hbefore x hx y hy hpath => ?_
      rcases List.mem_append.mp hy with hy | hy
      · exact hbefore x hx y hy hpath
      · obtain rfl := List.mem_singleton.mp hy
        have hpath' : x.path = path := hpath
        have hseen := h.engines e he x hx
        rw [hpath'] at hseen
        exact hseen
    · exact h.before c' r' hr' e he

/-- The other parses know of the installation. -/
theorem Order.install (h : s.Order) {c : Caller} {r : Parse R} (hrun : s.running c = some r)
    (rules : R) : (s.install c ⟨rules, r.reads⟩).Order := by
  refine ⟨fun c' r' hr' => ?_, fun c' r' hr' e he => ?_, fun e he => ?_,
    fun c' r' hr' e he => ?_⟩
  · obtain ⟨r'', hr'', rfl⟩ := running_install hr'
    exact h.running c' r'' hr''
  · obtain ⟨r'', hr'', rfl⟩ := running_install hr'
    rcases List.mem_cons.mp he with rfl | he
    · exact mem_engines_install.mpr (.inl rfl)
    · exact mem_engines_install.mpr (.inr (h.meanwhile c' r'' hr'' e he))
  · rcases mem_engines_install.mp he with rfl | he
    · exact h.running c r hrun
    · exact h.engines e he
  · obtain ⟨r'', hr'', rfl⟩ := running_install hr'
    rcases mem_engines_install.mp he with rfl | he
    · exact .inl List.mem_cons_self
    · exact (h.before c' r'' hr'' e he).imp_left (List.mem_cons_of_mem _)

theorem Order.step (h : s.Order) (hst : s.step parser rulesPath l = some t) : t.Order := by
  cases moves_of_step hst with
  | edit path file =>
    exact ⟨fun c r hr => (h.running c r hr).edit path file, h.meanwhile,
      fun e he => (h.engines e he).edit path file, h.before⟩
  | read hrun hrest => exact h.read hrun _ _
  | install hrun hrest => exact h.install hrun _
  | fail hrun hrest =>
    exact ⟨fun c r hr => h.running c r (running_finish hr),
      fun c r hr => h.meanwhile c r (running_finish hr), h.engines,
      fun c r hr => h.before c r (running_finish hr)⟩
  | firstFingerprint hengine hlast => exact ⟨h.running, h.meanwhile, h.engines, h.before⟩
  | unchanged hlast hidle => exact ⟨h.running, h.meanwhile, h.engines, h.before⟩
  | changed hlast hne hidle =>
    have hcall : (s.call parser rulesPath .poll).Order := h.call .poll
    exact ⟨hcall.running, hcall.meanwhile, hcall.engines, hcall.before⟩
  | forceReload hengine hidle => exact h.call .control

/-- An installation is forward exactly if the engine is not older than any before it. -/
theorem forward_install_iff {c : Caller} {e : Engine R} :
    (s.install c e).Forward ↔
      (∀ e' ∈ s.engines, NotOlder e'.reads e.reads) ∧ s.Forward :=
  List.pairwise_cons

/-- A step goes forward exactly if it meets the condition. -/
theorem forward_step_iff (h : s.Order) (hforward : s.Forward)
    (hst : s.step parser rulesPath l = some t) : t.Forward ↔ s.NotOvertaken l := by
  have hquiet {c : Caller} {r : Parse R} (hrun : s.running c = some r)
      (hrest : r.succeeds = false) : s.NotOvertaken (.parse c) := by
    intro r' hr' hsucceeds
    obtain rfl : r = r' := Option.some.inj (hrun.symm.trans hr')
    rw [hrest] at hsucceeds
    cases hsucceeds
  cases moves_of_step hst with
  | @install c r rules hrun hrest =>
    rw [forward_install_iff, and_iff_left hforward]
    constructor
    · intro hinstall r' hr' _ e he
      obtain rfl : r = r' := Option.some.inj (hrun.symm.trans hr')
      exact hinstall e (h.meanwhile c r hrun e he)
    · intro hcondition e he
      rcases h.before c r hrun e he with hmeanwhile | hbefore
      · exact hcondition r hrun (by rw [Parse.succeeds, hrest]) e hmeanwhile
      · exact hbefore
  | edit path file => exact iff_of_true hforward trivial
  | read hrun hrest => exact iff_of_true hforward (hquiet hrun (by rw [Parse.succeeds, hrest]))
  | fail hrun hrest => exact iff_of_true hforward (hquiet hrun (by rw [Parse.succeeds, hrest]))
  | firstFingerprint hengine hlast => exact iff_of_true hforward trivial
  | unchanged hlast hidle => exact iff_of_true hforward trivial
  | changed hlast hne hidle => exact iff_of_true hforward trivial
  | forceReload hengine hidle => exact iff_of_true hforward trivial

/-- **When reloads never go back.** In a run of edits, ticks and forced reloads, in whatever order
their steps come, no engine is ever replaced by one for which some file was read in an earlier
version, if and only if no parse that has been overtaken installs. -/
theorem forward_iff_along (parser : RuleParser R) (rulesPath : String)
    (files : String → Option RuleFile) (ls : List Label) (s : RuleSystem R)
    (hr : run (step parser rulesPath) (start parser rulesPath files) ls = some s) :
    (∀ ms rest t, ls = ms ++ rest →
        run (step parser rulesPath) (start parser rulesPath files) ms = some t → t.Forward) ↔
      Along (step parser rulesPath) NotOvertaken (start parser rulesPath files) ls :=
  forall_split_iff_along_of (K := Order) (A := fun _ _ => True) (by simp [Forward, engines, start])
    (order_start files) (along_of_forall (fun _ _ => trivial) _ _)
    (fun _ _ _ horder _ hst => horder.step hst)
    (fun _ _ _ horder _ hforward hcondition hst =>
      (forward_step_iff horder hforward hst).mpr hcondition)
    (fun _ _ _ horder _ hforward hst hforward' =>
      (forward_step_iff horder hforward hst).mp hforward') hr

/-! ### Runs -/

/-- The synchronisation writes the included file, and has it reloaded. -/
def synced : List Label :=
  edited "server.waza" [4] 30 :: .forceReload :: wholeParse .control

/-- A tick that reloads, and a synchronisation after it. -/
theorem rootEdited_synced_forward : ∃ s,
    run (step (plainParser "server.waza") "rules.waza")
        (start (plainParser "server.waza") "rules.waza" plainFiles) (rootEdited ++ synced)
      = some s ∧
      s.engines.length = 3 ∧ s.Forward := by
  refine ⟨_, rfl, rfl, ?_⟩
  exact (forward_iff_along (plainParser "server.waza") "rules.waza" plainFiles
    (rootEdited ++ synced) _ rfl).mpr (by decide +kernel) _ [] _ (List.append_nil _).symm rfl

/-- The reload thread has read all files, but parses slowly. -/
def slowReload : List Label :=
  wholeParse .load ++ [Label.firstFingerprint, edited "rules.waza" [3] 20, Label.tick,
    Label.parse .poll, Label.parse .poll] ++ synced

/-- **An engine goes back.** A synchronisation writes the included file and has it reloaded, while
the reload thread still parses what it has read before. When both are done, the engine in force is
that of the old file. -/
theorem overtaken_goes_back :
    (∃ s, run (step (plainParser "server.waza") "rules.waza")
        (start (plainParser "server.waza") "rules.waza" plainFiles) slowReload = some s ∧
      s.engine.map Engine.rules = some [3, 4]) ∧
    ∃ s, run (step (plainParser "server.waza") "rules.waza")
        (start (plainParser "server.waza") "rules.waza" plainFiles)
        (slowReload ++ [Label.parse .poll]) = some s ∧
      (∀ c, s.running c = none) ∧ s.engine.map Engine.rules = some [3, 2] ∧ ¬s.Forward := by
  refine ⟨⟨_, rfl, rfl⟩, _, rfl, ?_, rfl, by decide +kernel⟩
  rintro (_ | _ | _) <;> rfl

end RuleSystem

end Detection

end WazabiAgent
