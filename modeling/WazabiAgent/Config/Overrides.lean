import WazabiAgent.Config.Load

/-!
# What do the overrides of the server do?

An override that is set is meant to be in force, and one that is not is meant to change nothing.
The merge writes the fields that are set into their sections, and to have a section to write into
it creates the four of them first, whether something is set in them or not. What that means depends
on how a section without `enabled` is read:

* a `detection` section without `enabled` is on, so the creation of the section alone turns the
  detection on that `agent.json` has left off;
* an `etw` or a `control` section without `enabled` is off, so an override of one of its fields has
  no effect.

## Main results

* `Config.absentUnchanged_iff` — when absent overrides change nothing
* `Config.inForce_iff` — when the overrides that are set are in force
* `Config.emptyObject_detects`, `Config.etwDns_ignored` — and when not
-/

namespace WazabiAgent

namespace Config

variable {σ φ τ : Type}

/-! ### What is to be shown -/

/-- The overrides that are set by the file. -/
def OverridesFile.overrides (f : OverridesFile) : AgentConfigOverrides := f.decoded.getD {}

open AgentConfigOverrides EtwConfig in
/-- The overrides of the section `etw`, and the settings they are for. -/
def etwFields : List ((AgentConfigOverrides → Option Bool) × (EtwConfig → Bool)) :=
  [(etwDns, dns), (etwTcp, tcp), (etwPowershell, powershell), (etwWmi, wmi),
    (etwSchannel, schannel), (etwAmsi, amsi)]

/-- They differ at most in what the overrides have. -/
structure SameAgent (o : AgentConfigOverrides) (c c' : AgentConfig) : Prop where
  others : { c with consoleOutput := false } = { c' with consoleOutput := false }
  consoleOutput : o.consoleOutput = none → c.consoleOutput = c'.consoleOutput

/-- They differ at most in what the overrides have. -/
structure SameDetection (o : AgentConfigOverrides) (d d' : DetectionConfig) : Prop where
  others : { d with defaultWindow := 0, reloadInterval := 0 } =
    { d' with defaultWindow := 0, reloadInterval := 0 }
  defaultWindow : o.detectionDefaultWindowSecs = none → d.defaultWindow = d'.defaultWindow
  reloadInterval : o.detectionReloadIntervalSecs = none → d.reloadInterval = d'.reloadInterval

/-- They differ at most in what the overrides have. -/
structure SameControl (o : AgentConfigOverrides) (k k' : ControlConfig) : Prop where
  heartbeatInterval : o.heartbeatIntervalSecs = none →
    k.heartbeatInterval = k'.heartbeatInterval
  sendAlerts : o.sendAlerts = none → k.sendAlerts = k'.sendAlerts

/-- Every setting whose own override is absent is the same; whether the detection is on is one of
them, and its override is `detection_enabled`. -/
structure SameSettings (o : AgentConfigOverrides) (c c' : AppConfig τ φ) : Prop where
  shipper : c.shipper = c'.shipper
  filter : c.filter = c'.filter
  polling : c.polling = c'.polling
  agent : SameAgent o c.agent c'.agent
  detectionOn : o.detectionEnabled = none → c.detection.isSome = c'.detection.isSome
  detection : ∀ d ∈ c.detection, ∀ d' ∈ c'.detection, SameDetection o d d'
  controlOn : c.control.isSome = c'.control.isSome
  control : ∀ k ∈ c.control, ∀ k' ∈ c'.control, SameControl o k k'
  etwOn : c.etw.isSome = c'.etw.isSome
  etw : ∀ e ∈ c.etw, ∀ e' ∈ c'.etw, ∀ f ∈ etwFields, f.1 o = none → f.2 e = f.2 e'

/-- There is nothing to merge, or a `detection` section to merge into, or the overrides say
themselves whether the detection is on. -/
def DetectionDecided (file : AgentFile σ φ) (overrides : OverridesFile) : Prop :=
  match file with
  | .parsed p => overrides.decoded = none ∨ p.detection.isSome ∨
      overrides.overrides.detectionEnabled.isSome
  | _ => True

/-- Every override that is set is in force, but for a section that is turned off explicitly. -/
structure InForce (p : ConfigFile σ φ) (o : AgentConfigOverrides) (c : AppConfig τ φ) : Prop where
  consoleOutput : ∀ v ∈ o.consoleOutput, c.agent.consoleOutput = v
  detectionEnabled : ∀ v ∈ o.detectionEnabled, c.detection.isSome = v
  detection : o.detectionEnabled.or (p.detection.bind (·.enabled)) ≠ some false →
    (∀ v ∈ o.detectionDefaultWindowSecs, ∃ d ∈ c.detection, d.defaultWindow = v) ∧
      ∀ v ∈ o.detectionReloadIntervalSecs, ∃ d ∈ c.detection, d.reloadInterval = v
  control : p.control.bind (·.enabled) ≠ some false →
    (∀ v ∈ o.heartbeatIntervalSecs, ∃ k ∈ c.control, k.heartbeatInterval = max v 1) ∧
      ∀ v ∈ o.sendAlerts, ∃ k ∈ c.control, k.sendAlerts = v
  etw : p.etw.bind (·.enabled) ≠ some false →
    ∀ f ∈ etwFields, ∀ v ∈ f.1 o, ∃ e ∈ c.etw, f.2 e = v

/-- A section without a default of its own for `enabled` says whether it is on, if an override of
one of its fields is set. -/
structure SectionsExplicit (p : ConfigFile σ φ) (o : AgentConfigOverrides) : Prop where
  control : o.heartbeatIntervalSecs.isSome ∨ o.sendAlerts.isSome →
    (p.control.bind (·.enabled)).isSome
  etw : (∃ f ∈ etwFields, (f.1 o).isSome) → (p.etw.bind (·.enabled)).isSome

variable {programData : Option String} {resolveShipper : σ → Except String (Option τ)}
  {path : String} {file : AgentFile σ φ} {overrides : OverridesFile} {p : ConfigFile σ φ}
  {o : AgentConfigOverrides} {c : AppConfig τ φ} {shipper : Option τ}

/-! ### The sections after the merge -/

/-- The file after the merge of these overrides. -/
theorem mergeServerOverrides_of_decoded (h : overrides.decoded = some o) :
    mergeServerOverrides p overrides = { p with
      control := some ((p.control.getD {}).override o)
      detection := some ((p.detection.getD {}).override o)
      etw := some ((p.etw.getD {}).override o)
      agent := some ((p.agent.getD {}).override o) } := by
  rw [mergeServerOverrides, h]

theorem shipper_mergeServerOverrides :
    (mergeServerOverrides p overrides).shipper = p.shipper := by
  rw [mergeServerOverrides]
  split <;> rfl

/-- A section that is there is on or off as a whole. -/
theorem map_filter_some {α β : Type} (on : α → Bool) (resolve : α → β) (s : α) :
    ((some s).filter on).map resolve = if on s = true then some (resolve s) else none := by
  rw [Option.filter_some]
  split_ifs <;> rfl

theorem control_of_merge (h : overrides.decoded = some o) :
    (resolveSections programData (mergeServerOverrides p overrides) shipper).control =
      if (p.control.bind (·.enabled)).getD false = true
        then some (resolveControl ((p.control.getD {}).override o)) else none := by
  have henabled : ((p.control.getD {}).override o).enabled = p.control.bind (·.enabled) := by
    cases p.control <;> rfl
  rw [mergeServerOverrides_of_decoded h, ← henabled]
  exact map_filter_some (fun s => s.enabled.getD false) resolveControl _

theorem etw_of_merge (h : overrides.decoded = some o) :
    (resolveSections programData (mergeServerOverrides p overrides) shipper).etw =
      if (p.etw.bind (·.enabled)).getD false = true
        then some (resolveEtw ((p.etw.getD {}).override o)) else none := by
  have henabled : ((p.etw.getD {}).override o).enabled = p.etw.bind (·.enabled) := by
    cases p.etw <;> rfl
  rw [mergeServerOverrides_of_decoded h, ← henabled]
  exact map_filter_some (fun s => s.enabled.getD false) resolveEtw _

theorem detection_of_merge (h : overrides.decoded = some o) :
    (resolveSections programData (mergeServerOverrides p overrides) shipper).detection =
      if (o.detectionEnabled.or (p.detection.bind (·.enabled))).getD true = true
        then some (resolveDetection programData ((p.detection.getD {}).override o))
        else none := by
  have henabled : ((p.detection.getD {}).override o).enabled =
      o.detectionEnabled.or (p.detection.bind (·.enabled)) := by
    cases p.detection <;> rfl
  rw [mergeServerOverrides_of_decoded h, ← henabled]
  exact map_filter_some (fun s => s.enabled.getD true) (resolveDetection programData) _

/-- What is loaded, if anything is. -/
theorem load_parsed_iff : load programData resolveShipper path (.parsed p) overrides = .ok c ↔
    ∃ shipper, (p.shipper.map resolveShipper).getD (.ok none) = .ok shipper ∧
      c = resolveSections programData (mergeServerOverrides p overrides) shipper := by
  simp only [load, shipper_mergeServerOverrides]
  cases (p.shipper.map resolveShipper).getD (.ok none) with
  | error e => simp [bind, Except.bind]
  | ok shipper => simp [bind, Except.bind, pure, Except.pure, eq_comm]

/-! ### What is not set changes nothing -/

theorem sameSettings_refl (o : AgentConfigOverrides) (c : AppConfig τ φ) : SameSettings o c c where
  shipper := rfl
  filter := rfl
  polling := rfl
  agent := ⟨rfl, fun _ => rfl⟩
  detectionOn _ := rfl
  detection d hd d' hd' := by
    obtain rfl := Option.some.inj (hd.symm.trans hd')
    exact ⟨rfl, fun _ => rfl, fun _ => rfl⟩
  controlOn := rfl
  control k hk k' hk' := by
    obtain rfl := Option.some.inj (hk.symm.trans hk')
    exact ⟨fun _ => rfl, fun _ => rfl⟩
  etwOn := rfl
  etw e he e' he' f _ _ := by
    obtain rfl := Option.some.inj (he.symm.trans he')
    rfl

theorem eq_of_isSome_eq {α : Type} {a b : Option α} (h : a.isSome = b.isSome)
    (hall : ∀ x ∈ a, ∀ y ∈ b, x = y) : a = b := by
  cases a with
  | none => exact (Option.isSome_eq_false_iff.mp h.symm |> Option.isNone_iff_eq_none.mp).symm
  | some x =>
    obtain ⟨y, hy⟩ := Option.isSome_iff_exists.mp h.symm
    rw [hall x rfl y hy, hy]

theorem AgentConfig.eq_of_same {a a' : AgentConfig} (h : SameAgent {} a a') : a = a' := by
  obtain ⟨hothers, hconsole⟩ := h
  cases a
  cases a'
  simp_all

theorem DetectionConfig.eq_of_same {d d' : DetectionConfig} (h : SameDetection {} d d') :
    d = d' := by
  obtain ⟨hothers, hwindow, hreload⟩ := h
  cases d
  cases d'
  simp_all

theorem ControlConfig.eq_of_same {k k' : ControlConfig} (h : SameControl {} k k') : k = k' := by
  obtain ⟨hheartbeat, halerts⟩ := h
  cases k
  cases k'
  simp_all

theorem EtwConfig.eq_of_same {e e' : EtwConfig} (h : ∀ f ∈ etwFields, f.2 e = f.2 e') :
    e = e' := by
  cases e
  cases e'
  simpa [etwFields] using h

/-- Where nothing is set, every setting is the same. -/
theorem sameSettings_empty_iff {c c' : AppConfig τ φ} : SameSettings {} c c' ↔ c = c' := by
  constructor
  · intro h
    have hdetection := eq_of_isSome_eq (h.detectionOn rfl) fun d hd d' hd' =>
      DetectionConfig.eq_of_same (h.detection d hd d' hd')
    have hcontrol := eq_of_isSome_eq h.controlOn fun k hk k' hk' =>
      ControlConfig.eq_of_same (h.control k hk k' hk')
    have hetw := eq_of_isSome_eq h.etwOn fun e he e' he' =>
      EtwConfig.eq_of_same fun f hf => h.etw e he e' he' f hf (by
        revert f
        simp [etwFields])
    have hagent := AgentConfig.eq_of_same h.agent
    have hshipper := h.shipper
    have hfilter := h.filter
    have hpolling := h.polling
    cases c
    cases c'
    rw [AppConfig.mk.injEq]
    exact ⟨hagent, hshipper, hfilter, hdetection, hcontrol, hetw, hpolling⟩
  · rintro rfl
    exact sameSettings_refl _ _

theorem sameAgent_override (s : AgentSection) :
    SameAgent o (resolveAgent programData (s.override o)) (resolveAgent programData s) where
  others := rfl
  consoleOutput h := by simp [resolveAgent, AgentSection.override, h]

theorem sameDetection_override (s : DetectionSection) : SameDetection o
    (resolveDetection programData (s.override o)) (resolveDetection programData s) where
  others := rfl
  defaultWindow h := by simp [resolveDetection, DetectionSection.override, h]
  reloadInterval h := by simp [resolveDetection, DetectionSection.override, h]

theorem sameControl_override (s : ControlSection) :
    SameControl o (resolveControl (s.override o)) (resolveControl s) where
  heartbeatInterval h := by simp [resolveControl, ControlSection.override, h]
  sendAlerts h := by simp [resolveControl, ControlSection.override, h]

theorem sameEtw_override (s : EtwSection) : ∀ f ∈ etwFields, f.1 o = none →
    f.2 (resolveEtw (s.override o)) = f.2 (resolveEtw s) := by
  simp +contextual [etwFields, resolveEtw, EtwSection.override]

theorem control_of_file : (resolveSections programData p shipper).control =
    if (p.control.bind (·.enabled)).getD false = true
      then some (resolveControl (p.control.getD {})) else none := by
  rw [resolveSections]
  cases p.control with
  | none => rfl
  | some s => exact map_filter_some (fun s => s.enabled.getD false) resolveControl s

theorem etw_of_file : (resolveSections programData p shipper).etw =
    if (p.etw.bind (·.enabled)).getD false = true
      then some (resolveEtw (p.etw.getD {})) else none := by
  rw [resolveSections]
  cases p.etw with
  | none => rfl
  | some s => exact map_filter_some (fun s => s.enabled.getD false) resolveEtw s

/-- Here the section has to be there: it is on by default, but no section is not. -/
theorem detection_of_file {s : DetectionSection} (hs : p.detection = some s) :
    (resolveSections programData p shipper).detection =
      if s.enabled.getD true = true then some (resolveDetection programData s) else none := by
  rw [resolveSections]
  rw [hs]
  exact map_filter_some (fun s => s.enabled.getD true) (resolveDetection programData) s

/-- Two sections that are there when they are on. -/
theorem rel_of_on {α : Type} {R : α → α → Prop} {on on' : Bool} {a b : Option α} {x y : α}
    (ha : a = if on = true then some x else none) (hb : b = if on' = true then some y else none)
    (hR : R x y) : ∀ u ∈ a, ∀ v ∈ b, R u v := by
  intro u hu v hv
  rw [ha, Option.mem_ite_none_right] at hu
  rw [hb, Option.mem_ite_none_right] at hv
  obtain rfl := Option.some.inj hu.2
  obtain rfl := Option.some.inj hv.2
  exact hR

theorem isSome_of_on {α : Type} {on : Bool} {a : Option α} {x : α}
    (ha : a = if on = true then some x else none) : a.isSome = on := by
  rw [ha]
  cases on <;> rfl

/-- A section that stays is on after the merge if it was on before. -/
theorem detectionOn_merge (h : overrides.decoded = some o) {s : DetectionSection}
    (hs : p.detection = some s) (hnone : o.detectionEnabled = none) :
    (resolveSections programData (mergeServerOverrides p overrides) shipper).detection.isSome =
      (resolveSections programData p shipper).detection.isSome := by
  rw [isSome_of_on (detection_of_merge h), isSome_of_on (detection_of_file hs), hnone, hs]
  rfl

theorem sameDetection_merge (h : overrides.decoded = some o) :
    ∀ d ∈ (resolveSections programData (mergeServerOverrides p overrides) shipper).detection,
      ∀ d' ∈ (resolveSections programData p shipper).detection, SameDetection o d d' := by
  cases hs : p.detection with
  | none =>
    intro d _ d' hd'
    simp [resolveSections, hs] at hd'
  | some s =>
    refine rel_of_on (detection_of_merge h) (detection_of_file hs) ?_
    rw [hs]
    exact sameDetection_override s

/-- The merge of overrides that leave the detection as it is. -/
theorem sameSettings_merge (h : overrides.decoded = some o)
    (hd : p.detection.isSome ∨ o.detectionEnabled.isSome) :
    SameSettings o (resolveSections programData (mergeServerOverrides p overrides) shipper)
      (resolveSections programData p shipper) where
  shipper := rfl
  filter := by rw [mergeServerOverrides_of_decoded h]; rfl
  polling := by rw [mergeServerOverrides_of_decoded h]; rfl
  agent := by
    rw [mergeServerOverrides_of_decoded h]
    exact sameAgent_override (p.agent.getD {})
  detectionOn hnone := by
    rw [hnone] at hd
    obtain ⟨s, hs⟩ := Option.isSome_iff_exists.mp (hd.resolve_right (by simp))
    exact detectionOn_merge h hs hnone
  detection := sameDetection_merge h
  controlOn := by rw [isSome_of_on (control_of_merge h), isSome_of_on control_of_file]
  control := rel_of_on (control_of_merge h) control_of_file (sameControl_override _)
  etwOn := by rw [isSome_of_on (etw_of_merge h), isSome_of_on etw_of_file]
  etw := rel_of_on (etw_of_merge h) etw_of_file (sameEtw_override _)

/-- The creation of the section alone turns the detection on. -/
theorem detection_created (h : overrides.decoded = some o) (hnone : p.detection = none)
    (ho : o.detectionEnabled = none) :
    (resolveSections programData (mergeServerOverrides p overrides) shipper).detection.isSome =
      true ∧ (resolveSections programData p shipper).detection = none := by
  constructor
  · rw [detection_of_merge h, ho, hnone]
    rfl
  · simp [resolveSections, hnone]

theorem absentUnchanged_of_decided {c₀ : AppConfig τ φ} (hd : DetectionDecided file overrides)
    (h₀ : load programData resolveShipper path file .unreadable = .ok c₀) :
    ∃ c, load programData resolveShipper path file overrides = .ok c ∧
      SameSettings overrides.overrides c c₀ := by
  cases file with
  | parsed p =>
    obtain ⟨shipper, hshipper, rfl⟩ := load_parsed_iff.mp h₀
    refine ⟨_, load_parsed_iff.mpr ⟨shipper, hshipper, rfl⟩, ?_⟩
    have hplain : mergeServerOverrides p .unreadable = p := rfl
    rw [hplain]
    cases ho : overrides.decoded with
    | none =>
      have hsame : mergeServerOverrides p overrides = p := by rw [mergeServerOverrides, ho]
      rw [hsame]
      exact sameSettings_refl _ _
    | some o =>
      have hset : overrides.overrides = o := by rw [OverridesFile.overrides, ho]; rfl
      rw [hset]
      refine sameSettings_merge ho (hset ▸ hd.resolve_left ?_)
      simp [ho]
  | _ => exact ⟨c₀, h₀, sameSettings_refl _ _⟩

/-- The object in which nothing is set. -/
theorem load_of_empty {c₀ : AppConfig τ φ} (hd : DetectionDecided file overrides)
    (hempty : overrides.decoded = some {})
    (h₀ : load programData resolveShipper path file .unreadable = .ok c₀) :
    load programData resolveShipper path file overrides = .ok c₀ := by
  obtain ⟨c, h, hsame⟩ := absentUnchanged_of_decided hd h₀
  have hset : overrides.overrides = {} := by rw [OverridesFile.overrides, hempty]; rfl
  rw [hset] at hsame
  rw [h, sameSettings_empty_iff.mp hsame]

theorem decided_of_absentUnchanged {c c₀ : AppConfig τ φ}
    (h₀ : load programData resolveShipper path file .unreadable = .ok c₀)
    (h : load programData resolveShipper path file overrides = .ok c)
    (hsame : SameSettings overrides.overrides c c₀) : DetectionDecided file overrides := by
  cases file with
  | parsed p =>
    by_contra hnot
    simp only [DetectionDecided, not_or, Option.not_isSome_iff_eq_none] at hnot
    obtain ⟨hdec, hnone, ho⟩ := hnot
    obtain ⟨o, hdec⟩ := Option.ne_none_iff_exists'.mp hdec
    have hset : overrides.overrides = o := by rw [OverridesFile.overrides, hdec]; rfl
    obtain ⟨shipper, -, rfl⟩ := load_parsed_iff.mp h
    obtain ⟨shipper₀, -, rfl⟩ := load_parsed_iff.mp h₀
    have hon := hsame.detectionOn ho
    have hplain : mergeServerOverrides p .unreadable = p := rfl
    rw [(detection_created hdec hnone (hset ▸ ho)).1, hplain,
      (detection_created hdec hnone (hset ▸ ho)).2] at hon
    cases hon
  | _ => trivial

/-- **When absent overrides change nothing.** Where the configuration loads without overrides, it
loads with them, and every setting whose own override is absent is the same, if and only if the
overrides are ignored, `agent.json` is absent or has a section `detection`, or the override
`detection_enabled` is set. -/
theorem absentUnchanged_iff (programData : Option String)
    (resolveShipper : σ → Except String (Option τ)) (path : String) (file : AgentFile σ φ)
    (overrides : OverridesFile) (c₀ : AppConfig τ φ)
    (h₀ : load programData resolveShipper path file .unreadable = .ok c₀) :
    (∃ c, load programData resolveShipper path file overrides = .ok c ∧
      SameSettings overrides.overrides c c₀) ↔ DetectionDecided file overrides :=
  ⟨fun ⟨_, h, hsame⟩ => decided_of_absentUnchanged h₀ h hsame,
    fun hd => absentUnchanged_of_decided hd h₀⟩

/-- A file with a `detection` section, and the object the agent writes when it first
synchronises. -/
theorem emptyObject_unchanged : ∃ c : AppConfig Unit Unit,
    load none (fun _ => .ok none) "agent.json"
      (.parsed { detection := some {} } : AgentFile Unit Unit) (.json (.object [])) = .ok c ∧
    SameSettings (OverridesFile.overrides (.json (.object []))) c
      (resolveSections none ({ detection := some {} } : ConfigFile Unit Unit) none) :=
  (absentUnchanged_iff none (fun _ => .ok none) "agent.json" (.parsed { detection := some {} })
    (.json (.object [])) _ rfl).mpr (Or.inr (Or.inl rfl))

/-- Without that section the same object turns the detection on, which is off without it. -/
theorem emptyObject_detects : ∃ c c₀ : AppConfig Unit Unit,
    decodeOverrides (.object []) = some {} ∧
    load none (fun _ => .ok none) "agent.json" (.parsed {} : AgentFile Unit Unit) .unreadable =
      .ok c₀ ∧
    load none (fun _ => .ok none) "agent.json" (.parsed {} : AgentFile Unit Unit)
      (.json (.object [])) = .ok c ∧
    c₀.detection = none ∧ c.detection.isSome = true ∧
    ¬∃ c : AppConfig Unit Unit,
      load none (fun _ => .ok none) "agent.json" (.parsed {} : AgentFile Unit Unit)
        (.json (.object [])) = .ok c ∧
      SameSettings (OverridesFile.overrides (.json (.object []))) c c₀ := by
  have hdec : decodeOverrides (.object []) = some {} := by decide
  refine ⟨_, _, hdec, rfl, rfl, rfl, rfl, ?_⟩
  rintro ⟨c, h, hsame⟩
  obtain rfl := Except.ok.inj h
  cases hsame.detectionOn rfl

/-! ### What is set is in force -/

theorem consoleOutput_of_merge (hdec : overrides.decoded = some o) : ∀ v ∈ o.consoleOutput,
    (resolveSections programData (mergeServerOverrides p overrides)
      shipper).agent.consoleOutput = v := by
  intro v hv
  rw [mergeServerOverrides_of_decoded hdec]
  simp [resolveSections, resolveAgent, AgentSection.override, Option.mem_def.mp hv]

/-- The overrides of the section `detection` are in force: created or not, it is on by default. -/
theorem detection_inForce (hdec : overrides.decoded = some o) {d : Option DetectionConfig}
    (hd : d = (resolveSections programData (mergeServerOverrides p overrides)
      shipper).detection) :
    (∀ v ∈ o.detectionEnabled, d.isSome = v) ∧
      (o.detectionEnabled.or (p.detection.bind (·.enabled)) ≠ some false →
        (∀ v ∈ o.detectionDefaultWindowSecs, ∃ e ∈ d, e.defaultWindow = v) ∧
          ∀ v ∈ o.detectionReloadIntervalSecs, ∃ e ∈ d, e.reloadInterval = v) := by
  rw [detection_of_merge hdec] at hd
  constructor
  · intro v hv
    rw [hd, Option.mem_def.mp hv]
    cases v <;> rfl
  · intro hon
    have htrue : (o.detectionEnabled.or (p.detection.bind (·.enabled))).getD true = true := by
      cases hor : o.detectionEnabled.or (p.detection.bind (·.enabled)) with
      | none => rfl
      | some v => cases v with
        | true => rfl
        | false => exact absurd hor hon
    rw [if_pos htrue] at hd
    constructor
    · intro v hv
      exact ⟨_, hd, by simp [resolveDetection, DetectionSection.override, Option.mem_def.mp hv]⟩
    · intro v hv
      exact ⟨_, hd, by simp [resolveDetection, DetectionSection.override, Option.mem_def.mp hv]⟩

/-- An override in a section that is off unless it says otherwise: if it is in force where the
section is on, then it is in force at all if and only if the section says whether it is on. -/
theorem override_inForce_iff {α β : Type} {enabled : Option Bool} {s : Option α} {on : α}
    {set : Option β} {P : β → α → Prop}
    (hs : s = if enabled.getD false = true then some on else none) (hon : ∀ v ∈ set, P v on) :
    (enabled ≠ some false → ∀ v ∈ set, ∃ a ∈ s, P v a) ↔ (set.isSome → enabled.isSome) := by
  subst hs
  cases enabled with
  | none =>
    constructor
    · intro h hset
      obtain ⟨v, hv⟩ := Option.isSome_iff_exists.mp hset
      obtain ⟨a, ha, -⟩ := h (by simp) v hv
      cases ha
    · intro h _ v hv
      cases h (Option.isSome_iff_exists.mpr ⟨v, hv⟩)
  | some b =>
    cases b with
    | false => exact iff_of_true (fun h => absurd rfl h) fun _ => rfl
    | true => exact iff_of_true (fun _ v hv => ⟨on, rfl, hon v hv⟩) fun _ => rfl

theorem control_inForce_iff (hdec : overrides.decoded = some o) {k : Option ControlConfig}
    (hk : k = (resolveSections programData (mergeServerOverrides p overrides) shipper).control) :
    (p.control.bind (·.enabled) ≠ some false →
      (∀ v ∈ o.heartbeatIntervalSecs, ∃ k' ∈ k, k'.heartbeatInterval = max v 1) ∧
        ∀ v ∈ o.sendAlerts, ∃ k' ∈ k, k'.sendAlerts = v) ↔
      (o.heartbeatIntervalSecs.isSome ∨ o.sendAlerts.isSome →
        (p.control.bind (·.enabled)).isSome) := by
  rw [control_of_merge hdec] at hk
  rw [imp_and, or_imp]
  refine and_congr (override_inForce_iff hk ?_) (override_inForce_iff hk ?_)
  · intro v hv
    simp [resolveControl, ControlSection.override, Option.mem_def.mp hv]
  · intro v hv
    simp [resolveControl, ControlSection.override, Option.mem_def.mp hv]

/-- An override of `etw` is the setting it is for. -/
theorem etwField_override (s : EtwSection) : ∀ f ∈ etwFields, ∀ v ∈ f.1 o,
    f.2 (resolveEtw (s.override o)) = v := by
  simp +contextual [etwFields, resolveEtw, EtwSection.override]

theorem etw_inForce_iff (hdec : overrides.decoded = some o) {e : Option EtwConfig}
    (he : e = (resolveSections programData (mergeServerOverrides p overrides) shipper).etw) :
    (p.etw.bind (·.enabled) ≠ some false →
      ∀ f ∈ etwFields, ∀ v ∈ f.1 o, ∃ e' ∈ e, f.2 e' = v) ↔
      ((∃ f ∈ etwFields, (f.1 o).isSome) → (p.etw.bind (·.enabled)).isSome) := by
  rw [etw_of_merge hdec] at he
  have hiff : ∀ f ∈ etwFields, (p.etw.bind (·.enabled) ≠ some false →
      ∀ v ∈ f.1 o, ∃ e' ∈ e, f.2 e' = v) ↔
        ((f.1 o).isSome → (p.etw.bind (·.enabled)).isSome) := fun f hf =>
    override_inForce_iff he (etwField_override _ f hf)
  constructor
  · rintro h ⟨f, hf, hset⟩
    exact (hiff f hf).mp (fun hne => h hne f hf) hset
  · intro h hne f hf
    exact (hiff f hf).mpr (fun hset => h ⟨f, hf, hset⟩) hne

/-- **When the overrides that are set are in force.** In what is loaded from a file and an object
of overrides, every override that is set is in force, but for a section that is turned off
explicitly, if and only if the sections `control` and `etw` say whether they are on as soon as an
override of theirs is set. -/
theorem inForce_iff (programData : Option String)
    (resolveShipper : σ → Except String (Option τ)) (path : String) (p : ConfigFile σ φ)
    (overrides : OverridesFile) (o : AgentConfigOverrides) (c : AppConfig τ φ)
    (hdec : overrides.decoded = some o)
    (h : load programData resolveShipper path (.parsed p) overrides = .ok c) :
    InForce p o c ↔ SectionsExplicit p o := by
  obtain ⟨shipper, -, hc⟩ := load_parsed_iff.mp h
  have hcontrol := control_inForce_iff hdec (congrArg AppConfig.control hc)
  have hetw := etw_inForce_iff hdec (congrArg AppConfig.etw hc)
  constructor
  · intro hforce
    exact ⟨hcontrol.mp hforce.control, hetw.mp hforce.etw⟩
  · intro hexplicit
    have hdetection := detection_inForce hdec (congrArg AppConfig.detection hc)
    exact {
      consoleOutput := hc ▸ consoleOutput_of_merge hdec
      detectionEnabled := hdetection.1
      detection := hdetection.2
      control := hcontrol.mpr hexplicit.control
      etw := hetw.mpr hexplicit.etw }

/-- With a section `etw` that is on, `etw_dns` is what it is. -/
theorem etwDns_inForce : InForce ({ etw := some { enabled := some true } } : ConfigFile Unit Unit)
    { etwDns := some false } (resolveSections none
      ({ etw := some { enabled := some true, dns := some false }, control := some {},
         detection := some {}, agent := some {} } : ConfigFile Unit Unit) (none : Option Unit)) :=
  (inForce_iff none (fun _ => .ok none) "agent.json" { etw := some { enabled := some true } }
    (.json (.object [("etw_dns", .bool false)])) { etwDns := some false } _ (by decide) rfl).mpr
    ⟨by simp, fun _ => rfl⟩

/-- Without that section the same object creates it, without `enabled`, and it stays off. -/
theorem etwDns_ignored : ∃ c : AppConfig Unit Unit,
    decodeOverrides (.object [("etw_dns", .bool true)]) = some { etwDns := some true } ∧
    load none (fun _ => .ok none) "agent.json" (.parsed {} : AgentFile Unit Unit)
      (.json (.object [("etw_dns", .bool true)])) = .ok c ∧
    c.etw = none ∧ ¬InForce ({} : ConfigFile Unit Unit) { etwDns := some true } c := by
  have hdec : OverridesFile.decoded (.json (.object [("etw_dns", .bool true)])) =
      some { etwDns := some true } := by decide
  refine ⟨_, hdec, rfl, ?_⟩
  have hnone : (resolveSections none (mergeServerOverrides ({} : ConfigFile Unit Unit)
      (.json (.object [("etw_dns", .bool true)]))) (none : Option Unit)).etw = none := by
    rw [etw_of_merge hdec]
    rfl
  refine ⟨hnone, fun hforce => ?_⟩
  obtain ⟨e, he, -⟩ := hforce.etw (by simp) (AgentConfigOverrides.etwDns, EtwConfig.dns)
    (by simp [etwFields]) true rfl
  rw [hnone] at he
  cases he

end Config

end WazabiAgent
