import WazabiAgent.Lib.Transition
import WazabiAgent.Plugin.Assignment

/-!
# How often a package is enrolled

The server sends an installation with every heartbeat until it has received a report that resolves
it. Which phases do is a matter of the server, so `resolves` is a parameter. The agent keeps no
record of an enrolment of its own: whether the same package is enrolled again depends on what the
server had heard by the time the enrolment was made, which is `installing` and `installed`.

`started`, the report that carries the new id, comes after the enrolment and may be lost.

## Main definitions

* `Rollout`, `Rollout.step` — installations issued, heartbeats, and the machine
* `AtMostOnce` — no more enrolments of a package than installations issued

## Main results

* `atMostOnce_iff` — which servers it holds with
-/

namespace WazabiAgent

namespace Plugin

open Prog LabelledStep

open scoped List

variable {host : PluginHost}

/-! ### One action -/

/-- Not an enrolment. -/
def PluginOp.NoEnroll {β : Type} : PluginOp β → Prop
  | .invokeWedrPlugin _ (.enroll ..) => False
  | _ => True

theorem perform_enrolments {β : Type} {o : PluginOp β} (ho : o.NoEnroll) (m : Machine)
    (c : Choice) :
    (perform host o m c).2.enrolments = m.enrolments := by
  cases o with
  | invokeWedrPlugin pkgId cli =>
    rcases perform_invoke host m pkgId c cli with h | h
    · rw [h]
    · cases cli with
      | enroll path name vendor autoLaunch env => exact ho.elim
      | _ =>
        simp only [Machine.wedrPlugin] at h
        split at h
        · rw [← Option.some.inj h]
          rfl
        · cases h
  | downloadPluginBinary pkgId dest =>
    show (m.download host dest c).2.enrolments = m.enrolments
    obtain ⟨tree, h⟩ := m.download_frame host dest c
    rw [h]
  | downloadPluginExtra pkgId filename dest =>
    show (m.download host dest c).2.enrolments = m.enrolments
    obtain ⟨tree, h⟩ := m.download_frame host dest c
    rw [h]
  | _ => simp only [perform]; repeat' (first | rfl | split)

/-- The server forgets no report. -/
theorem perform_reports (host : PluginHost) {β : Type} (o : PluginOp β) (m : Machine) (c : Choice) :
    m.reports <+: (perform host o m c).2.reports := by
  cases o with
  | reportPluginStatus pkgId r =>
    simp only [perform]
    split_ifs
    · exact List.prefix_append _ _
    · exact List.prefix_append _ _
    · exact List.prefix_refl _
  | invokeWedrPlugin pkgId cli =>
    rcases perform_invoke host m pkgId c cli with h | h
    · rw [h]
    · obtain ⟨manifests, enrolments, h'⟩ := Machine.wedrPlugin_frame h
      rw [h']
  | downloadPluginBinary pkgId dest =>
    show m.reports <+: (m.download host dest c).2.reports
    obtain ⟨tree, h⟩ := m.download_frame host dest c
    rw [h]
  | downloadPluginExtra pkgId filename dest =>
    show m.reports <+: (m.download host dest c).2.reports
    obtain ⟨tree, h⟩ := m.download_frame host dest c
    rw [h]
  | _ => simp only [perform]; repeat' (first | exact List.prefix_refl _ | split)

/-- `enroll` makes one enrolment if it takes effect. -/
theorem perform_enroll (host : PluginHost) (m : Machine) (c : Choice)
    (pkgId path name vendor : String) (autoLaunch : Bool) (env : List (String × String)) :
    let m' :=
      (perform host (.invokeWedrPlugin pkgId (.enroll path name vendor autoLaunch env)) m c).2
    m'.enrolments = m.enrolments ∨ m'.enrolments = m.enrolments ++ [(pkgId, c.id)] := by
  dsimp only
  rcases perform_invoke host m pkgId c
    (.enroll path name vendor autoLaunch env) with h | h
  · exact .inl (congrArg Machine.enrolments h)
  · simp only [Machine.wedrPlugin] at h
    split at h
    · exact .inr (congrArg Machine.enrolments (Option.some.inj h)).symm
    · cases h

/-- The server has received this report. -/
def Reported (m : Machine) (pkgId phase : String) : Prop :=
  ∃ r, (pkgId, r) ∈ m.reports ∧ r.phase = phase

theorem Reported.mono {m m' : Machine} {pkgId phase : String} (h : Reported m pkgId phase)
    (hm : m.reports <+: m'.reports) : Reported m' pkgId phase := by
  obtain ⟨r, hr, hphase⟩ := h
  exact ⟨r, hm.subset hr, hphase⟩

/-- From `w` to `v` at most one enrolment has been made for each of `ids`, and the server had been
told twice before. -/
structure Made (w : Machine) (ids : List String) (v : Machine) : Prop where
  reports : w.reports <+: v.reports
  grown : ∃ new, v.enrolments = w.enrolments ++ new ∧ new.map Prod.fst <+ ids ∧
    ∀ e ∈ new, Reported v e.1 "installing" ∧ Reported v e.1 "installed"

theorem made_refl (w : Machine) (ids : List String) : Made w ids w where
  reports := List.prefix_refl _
  grown := ⟨[], by simp⟩

theorem Made.mono {w v : Machine} {ids ids' : List String} (h : Made w ids v) (hids : ids <+ ids') :
    Made w ids' v := by
  obtain ⟨new, hnew, hsub, htold⟩ := h.grown
  exact ⟨h.reports, new, hnew, hsub.trans hids, htold⟩

theorem Made.trans {w v u : Machine} {ids ids' : List String} (h : Made w ids v)
    (h' : Made v ids' u) : Made w (ids ++ ids') u := by
  obtain ⟨new, hnew, hsub, htold⟩ := h.grown
  obtain ⟨new', hnew', hsub', htold'⟩ := h'.grown
  refine ⟨h.reports.trans h'.reports, new ++ new', ?_, ?_, fun e he => ?_⟩
  · rw [hnew', hnew, List.append_assoc]
  · rw [List.map_append]
    exact hsub.append hsub'
  · rcases List.mem_append.mp he with he | he
    · exact ⟨(htold e he).1.mono h'.reports, (htold e he).2.mono h'.reports⟩
    · exact htold' e he

theorem Made.perform {w v : Machine} {ids : List String} (h : Made w ids v) {β : Type}
    {o : PluginOp β} (ho : o.NoEnroll) (c : Choice) : Made w ids (perform host o v c).2 := by
  obtain ⟨new, hnew, hsub, htold⟩ := h.grown
  have hreports := perform_reports host o v c
  refine ⟨h.reports.trans hreports, new, ?_, hsub, fun e he => ?_⟩
  · rw [perform_enrolments ho, hnew]
  · exact ⟨(htold e he).1.mono hreports, (htold e he).2.mono hreports⟩

theorem keeps_noEnroll {α : Type} {p : Prog PluginOp α} (hp : p.All PluginOp.NoEnroll)
    {w v : Machine} {ids : List String} (h : Made w ids v) :
    Keeps host (Made w ids) p (fun _ => Made w ids) v :=
  wp_of_all hp (fun _ _ hv hvv' => hvv' ▸ hv) (fun _ hv => hv)
    (fun _ _ c ho _ hv => hv.perform ho c) h

/-! ### Programs without an enrolment -/

theorem all_report (pkgId phase version : String) (pluginIdLocal error : Option String) :
    (report pkgId phase version pluginIdLocal error).All PluginOp.NoEnroll := All.call trivial

theorem all_requireInfo (pkgId missing : String) :
    (requireInfo pkgId missing).All PluginOp.NoEnroll :=
  All.andThen (All.mapError (All.call trivial)) fun info => by cases info <;> trivial

theorem all_verifySha (path expectedHex : String) :
    (verifySha host path expectedHex).All PluginOp.NoEnroll := by
  rw [verifySha]
  split_ifs
  · trivial
  · refine All.andThen (All.call trivial) fun actual => ?_
    split_ifs
    · trivial
    · exact (All.call trivial).bind fun _ => trivial

theorem all_replaceFile (dir filename : String) :
    (replaceFile host dir filename).All PluginOp.NoEnroll := by
  refine (All.call trivial).bind fun present => All.andThen ?_ fun _ => ?_
  · cases present with
    | true => exact All.mapError (All.call trivial)
    | false => trivial
  · refine (All.call trivial).bind fun r => ?_
    cases r with
    | ok u => trivial
    | error e => exact (All.call trivial).bind fun _ => trivial

theorem all_downloadAndVerify (pkgId dir filename : String) (isPrimary : Bool) :
    (downloadAndVerify host pkgId dir filename isPrimary).All PluginOp.NoEnroll := by
  rw [downloadAndVerify]
  split
  · trivial
  · refine All.andThen ?_ fun sha => All.andThen (all_verifySha _ _) fun _ => all_replaceFile _ _
    rw [downloadFile]
    split_ifs <;> exact All.mapError (All.call trivial)

theorem all_downloadExtras (pkgId dir : String) (extras : List PluginExtraInfo) :
    (downloadExtras host pkgId dir extras).All PluginOp.NoEnroll := by
  induction extras with
  | nil => trivial
  | cons extra extras ih => exact All.andThen (all_downloadAndVerify _ _ _ _) fun _ => ih

theorem all_downloadAll (pkgId : String) (info : PluginInfoForAgent) :
    (downloadAll host pkgId info).All PluginOp.NoEnroll := by
  rw [downloadAll]
  split
  · trivial
  · exact All.andThen (all_downloadAndVerify _ _ _ _) fun _ =>
      All.andThen (all_downloadExtras _ _ _) fun _ => trivial

theorem all_handleUpdate (action : PendingPluginAction) :
    (handleUpdate host action).All PluginOp.NoEnroll := by
  unfold handleUpdate
  dsimp only
  split
  · trivial
  · refine All.andThen (all_report _ _ _ _ _) fun _ => All.andThen (all_requireInfo _ _) fun info =>
      All.andThen (all_downloadAll _ _) fun _ =>
        All.andThen (All.mapError (All.call trivial)) fun _ =>
          (All.call trivial).bind fun _ => all_report _ _ _ _ _

theorem all_cleanup {φ : {β : Type} → PluginOp β → Prop} (binPath : Option String)
    (h : ∀ path, φ (.removeDirAll path)) : (cleanup binPath).All φ := by
  cases binPath with
  | none => trivial
  | some path =>
    simp only [cleanup]
    split
    · trivial
    · exact (All.call (h _)).bind fun _ => trivial

theorem all_readManifestExpectedPath {φ : {β : Type} → PluginOp β → Prop} (pluginId : String)
    (h : φ (.readManifest pluginId)) : (readManifestExpectedPath host pluginId).All φ := by
  refine All.andThen (All.mapError (All.call h)) fun text => ?_
  split <;> trivial

/-- The operations of a revocation. -/
theorem all_handleRevoke {φ : {β : Type} → PluginOp β → Prop} (action : PendingPluginAction)
    (hread : ∀ pluginId, φ (.readManifest pluginId))
    (hrevoke : ∀ pkgId pluginId, φ (.invokeWedrPlugin pkgId (.revoke pluginId)))
    (hremove : ∀ pkgId pluginId, φ (.invokeWedrPlugin pkgId (.remove pluginId)))
    (hdir : ∀ path, φ (.removeDirAll path))
    (hreport : ∀ pkgId r, φ (.reportPluginStatus pkgId r)) :
    (handleRevoke host action).All φ := by
  unfold handleRevoke
  dsimp only
  split
  · trivial
  · exact (all_readManifestExpectedPath _ (hread _)).bind fun _ =>
      All.andThen (All.mapError (All.call (hrevoke _ _))) fun _ =>
        All.andThen (All.mapError (All.call (hremove _ _))) fun _ =>
          (all_cleanup _ hdir).bind fun _ => All.call (hreport _ _)

/-! ### An installation -/

/-- No enrolment since `w`, and the server has these reports of the package. -/
structure Before (w : Machine) (pkgId : String) (phases : List String) (v : Machine) : Prop where
  reports : w.reports <+: v.reports
  enrolments : v.enrolments = w.enrolments
  told : ∀ phase ∈ phases, Reported v pkgId phase

theorem Before.made {w v : Machine} {pkgId : String} {phases ids : List String}
    (h : Before w pkgId phases v) : Made w ids v where
  reports := h.reports
  grown := ⟨[], by simp [h.enrolments]⟩

theorem Before.perform {w v : Machine} {pkgId : String} {phases : List String}
    (h : Before w pkgId phases v) (host : PluginHost) {β : Type} {o : PluginOp β}
    (ho : o.NoEnroll) (c : Choice) :
    Before w pkgId phases (perform host o v c).2 where
  reports := h.reports.trans (perform_reports host o v c)
  enrolments := by rw [perform_enrolments ho, h.enrolments]
  told phase hphase := (h.told phase hphase).mono (perform_reports host o v c)

/-- A report that is acknowledged has been received. -/
theorem keeps_report {w v : Machine} {pkgId phase version : String} {phases ids : List String}
    {pluginIdLocal error : Option String} (h : Before w pkgId phases v) :
    Keeps host (Made w ids) (report pkgId phase version pluginIdLocal error)
      (fun r u => match r with
        | .ok _ => Before w pkgId (phase :: phases) u
        | .error _ => Made w ids u) v := by
  refine keeps_call h.made fun c => ?_
  have hbefore := h.perform host (o := .reportPluginStatus pkgId {
    phase := phase, version := version, pluginIdLocal := pluginIdLocal, error := error }) trivial c
  cases hok : c.ok with
  | true =>
    simp only [Plugin.perform, hok, if_true] at hbefore ⊢
    exact ⟨hbefore.reports, hbefore.enrolments,
      List.forall_mem_cons.mpr ⟨⟨_, List.mem_append_right _ List.mem_cons_self, rfl⟩, hbefore.told⟩⟩
  | false =>
    simp only [Plugin.perform, hok] at hbefore ⊢
    exact hbefore.made

theorem keeps_before {α : Type} {p : Prog PluginOp α} (hp : p.All PluginOp.NoEnroll)
    {w v : Machine} {pkgId : String} {phases ids : List String} (h : Before w pkgId phases v) :
    Keeps host (Made w ids) p (fun _ => Before w pkgId phases) v :=
  wp_of_all hp (fun _ _ hv hvv' => hvv' ▸ hv) (fun _ hv => hv.made)
    (fun _ _ c ho _ hv => hv.perform host ho c) h

/-- The only place an enrolment is made. -/
theorem keeps_invokeEnroll {w v : Machine} {pkgId binPath : String} {info : PluginInfoForAgent}
    (h : Before w pkgId ["installed", "installing"] v) :
    Keeps host (Made w [pkgId]) (invokeEnroll pkgId binPath info) (fun _ => Made w [pkgId]) v := by
  have henroll (c : Choice) : Made w [pkgId] (perform host (.invokeWedrPlugin pkgId
      (.enroll binPath info.name info.vendor info.autoLaunch info.env)) v c).2 := by
    have hmono := perform_reports host (.invokeWedrPlugin pkgId
      (.enroll binPath info.name info.vendor info.autoLaunch info.env)) v c
    refine ⟨h.reports.trans hmono, ?_⟩
    rcases perform_enroll host v c pkgId binPath info.name info.vendor info.autoLaunch
      info.env with heq | heq
    · exact ⟨[], by simp [heq, h.enrolments]⟩
    · refine ⟨[(pkgId, c.id)], by rw [heq, h.enrolments], List.Sublist.refl _, ?_⟩
      rintro e he
      obtain rfl := List.mem_singleton.mp he
      exact ⟨(h.told _ (by simp)).mono hmono, (h.told _ (by simp)).mono hmono⟩
  rw [invokeEnroll]
  rw [Keeps, wp_andThen, wp_mapError]
  refine keeps_call h.made fun c => ?_
  generalize (perform host (.invokeWedrPlugin pkgId
    (.enroll binPath info.name info.vendor info.autoLaunch info.env)) v c).1 = r
  cases r with
  | error e => exact henroll c
  | ok stdout =>
    simp only [Except.mapError]
    split <;> exact keeps_pure (henroll c)

theorem keeps_handleInstall (host : PluginHost) (action : PendingPluginAction) (w : Machine) :
    Keeps host (Made w [action.pluginPackageId]) (handleInstall host action)
      (fun _ => Made w [action.pluginPackageId]) w := by
  have hstart : Before w action.pluginPackageId [] w := ⟨List.prefix_refl _, rfl, by simp⟩
  unfold handleInstall
  dsimp only
  rw [Keeps, wp_andThen]
  refine wp_mono (fun r v hv => ?_) (keeps_report hstart)
  cases r with
  | error e => exact hv
  | ok _ =>
    dsimp only at hv ⊢
    rw [wp_andThen]
    refine wp_mono (fun r v hv => ?_) (keeps_before (all_requireInfo _ _) hv)
    cases r with
    | error e => exact hv.made
    | ok info =>
      dsimp only
      rw [wp_andThen]
      refine wp_mono (fun r v hv => ?_) (keeps_before (all_downloadAll _ _) hv)
      cases r with
      | error e => exact hv.made
      | ok binPath =>
        dsimp only
        rw [wp_andThen]
        refine wp_mono (fun r v hv => ?_) (keeps_report hv)
        cases r with
        | error e => exact hv
        | ok _ =>
          dsimp only at hv ⊢
          rw [wp_andThen]
          refine wp_mono (fun r v hv => ?_) (keeps_invokeEnroll hv)
          cases r with
          | error e => exact hv
          | ok id => exact keeps_noEnroll (all_report _ _ _ _ _) hv

/-! ### A batch -/

/-- The packages to be installed. -/
def installs (actions : List PendingPluginAction) : List String :=
  (actions.filter fun a => a.action = "install").map PendingPluginAction.pluginPackageId

theorem keeps_handle {action : PendingPluginAction} {handler : Prog PluginOp (Except String Unit)}
    (h : handle host action = some handler) (w : Machine) :
    Keeps host (Made w (installs [action])) handler (fun _ => Made w (installs [action])) w := by
  rw [handle] at h
  split_ifs at h with hinstall hupdate hrevoke
  · obtain rfl := Option.some.inj h
    simpa [installs, hinstall] using keeps_handleInstall host action w
  · obtain rfl := Option.some.inj h
    exact keeps_noEnroll (all_handleUpdate action) (made_refl w _)
  · obtain rfl := Option.some.inj h
    exact keeps_noEnroll (all_handleRevoke action (fun _ => trivial) (fun _ _ => trivial)
      (fun _ _ => trivial) (fun _ => trivial) fun _ _ => trivial) (made_refl w _)

theorem keeps_processAction (action : PendingPluginAction) (w : Machine) :
    Keeps host (Made w (installs [action])) (processAction host action)
      (fun _ => Made w (installs [action])) w := by
  have : IsPreorder Machine Eq := {}
  rw [processAction]
  split
  · exact keeps_pure (made_refl w _)
  · next handler hhandler =>
    refine wp_bind.mpr (wp_mono (fun r v hv => ?_) (keeps_handle hhandler w))
    cases r with
    | ok _ => exact keeps_pure hv
    | error e =>
      refine keeps_noEnroll (All.bind (all_report _ _ _ _ _) fun _ => ?_) hv
      trivial

theorem installs_cons (action : PendingPluginAction) (actions : List PendingPluginAction) :
    installs (action :: actions) = installs [action] ++ installs actions := by
  by_cases h : action.action = "install" <;> simp [installs, h]

theorem keeps_processAll (actions : List PendingPluginAction) (w : Machine) :
    Keeps host (Made w (installs actions)) (processAll host actions)
      (fun _ => Made w (installs actions)) w := by
  have : IsPreorder Machine Eq := {}
  induction actions generalizing w with
  | nil => exact keeps_pure (made_refl w _)
  | cons action actions ih =>
    rw [installs_cons]
    have hleft : installs [action] <+ installs [action] ++ installs actions :=
      List.sublist_append_left _ _
    refine wp_bind.mpr (wp_mono (fun _ v hv => ?_)
      (wp_mono_cut (fun _ h => h.mono hleft) (keeps_processAction action w)))
    exact wp_mono (fun _ _ hu => hv.trans hu) (wp_mono_cut (fun _ hu => hv.trans hu) (ih v))

theorem toProcess_sublist (inFlight : List String) (actions : List PendingPluginAction) :
    toProcess inFlight actions <+ actions := by
  induction actions generalizing inFlight with
  | nil => exact List.Sublist.refl _
  | cons action actions ih =>
    rw [toProcess]
    split_ifs
    · exact (ih inFlight).cons action
    · exact (ih _).cons_cons action

/-- What is processed once the machine is cut anywhere: an enrolment at most for each installation
that is pending. -/
theorem made_exec (host : PluginHost) (w : Machine) (actions : List PendingPluginAction)
    (cs : List Choice) :
    Made w (installs actions)
      (exec (perform host) (processPendingPlugins host actions) w cs).2 := by
  have hsub : installs (toProcess [] actions) <+ installs actions :=
    ((toProcess_sublist [] actions).filter _).map _
  exact wp_exec (wp_mono (fun _ _ h => h.mono hsub)
    (wp_mono_cut (fun _ h => h.mono hsub) (keeps_processAll (toProcess [] actions) w))) cs

/-! ### The server -/

/-- The installations of a server, and the machine. -/
structure Rollout where
  /-- Installations that no report has resolved. -/
  pending : List PendingPluginAction := []
  /-- The packages of the installations so far. -/
  issued : List String := []
  machine : Machine := {}

namespace Rollout

/-- What happens next. -/
inductive Label
  | issue (action : PendingPluginAction)
  /-- A heartbeat that is answered. The response has all that is pending, among other actions. -/
  | heartbeat (catalog : String → Option PluginInfoForAgent) (actions : List PendingPluginAction)
    (cs : List Choice)

/-- The report is one that resolves the installation. -/
def isResolved (resolves : String → Bool) (m : Machine) (pkgId : String) : Bool :=
  m.reports.any fun r => r.1 = pkgId && resolves r.2.phase

/-- The machine after a heartbeat; `reports` are those of this heartbeat. -/
def beat (host : PluginHost) (m : Machine) (catalog : String → Option PluginInfoForAgent)
    (actions : List PendingPluginAction) (cs : List Choice) : Machine :=
  (exec (perform host) (processPendingPlugins host actions)
    { m with catalog := catalog, reports := [] } cs).2

/-- One step of the server or of a heartbeat. -/
def step (resolves : String → Bool) (host : PluginHost) (s : Rollout) : Label → Option Rollout
  | .issue action =>
    if action.action = "install" ∧
        action.pluginPackageId ∉ s.pending.map PendingPluginAction.pluginPackageId then
      some { s with
        pending := s.pending ++ [action]
        issued := s.issued ++ [action.pluginPackageId] }
    else none
  | .heartbeat catalog actions cs =>
    if actions.filter (fun a => a.action = "install") = s.pending then
      let m := beat host s.machine catalog actions cs
      some { s with
        pending := s.pending.filter fun a => !isResolved resolves m a.pluginPackageId
        machine := m }
    else none

/-- Any machine, before the first installation. -/
def start (m : Machine) : Rollout where
  machine := { m with enrolments := [] }

/-- How often `enroll` has succeeded for a package. -/
def enrolled (s : Rollout) (pkgId : String) : ℕ :=
  (s.machine.enrolments.map Prod.fst).count pkgId

/-- Every package is enrolled at most as often as its installation is issued. -/
def AtMostOnce (resolves : String → Bool) : Prop :=
  ∀ (host : PluginHost) (m : Machine) (ls : List Label) (s : Rollout),
    run (step resolves host) (start m) ls = some s →
      ∀ pkgId, s.enrolled pkgId ≤ s.issued.count pkgId

/-! ### Where it holds -/

/-- What is pending is still to be enrolled. -/
structure Inv (s : Rollout) : Prop where
  nodup : (s.pending.map PendingPluginAction.pluginPackageId).Nodup
  room : ∀ pkgId, s.enrolled pkgId +
    (s.pending.map PendingPluginAction.pluginPackageId).count pkgId ≤ s.issued.count pkgId

theorem inv_start (m : Machine) : (start m).Inv where
  nodup := List.nodup_nil
  room pkgId := by simp [start, enrolled]

theorem isResolved_of_reported {resolves : String → Bool} {m : Machine} {pkgId phase : String}
    (h : Reported m pkgId phase) (hphase : resolves phase = true) :
    isResolved resolves m pkgId = true := by
  obtain ⟨r, hr, rfl⟩ := h
  exact List.any_eq_true.mpr ⟨_, hr, by simp [hphase]⟩

theorem inv_step {resolves : String → Bool}
    (hresolves : resolves "installing" = true ∨ resolves "installed" = true) {s t : Rollout}
    {l : Label} (hs : s.Inv) (hst : s.step resolves host l = some t) : t.Inv := by
  cases l with
  | issue action =>
    simp only [step] at hst
    split_ifs at hst with hnew
    obtain rfl := Option.some.inj hst
    refine ⟨?_, fun pkgId => ?_⟩
    · rw [List.map_append]
      exact hs.nodup.append (List.nodup_singleton _) (by simpa using hnew.2)
    · have hroom := hs.room pkgId
      simp only [List.map_append, List.count_append, enrolled] at hroom ⊢
      simp only [List.map_cons, List.map_nil]
      omega
  | heartbeat catalog actions cs =>
    simp only [step] at hst
    split_ifs at hst with hall
    obtain rfl := Option.some.inj hst
    obtain ⟨-, new, hnew, hsub, htold⟩ := made_exec host
      { s.machine with catalog := catalog, reports := [] } actions cs
    have hids : installs actions = s.pending.map PendingPluginAction.pluginPackageId := by
      rw [installs, hall]
    rw [hids] at hsub
    refine ⟨hs.nodup.sublist (List.filter_sublist.map _), fun pkgId => ?_⟩
    have hroom := hs.room pkgId
    have hcount : (beat host s.machine catalog actions cs).enrolments.map Prod.fst
        = s.machine.enrolments.map Prod.fst ++ new.map Prod.fst := by
      rw [beat, hnew, List.map_append]
    simp only [enrolled, hcount, List.count_append] at hroom ⊢
    by_cases hmem : pkgId ∈ new.map Prod.fst
    · -- it has just been enrolled, so a report has resolved it
      obtain ⟨e, he, rfl⟩ := List.mem_map.mp hmem
      have hresolved : isResolved resolves (beat host s.machine catalog actions cs) e.1 = true := by
        rcases hresolves with h | h
        · exact isResolved_of_reported (htold e he).1 h
        · exact isResolved_of_reported (htold e he).2 h
      have hgone : e.1 ∉ (s.pending.filter fun a =>
          !isResolved resolves (beat host s.machine catalog actions cs) a.pluginPackageId).map
            PendingPluginAction.pluginPackageId := by
        rintro hleft
        obtain ⟨a, ha, hid⟩ := List.mem_map.mp hleft
        have hopen := (List.mem_filter.mp ha).2
        rw [hid, hresolved] at hopen
        cases hopen
      have hle := hsub.count_le e.1
      rw [List.count_eq_zero_of_not_mem hgone]
      omega
    · rw [List.count_eq_zero_of_not_mem hmem]
      have hle := (List.filter_sublist.map PendingPluginAction.pluginPackageId :
        (s.pending.filter fun a => !isResolved resolves (beat host s.machine catalog actions cs)
          a.pluginPackageId).map PendingPluginAction.pluginPackageId <+ _).count_le pkgId
      omega

/-! ### Where it does not -/

/-- The installation of acme's package. -/
def installAcme : PendingPluginAction where
  pluginPackageId := "pkg"
  version := "1.0"
  action := "install"

/-- The tool makes an enrolment of this id. -/
def made (id : String) : Choice where
  id := id
  stdout := "plugin_id     : " ++ id

/-- Both heartbeats: the enrolment succeeds, the reports after it are lost. The second time there is
a file to be removed. -/
def firstBeat : List Choice := [{}, {}, {}, {}, {}, {}, made "8f3c", lost, lost]

/-- The outcomes of the second heartbeat: another id is made, and the reports are lost. -/
def secondBeat : List Choice := [{}, {}, {}, {}, {}, {}, {}, made "91d0", lost, lost]

/-- The server knows acme's package. -/
def catalogAcme : String → Option PluginInfoForAgent := fun _ => some acmeInfo

/-- The machine after the first heartbeat. -/
def afterFirst : Machine := beat plainHost (start {}).machine catalogAcme [installAcme] firstBeat

/-- The machine after the second one. -/
def afterSecond : Machine := beat plainHost afterFirst catalogAcme [installAcme] secondBeat

theorem phases_afterFirst :
    afterFirst.reports.map (fun r => (r.1, r.2.phase)) =
      [("pkg", "installing"), ("pkg", "installed")] := by decide +kernel

theorem enrolments_afterSecond :
    afterSecond.enrolments = [("pkg", "8f3c"), ("pkg", "91d0")] := by decide +kernel

/-- A server that waits for a later report has the package enrolled twice. -/
theorem not_atMostOnce {resolves : String → Bool} (hinstalling : resolves "installing" = false)
    (hinstalled : resolves "installed" = false) : ¬AtMostOnce resolves := by
  have hopen : isResolved resolves afterFirst "pkg" = false := by
    have hany : isResolved resolves afterFirst "pkg" =
        (afterFirst.reports.map fun r => (r.1, r.2.phase)).any fun p =>
          p.1 = "pkg" && resolves p.2 := by
      simp [isResolved, List.any_map, Function.comp_def]
    rw [hany, phases_afterFirst]
    simp [hinstalling, hinstalled]
  intro h
  have hrun : run (step resolves plainHost) (start {})
      [.issue installAcme, .heartbeat catalogAcme [installAcme] firstBeat,
        .heartbeat catalogAcme [installAcme] secondBeat] =
      some {
        pending := [installAcme].filter fun a => !isResolved resolves afterSecond a.pluginPackageId
        issued := ["pkg"]
        machine := afterSecond } := by
    have hkept : [installAcme].filter (fun a =>
        !isResolved resolves afterFirst a.pluginPackageId) = [installAcme] := by
      simp [installAcme, hopen]
    have hissue : step resolves plainHost (start {}) (.issue installAcme) = some {
        pending := [installAcme]
        issued := ["pkg"]
        machine := (start {}).machine } := rfl
    have hbeat (m : Machine) (cs : List Choice) : step resolves plainHost
        { pending := [installAcme], issued := ["pkg"], machine := m }
        (.heartbeat catalogAcme [installAcme] cs) = some {
          pending := [installAcme].filter fun a =>
            !isResolved resolves (beat plainHost m catalogAcme [installAcme] cs) a.pluginPackageId
          issued := ["pkg"]
          machine := beat plainHost m catalogAcme [installAcme] cs } := by
      have hall : [installAcme].filter (fun a => a.action = "install") = [installAcme] := by decide
      simp only [step, hall, if_true]
    have hfirst := hbeat (start {}).machine firstBeat
    rw [← afterFirst, hkept] at hfirst
    rw [run_cons, hissue, Option.bind_some, run_cons, hfirst, Option.bind_some, run_cons,
      hbeat afterFirst secondBeat]
    rfl
  have hle := h plainHost {} _ _ hrun "pkg"
  rw [enrolled, enrolments_afterSecond] at hle
  exact absurd hle (show ¬2 ≤ ["pkg"].count "pkg" by decide)

/-- **At most once** exactly with a server that takes an installation for resolved when it hears of
its beginning or of the downloads. -/
theorem atMostOnce_iff (resolves : String → Bool) :
    AtMostOnce resolves ↔ resolves "installing" = true ∨ resolves "installed" = true := by
  constructor
  · intro h
    by_contra hnot
    rw [not_or, Bool.not_eq_true, Bool.not_eq_true] at hnot
    exact not_atMostOnce hnot.1 hnot.2 h
  · intro hresolves host m ls s hrun pkgId
    have hinv : s.Inv := invariant_of_run (fun _ _ _ hs hst => inv_step hresolves hs hst)
      (inv_start m) hrun
    exact Nat.le_of_add_right_le (hinv.room pkgId)

/-- A server that waits for `started`, which carries the id, or for a failure. -/
def untilStarted (phase : String) : Bool := phase = "started" || phase = "failed_install"

theorem untilStarted_not_atMostOnce : ¬AtMostOnce untilStarted :=
  not_atMostOnce (by decide) (by decide)

end Rollout

end Plugin

end WazabiAgent
