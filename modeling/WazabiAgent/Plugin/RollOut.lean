import WazabiAgent.Plugin.Replacement

/-!
# How an installation and an update go on

Both begin with a report, ask what there is to be downloaded, and download it. What the downloads
leave alone is known from `keeps_downloadAll`; here is what they can do if the environment wants.
Any run can be brought to its end by losing what is left of it, which changes nothing.

## Main results

* `canLeave_downloadAll` — whatever the downloads touch can be left there, or lost with an error
* `reaches_downloadAll_placed` — they can all succeed, if nothing is in the way
* `keeps_rollOut`, `reaches_rollOut` — the same of an installation and an update as far as that
-/

namespace WazabiAgent

namespace Plugin

open Prog

variable {host : PluginHost} {S : Location → Prop} {w v u : Machine}

/-! ### What the downloads can do -/

/-- A lost operation does nothing. -/
theorem perform_lost (host : PluginHost) {β : Type} (o : PluginOp β) (w : Machine) :
    (perform host o w lost).2 = w := by
  cases o with
  | downloadPluginBinary pkgId dest =>
    simp only [perform, Machine.download, lost]
    split
    · rfl
    · split <;> rfl
  | downloadPluginExtra pkgId filename dest =>
    simp only [perform, Machine.download, lost]
    split
    · rfl
    · split <;> rfl
  | removeDirAll path =>
    have htree (l : Location) : w.removeTree l lost = w := by
      simp [Machine.removeTree, FileTree.prune_all, lost]
    simp only [perform]
    split
    · exact htree _
    · rfl
  | _ => simp only [perform, lost]; repeat' (first | rfl | split)

/-- So every program can be brought to its end without a change. -/
theorem reaches_end (host : PluginHost) {α : Type} (p : Prog PluginOp α) (w : Machine) :
    ∃ a, Reaches (perform host) p w a w := by
  induction p with
  | pure a => exact ⟨a, .pure a w⟩
  | op o k ih =>
    obtain ⟨a, ha⟩ := ih (perform host o w lost).1
    refine ⟨a, .op lost ?_⟩
    rwa [perform_lost]

theorem reaches_bind_end {α γ : Type} {p : Prog PluginOp α} {a : α}
    (h : Reaches (perform host) p w a v) (f : α → Prog PluginOp γ) :
    ∃ b, Reaches (perform host) (p >>= f) w b v := by
  obtain ⟨b, hb⟩ := reaches_end host (f a) v
  exact ⟨b, h.bind hb⟩

/-- The request goes as far as the environment wants. -/
theorem download_of_started {dir name : String} {s : FileTree String Unit}
    (h : started host dir w.tree.shape name = some s) (c : Choice) :
    validateFilename host name = .ok () ∧
    ∃ t : FileTree String (List UInt8), t.shape = s ∧
      w.download host (partialPath dir name) c =
        (if c.ok then .ok c.header else .error c.error,
          if c.ok || c.took then { w with tree := t } else w) := by
  rw [started] at h
  cases hname : validateFilename host name with
  | error e =>
    rw [hname] at h
    cases h
  | ok _ =>
    rw [hname] at h
    obtain ⟨t₁, hcreate, hwrite⟩ := Option.bind_eq_some_iff.mp h
    rw [createParent_shape] at hcreate
    obtain ⟨t₂, hparent, rfl⟩ := Option.map_eq_some_iff.mp hcreate
    rw [t₂.write_shape _ c.body] at hwrite
    obtain ⟨t, hbody, rfl⟩ := Option.map_eq_some_iff.mp hwrite
    refine ⟨rfl, t, rfl, ?_⟩
    simp only [Machine.download, hparent, hbody]
    cases c.ok <;> cases c.took <;> rfl

theorem reaches_downloadFile (pkgId dir name : String) (isPrimary : Bool) (c : Choice) :
    ∃ f : String → String, Reaches (perform host) (downloadFile pkgId dir name isPrimary) w
      ((w.download host (partialPath dir name) c).1.mapError f)
      (w.download host (partialPath dir name) c).2 := by
  rw [downloadFile]
  split_ifs
  · exact ⟨_, (reaches_call _ w c).mapError⟩
  · exact ⟨_, (reaches_call _ w c).mapError⟩

/-- The partial file is there, and the rest can begin. -/
theorem reaches_started {dir name : String} {s : FileTree String Unit}
    (h : started host dir w.tree.shape name = some s) (pkgId : String) (isPrimary : Bool) :
    ∃ t : FileTree String (List UInt8), t.shape = s ∧ ∀ r v,
      Reaches (perform host) (replaceFile host dir name) { w with tree := t } r v →
        Reaches (perform host) (downloadAndVerify host pkgId dir name isPrimary) w r v := by
  obtain ⟨hname, t, ht, hdownload⟩ := download_of_started h {}
  refine ⟨t, ht, fun r v hr => ?_⟩
  obtain ⟨f, hf⟩ := reaches_downloadFile (w := w) pkgId dir name isPrimary {}
  rw [hdownload] at hf
  rw [downloadAndVerify, hname]
  exact hf.andThen (.andThen (.pure _ _) hr)

/-- A partial file that is not renamed. -/
theorem reaches_renamePartial_error (host : PluginHost) (v : Machine) (dir name : String)
    (c : Choice) :
    ∃ e, Reaches (perform host) (renamePartial host dir name) v (.error e)
      (perform host (.removeFile (partialPath dir name)) v c).2 := by
  have hlost : (perform host (.rename (partialPath dir name) (finalPath dir name)) v lost).1
      = .error lost.error := by
    simp only [perform, lost]
    split <;> rfl
  have hremove (e : String) : Reaches (perform host)
      (call (.removeFile (partialPath dir name)) >>= fun _ => Prog.pure (.error e)) v
      (.error e : Except String String) (perform host (.removeFile (partialPath dir name)) v c).2 :=
    (reaches_call _ v c).bind (.pure _ _)
  refine ⟨?error, .op lost ?run⟩
  case run =>
    rw [hlost, perform_lost]
    exact hremove _

/-- A file that is not there, or not seen. -/
theorem reaches_replaceFile {dir name : String} {r : Except String String}
    (h : Reaches (perform host) (renamePartial host dir name) v r u) :
    Reaches (perform host) (replaceFile host dir name) v r u :=
  .op lost (.andThen (.pure _ _) h)

theorem reaches_place {dir name : String} {t : FileTree String Unit}
    (h : place host dir w.tree.shape name = some t) (pkgId : String) (isPrimary : Bool) :
    ∃ v, v.tree.shape = t ∧ Reaches (perform host) (downloadAndVerify host pkgId dir name isPrimary)
      w (.ok (finalPath dir name)) v := by
  obtain ⟨s, hstarted, hmoved⟩ := Option.bind_eq_some_iff.mp h
  obtain ⟨t₁, rfl, hrest⟩ := reaches_started hstarted pkgId isPrimary
  rw [FileTree.rename_shape] at hmoved
  obtain ⟨t₂, hrename, rfl⟩ := Option.map_eq_some_iff.mp hmoved
  refine ⟨{ w with tree := t₂ }, rfl, hrest _ _ (reaches_replaceFile (.op {} ?_))⟩
  simp only [perform, hrename, if_true]
  exact .pure _ _

/-- A file that was to be replaced and is not. -/
theorem reaches_lost {dir name : String} {s : FileTree String Unit}
    (h : started host dir w.tree.shape name = some s) (pkgId : String) (isPrimary : Bool) :
    ∃ e v, Reaches (perform host) (downloadAndVerify host pkgId dir name isPrimary) w (.error e) v ∧
      v.tree.content (host.locate (finalPath dir name)) = none := by
  obtain ⟨t, -, hrest⟩ := reaches_started h pkgId isPrimary
  cases hremove : t.removeFile (host.locate (finalPath dir name)) with
  | none =>
    -- it is not there in the first place
    obtain ⟨e, he⟩ := reaches_renamePartial_error host { w with tree := t } dir name lost
    rw [perform_lost] at he
    exact ⟨e, _, hrest _ _ (reaches_replaceFile he), by simpa [FileTree.removeFile] using hremove⟩
  | some t' =>
    obtain ⟨hfile, ht'⟩ := FileTree.removeFile_eq_some_iff.mp hremove
    obtain ⟨e, he⟩ := reaches_renamePartial_error host { w with tree := t' } dir name lost
    rw [perform_lost] at he
    refine ⟨e, { w with tree := t' }, hrest _ _ (.op {} ?_), by rw [ht']; simp⟩
    have hpresent : (t (host.locate (finalPath dir name))).isSome = true := by
      obtain ⟨a, ha⟩ := Option.isSome_iff_exists.mp hfile
      rw [FileTree.content_eq_some_iff.mp ha]
      rfl
    have hexists : perform host (.pathExists (finalPath dir name)) { w with tree := t } {}
        = (true, { w with tree := t }) := by
      simp [perform, hpresent]
    have hremoved (f : String → String) : Reaches (perform host)
        ((call (.removeFile (finalPath dir name))).mapError f) { w with tree := t }
        (.ok ()) { w with tree := t' } := by
      refine .op {} ?_
      simp only [perform, hremove, if_true]
      exact .pure _ _
    rw [hexists]
    exact (hremoved _).andThen he

/-- A run can end with a file at `l`, or without one and with an error. -/
def CanLeave (host : PluginHost) (l : Location) (present : Bool) {α : Type}
    (p : Prog PluginOp (Except String α)) (w : Machine) : Prop :=
  ∃ r v, Reaches (perform host) p w r v ∧ (v.tree.content l).isSome = present ∧
    (r.isOk = true → present = true)

theorem canLeave_error {α : Type} {p : Prog PluginOp (Except String α)} {e : String} {l : Location}
    {present : Bool} (h : Reaches (perform host) p w (.error e) v)
    (hl : (v.tree.content l).isSome = present) : CanLeave host l present p w :=
  ⟨.error e, v, h, hl, by simp [Except.isOk, Except.toBool]⟩

/-- And then it can end. -/
theorem CanLeave.andThen {α γ : Type} {p : Prog PluginOp (Except String α)} {l : Location}
    {present : Bool} (h : CanLeave host l present p w)
    (f : α → Prog PluginOp (Except String γ)) : CanLeave host l present (p.andThen f) w := by
  obtain ⟨r, v, hrun, hv, hok⟩ := h
  cases r with
  | error e => exact canLeave_error hrun.andThen_error hv
  | ok a =>
    obtain ⟨r, hr⟩ := reaches_end host (f a) v
    exact ⟨r, v, hrun.andThen hr, hv, fun _ => hok rfl⟩

theorem canLeave_of_andThen {α γ : Type} {p : Prog PluginOp (Except String α)} {l : Location}
    {present : Bool} {a : α} {f : α → Prog PluginOp (Except String γ)}
    (hp : Reaches (perform host) p w (.ok a) v) (h : CanLeave host l present (f a) v) :
    CanLeave host l present (p.andThen f) w := by
  obtain ⟨r, u, hrun, hu⟩ := h
  exact ⟨r, u, hp.andThen hrun, hu⟩

/-- The partial file. -/
theorem canLeave_source {dir name : String} {s : FileTree String Unit}
    (h : started host dir w.tree.shape name = some s) (pkgId : String)
    (isPrimary present : Bool) :
    CanLeave host (host.locate (partialPath dir name)) present
      (downloadAndVerify host pkgId dir name isPrimary) w := by
  cases present with
  | true =>
    -- the request fails when the file has been written
    obtain ⟨hname, t, rfl, hdownload⟩ := download_of_started h { ok := false, took := true }
    obtain ⟨f, hf⟩ := reaches_downloadFile (w := w) pkgId dir name isPrimary
      { ok := false, took := true }
    rw [hdownload] at hf
    have herror : Reaches (perform host) (downloadFile pkgId dir name isPrimary) w
        (.error (f "")) { w with tree := t } := hf
    have hcontent := started_content h
    rw [FileTree.content_shape, Option.isSome_map] at hcontent
    rw [downloadAndVerify, hname]
    exact canLeave_error herror.andThen_error hcontent
  | false =>
    obtain ⟨t, rfl, hrest⟩ := reaches_started h pkgId isPrimary
    obtain ⟨e, he⟩ := reaches_renamePartial_error host { w with tree := t } dir name {}
    refine canLeave_error (hrest _ _ (reaches_replaceFile he)) ?_
    simp only [perform]
    cases hremove : t.removeFile (host.locate (partialPath dir name)) with
    | none =>
      have hnone : (t.content (host.locate (partialPath dir name))).isSome = false := by
        simpa [FileTree.removeFile] using hremove
      exact hnone
    | some t' =>
      rw [(FileTree.removeFile_eq_some_iff.mp hremove).2]
      simp

/-- The file that is replaced. -/
theorem canLeave_target {dir name : String} {t : FileTree String Unit}
    (h : place host dir w.tree.shape name = some t) (pkgId : String) (isPrimary present : Bool) :
    CanLeave host (host.locate (finalPath dir name)) present
      (downloadAndVerify host pkgId dir name isPrimary) w := by
  obtain ⟨s, hstarted, hmoved⟩ := Option.bind_eq_some_iff.mp h
  cases present with
  | true =>
    obtain ⟨v, hv, hrun⟩ := reaches_place h pkgId isPrimary
    refine ⟨_, v, hrun, ?_, fun _ => rfl⟩
    obtain ⟨a, -, -, hset⟩ := FileTree.rename_eq_some_iff.mp hmoved
    have hcontent : (t.content (host.locate (finalPath dir name))).isSome = true := by
      rw [hset, FileTree.content_set_file]
      rfl
    rwa [← hv, FileTree.content_shape, Option.isSome_map] at hcontent
  | false =>
    obtain ⟨e, v, hrun, hv⟩ := reaches_lost hstarted pkgId isPrimary
    refine canLeave_error hrun ?_
    rw [hv]
    rfl

theorem canLeave_touched {dir name : String} {l : Location}
    (h : l ∈ touched host dir w.tree.shape name) (pkgId : String) (isPrimary present : Bool) :
    CanLeave host l present (downloadAndVerify host pkgId dir name isPrimary) w := by
  rw [touched] at h
  split_ifs at h with hplaced hbegun
  · obtain ⟨t, hplace⟩ := Option.isSome_iff_exists.mp hplaced
    obtain ⟨s, hstarted, -⟩ := Option.bind_eq_some_iff.mp hplace
    rcases List.mem_pair.mp h with rfl | rfl
    · exact canLeave_source hstarted pkgId isPrimary present
    · exact canLeave_target hplace pkgId isPrimary present
  · obtain ⟨s, hstarted⟩ := Option.isSome_iff_exists.mp hbegun
    obtain rfl := List.mem_singleton.mp h
    exact canLeave_source hstarted pkgId isPrimary present
  · cases h

theorem canLeave_downloadExtras {dir : String} {l : Location} (extras : List PluginExtraInfo)
    (h : l ∈ touchedAll host dir w.tree.shape (extras.map PluginExtraInfo.filename))
    (pkgId : String) (present : Bool) :
    CanLeave host l present (downloadExtras host pkgId dir extras) w := by
  induction extras generalizing w with
  | nil => cases h
  | cons extra extras ih =>
    rw [List.map_cons, touchedAll, List.mem_append] at h
    rw [downloadExtras]
    rcases h with h | h
    · exact (canLeave_touched h pkgId false present).andThen _
    · split at h
      · next t hplace =>
        obtain ⟨v, rfl, hrun⟩ := reaches_place hplace pkgId false
        exact canLeave_of_andThen hrun (ih h)
      · cases h

/-- **What the downloads touch** can be left there, or lost with an error. -/
theorem canLeave_downloadAll {info : PluginInfoForAgent} {l : Location}
    (h : l ∈ info.touches host w.tree.shape) (pkgId : String) (present : Bool) :
    CanLeave host l present (downloadAll host pkgId info) w := by
  rw [PluginInfoForAgent.touches] at h
  rw [downloadAll]
  cases hdir : pluginDir host info with
  | error e =>
    rw [hdir] at h
    cases h
  | ok dir =>
    rw [hdir, PluginInfoForAgent.filenames] at h
    dsimp only at h ⊢
    rw [touchedAll, List.mem_append] at h
    rcases h with h | h
    · exact (canLeave_touched h pkgId true present).andThen _
    · split at h
      · next t hplace =>
        obtain ⟨v, rfl, hrun⟩ := reaches_place hplace pkgId true
        exact canLeave_of_andThen hrun
          ((canLeave_downloadExtras info.extras h pkgId present).andThen _)
      · cases h

/-- The downloads can all succeed. -/
theorem reaches_downloadExtras_placed {dir : String} {t : FileTree String Unit}
    (extras : List PluginExtraInfo)
    (h : (extras.map PluginExtraInfo.filename).foldlM (place host dir) w.tree.shape = some t)
    (pkgId : String) :
    ∃ v, v.tree.shape = t ∧
      Reaches (perform host) (downloadExtras host pkgId dir extras) w (.ok ()) v := by
  induction extras generalizing w with
  | nil => exact ⟨w, Option.some.inj h, .pure _ _⟩
  | cons extra extras ih =>
    rw [List.map_cons, List.foldlM_cons] at h
    obtain ⟨s, hplace, hrest⟩ := Option.bind_eq_some_iff.mp h
    obtain ⟨v, rfl, hrun⟩ := reaches_place hplace pkgId false
    obtain ⟨u, hu, hrun'⟩ := ih hrest
    exact ⟨u, hu, hrun.andThen hrun'⟩

theorem reaches_downloadAll_placed {info : PluginInfoForAgent} {t : FileTree String Unit}
    (h : info.placed host w.tree.shape = some t) (pkgId : String) :
    ∃ v, v.tree.shape = t ∧
      Reaches (perform host) (downloadAll host pkgId info) w (.ok (info.binaryPath host)) v := by
  rw [PluginInfoForAgent.placed] at h
  rw [downloadAll]
  cases hdir : pluginDir host info with
  | error e =>
    rw [hdir] at h
    cases h
  | ok dir =>
    rw [hdir, PluginInfoForAgent.filenames] at h
    dsimp only at h ⊢
    rw [List.foldlM_cons] at h
    obtain ⟨s, hplace, hrest⟩ := Option.bind_eq_some_iff.mp h
    obtain ⟨v, rfl, hrun⟩ := reaches_place hplace pkgId true
    obtain ⟨u, hu, hrun'⟩ := reaches_downloadExtras_placed info.extras hrest pkgId
    have hpath : info.binaryPath host = finalPath dir info.artifactFilename := by
      rw [pluginDir_eq hdir]
      rfl
    rw [hpath]
    exact ⟨u, hu, hrun.andThen (hrun'.andThen (.pure _ _))⟩

/-! ### From the first report to the last file -/

/-- How an installation and an update begin. -/
def rollOut (host : PluginHost) (action : PendingPluginAction)
    (pluginIdLocal : Option String) (missing : String)
    (rest : PluginInfoForAgent → String → Prog PluginOp (Except String Unit)) :
    Prog PluginOp (Except String Unit) :=
  (report action.pluginPackageId "installing" action.version pluginIdLocal none).andThen
    fun _ => (requireInfo action.pluginPackageId missing).andThen fun info =>
      (downloadAll host action.pluginPackageId info).andThen fun binPath => rest info binPath

theorem handleInstall_eq (action : PendingPluginAction) :
    handleInstall host action = rollOut host action none "GET /info: 404 (paquet non assigné ?)"
      fun info binPath =>
        (report action.pluginPackageId "installed" info.version none none).andThen fun _ =>
        (invokeEnroll action.pluginPackageId binPath info).andThen fun pluginIdLocal =>
        report action.pluginPackageId "started" info.version (some pluginIdLocal) none := rfl

/-- What an update does with the files. -/
def replaceBinary (action : PendingPluginAction) (pluginIdLocal : String)
    (info : PluginInfoForAgent) (binPath : String) : Prog PluginOp (Except String Unit) :=
  ((call (.invokeWedrPlugin action.pluginPackageId (.update pluginIdLocal binPath))).mapError
    fun e => "wedr-plugin update: " ++ e).andThen fun _ => do
  call (.taskkill info.artifactFilename)
  report action.pluginPackageId "started" info.version (some pluginIdLocal) none

theorem handleUpdate_eq {action : PendingPluginAction} {pluginIdLocal : String}
    (h : action.pluginIdLocal = some pluginIdLocal) :
    handleUpdate host action = rollOut host action (some pluginIdLocal) "GET /info: 404"
      (replaceBinary action pluginIdLocal) := by
  rw [handleUpdate]
  rw [h]
  rfl

theorem keeps_rollOut {J : Machine → Prop} {Q : Except String Unit → Machine → Prop}
    {action : PendingPluginAction} {pluginIdLocal : Option String} {missing : String}
    {rest : PluginInfoForAgent → String → Prog PluginOp (Except String Unit)}
    (hS : ∀ info, w.catalog action.pluginPackageId = some info →
      ∀ l ∈ info.touches host w.tree.shape, ¬S l)
    (hJ : ∀ v, Frame S w v → J v) (hQ : ∀ e v, Frame S w v → Q (.error e) v)
    (hrest : ∀ info v, w.catalog action.pluginPackageId = some info → Frame S w v →
      info.placed host w.tree.shape = some v.tree.shape →
        Keeps host J (rest info (info.binaryPath host)) Q v) :
    Keeps host J (rollOut host action pluginIdLocal missing rest) Q w := by
  have hstart : J w := hJ w (.refl S w)
  have hreported (reports : List (String × PluginStatusReport)) :
      Frame S w { w with reports := reports } := ⟨fun _ _ => rfl, rfl, rfl, rfl⟩
  have hinfo (reports : List (String × PluginStatusReport)) : Keeps host J
      ((requireInfo action.pluginPackageId missing).andThen fun info =>
        (downloadAll host action.pluginPackageId info).andThen fun binPath => rest info binPath) Q
      { w with reports := reports } := by
    rw [Keeps, wp_andThen, requireInfo, wp_andThen, wp_mapError]
    refine keeps_call (hJ _ (hreported reports)) fun c => ?_
    simp only [perform]
    split_ifs
    · simp only [Except.mapError]
      cases hcatalog : w.catalog action.pluginPackageId with
      | none => exact keeps_pure (hQ _ _ (hreported reports))
      | some info =>
        refine keeps_pure ?_
        dsimp only
        rw [wp_andThen]
        refine wp_mono (fun r v hv => ?_) (wp_mono_cut
          (fun v hv => hJ v ((hreported reports).trans hv))
          (keeps_downloadAll action.pluginPackageId (hS info hcatalog)))
        have hframe := (hreported reports).trans hv.1
        cases r with
        | error e => exact hQ e v hframe
        | ok p =>
          obtain ⟨hp, hplaced⟩ := hv.2 p rfl
          rw [hp]
          exact hrest info v hcatalog hframe hplaced
    · exact hQ _ _ (hreported reports)
  rw [Keeps, rollOut, wp_andThen]
  refine keeps_call hstart fun c => ?_
  simp only [perform]
  split_ifs
  · exact hinfo _
  · exact hQ _ _ (hreported _)
  · exact hQ _ _ (.refl S w)

theorem reaches_rollOut (host : PluginHost) (action : PendingPluginAction)
    (pluginIdLocal : Option String)
    (missing : String) (rest : PluginInfoForAgent → String → Prog PluginOp (Except String Unit))
    {info : PluginInfoForAgent} (hinfo : w.catalog action.pluginPackageId = some info) :
    ∃ reports, ∀ r v, Reaches (perform host)
      ((downloadAll host action.pluginPackageId info).andThen fun binPath => rest info binPath)
      { w with reports := reports } r v →
        Reaches (perform host) (rollOut host action pluginIdLocal missing rest) w r v := by
  refine ⟨w.reports ++ [(action.pluginPackageId, {
    phase := "installing"
    version := action.version
    pluginIdLocal := pluginIdLocal
    error := none })], fun r v h => ?_⟩
  refine .andThen (a := ()) (.op {} (.pure _ _)) ?_
  refine .andThen (a := info) ?_ h
  refine .andThen (a := some info) (.mapError (r := .ok (some info)) (.op {} ?_)) (.pure _ _)
  simp only [perform, hinfo, if_true]
  exact .pure _ _

end Plugin

end WazabiAgent
