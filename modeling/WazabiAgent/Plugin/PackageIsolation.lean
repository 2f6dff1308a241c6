import WazabiAgent.Plugin.RollOut

/-!
# Packages that do not meet

The agent addresses what belongs to a package by names put together from what the server sends: a
directory by the name and the version, a file by its name in there, and processes by nothing but
the name of their image. So an action for one package can reach what belongs to another, and
whether it does is a matter of the two packages and not of what else is on the machine.

The tool addresses manifests by their ids, which do not meet.

## Main definitions

* `Package`, `Package.Unchanged` — what belongs to a package, and that nothing happened to it
* `Isolated` — no action for one package changes what belongs to the other
* `Apart` — the names do not meet

## Main results

* `isolated_iff` — the packages that are isolated are those that are apart
-/

namespace WazabiAgent

namespace Plugin

open Prog

variable {host : PluginHost} {w v : Machine}

/-! ### Smaller trees -/

section Below

variable {dir : String} {name : String} {t t' u' : FileTree String Unit}

theorem createParent_below {path : String} (h : t.Below t')
    (hu : createParent host t' path = some u') :
    ∃ u, createParent host t path = some u ∧ u.Below u' ∧ ∀ l, t l = t' l → u l = u' l := by
  unfold createParent at hu ⊢
  split at hu
  · exact ⟨t, rfl, Option.some.inj hu ▸ h, fun l hl => Option.some.inj hu ▸ hl⟩
  · exact h.createDirAll hu

theorem started_below (h : t.Below t') (hu : started host dir t' name = some u') :
    ∃ u, started host dir t name = some u ∧ u.Below u' ∧
      (∀ l, t l = t' l → u l = u' l) ∧
      u (host.locate (partialPath dir name)) = u' (host.locate (partialPath dir name)) := by
  unfold started at hu ⊢
  split at hu
  · cases hu
  · obtain ⟨s', hparent', hwrite'⟩ := Option.bind_eq_some_iff.mp hu
    obtain ⟨s, hparent, hs, hagree⟩ := createParent_below h hparent'
    obtain ⟨u, hwrite, hu', hagree'⟩ := hs.write hwrite'
    refine ⟨u, Option.bind_eq_some_iff.mpr ⟨s, hparent, hwrite⟩, hu',
      fun l hl => hagree' l (hagree l hl), ?_⟩
    rw [(FileTree.write_eq_some_iff.mp hwrite).2, (FileTree.write_eq_some_iff.mp hwrite').2]
    simp

/-- A file that gets to its place does so in a smaller tree, and the trees agree there. -/
theorem place_below (h : t.Below t') (hu : place host dir t' name = some u') :
    ∃ u, place host dir t name = some u ∧ u.Below u' ∧ (∀ l, t l = t' l → u l = u' l) ∧
      u (host.locate (finalPath dir name)) = u' (host.locate (finalPath dir name)) := by
  obtain ⟨s', hstarted', hrename'⟩ := Option.bind_eq_some_iff.mp hu
  obtain ⟨s, hstarted, hs, hagree, hagreeSrc⟩ := started_below h hstarted'
  obtain ⟨u, hrename, hu', hagree'⟩ := hs.rename hagreeSrc hrename'
  refine ⟨u, Option.bind_eq_some_iff.mpr ⟨s, hstarted, hrename⟩, hu',
    fun l hl => hagree' l (hagree l hl), ?_⟩
  obtain ⟨_, -, -, rfl⟩ := FileTree.rename_eq_some_iff.mp hrename
  obtain ⟨_, -, -, rfl⟩ := FileTree.rename_eq_some_iff.mp hrename'
  simp

theorem foldlM_place_below {names : List String} (h : t.Below t')
    (hu : names.foldlM (place host dir) t' = some u') :
    ∃ u, names.foldlM (place host dir) t = some u ∧ ∀ l, t l = t' l → u l = u' l := by
  induction names generalizing t t' with
  | nil => exact ⟨t, rfl, fun l hl => Option.some.inj hu ▸ hl⟩
  | cons name names ih =>
    rw [List.foldlM_cons] at hu ⊢
    obtain ⟨s', hplace', hrest'⟩ := Option.bind_eq_some_iff.mp hu
    obtain ⟨s, hplace, hs, hagree, -⟩ := place_below h hplace'
    obtain ⟨u, hrest, hu'⟩ := ih hs hrest'
    exact ⟨u, Option.bind_eq_some_iff.mpr ⟨s, hplace, hrest⟩, fun l hl => hu' l (hagree l hl)⟩

theorem touched_below (h : t.Below t') {l : Location} (hl : l ∈ touched host dir t' name) :
    l ∈ touched host dir t name := by
  rw [touched] at hl
  split_ifs at hl with hplaced hstarted
  · obtain ⟨u', hu'⟩ := Option.isSome_iff_exists.mp hplaced
    obtain ⟨u, hu, -⟩ := place_below h hu'
    rwa [touched, if_pos (Option.isSome_iff_exists.mpr ⟨u, hu⟩)]
  · obtain ⟨u', hu'⟩ := Option.isSome_iff_exists.mp hstarted
    obtain ⟨u, hu, -⟩ := started_below h hu'
    rw [List.mem_singleton.mp hl]
    exact mem_touched_of_started hu
  · cases hl

/-- The smaller the tree, the more is touched. -/
theorem touchedAll_below {names : List String} (h : t.Below t') {l : Location}
    (hl : l ∈ touchedAll host dir t' names) : l ∈ touchedAll host dir t names := by
  induction names generalizing t t' with
  | nil => exact hl
  | cons name names ih =>
    rw [touchedAll, List.mem_append] at hl ⊢
    rcases hl with hl | hl
    · exact .inl (touched_below h hl)
    · split at hl
      · next u' hu' =>
        obtain ⟨u, hu, hbelow, -⟩ := place_below h hu'
        rw [hu]
        exact .inr (ih hbelow hl)
      · cases hl

end Below

/-- A tree with nothing in it. -/
def emptyTree : FileTree String Unit := fun _ => none

theorem emptyTree_below (t : FileTree String Unit) : emptyTree.Below t := by
  intro l node h
  cases h

namespace PluginInfoForAgent

variable (info : PluginInfoForAgent)

theorem touches_below {t : FileTree String Unit} {l : Location} (hl : l ∈ info.touches host t) :
    l ∈ info.touches host emptyTree := by
  unfold touches at hl ⊢
  split at hl
  · exact touchedAll_below (emptyTree_below t) hl
  · cases hl

/-- All files get to their places if nothing is in the way, and the binary is still there when the
last of them has. -/
def completes (host : PluginHost) : Bool :=
  (info.placed host emptyTree).any fun t =>
    (t.content (host.locate (info.binaryPath host))).isSome

theorem completes_of_placed {t u : FileTree String Unit} (hu : info.placed host t = some u)
    (hbinary : (u.content (host.locate (info.binaryPath host))).isSome = true) :
    info.completes host = true := by
  rw [placed] at hu
  cases hdir : pluginDir host info with
  | error e =>
    rw [hdir] at hu
    cases hu
  | ok dir =>
    rw [hdir, filenames] at hu
    dsimp only at hu
    rw [List.foldlM_cons] at hu
    obtain ⟨s', hplace', hrest'⟩ := Option.bind_eq_some_iff.mp hu
    obtain ⟨s, hplace, hs, -, hfinal⟩ := place_below (emptyTree_below t) hplace'
    obtain ⟨r, hrest, hagree⟩ := foldlM_place_below hs hrest'
    have hpath : finalPath dir info.artifactFilename = info.binaryPath host := by
      rw [pluginDir_eq hdir]
      rfl
    have hplaced : info.placed host emptyTree = some r := by
      rw [placed]
      rw [hdir, filenames]
      dsimp only
      rw [List.foldlM_cons, hplace]
      exact hrest
    rw [completes, hplaced, Option.any_some, ← hbinary]
    rw [hpath] at hfinal
    simp only [FileTree.content, hagree _ hfinal]

end PluginInfoForAgent

/-! ### Packages -/

/-- The checks that a package passes before anything is downloaded. -/
def PluginInfoForAgent.Accepted (host : PluginHost) (info : PluginInfoForAgent) : Prop :=
  (∃ dir, pluginDir host info = .ok dir) ∧
    ∀ name ∈ info.filenames, validateFilename host name = .ok ()

/-- A package with its enrolment and its files. -/
structure Package where
  pkgId : String
  /-- Under which it is enrolled. -/
  pluginId : String
  /-- What the server offers. -/
  info : PluginInfoForAgent
  /-- What is on the machine. -/
  installed : PluginInfoForAgent

namespace Package

/-- Where the files of the package are. -/
def files (host : PluginHost) (p : Package) : List Location :=
  p.installed.filenames.map fun name =>
    host.locate (finalPath (versionDir host p.installed) name)

/-- The files, the manifest and the processes of a package are in `v` what they are in `w`. -/
structure Unchanged (host : PluginHost) (p : Package) (w v : Machine) : Prop where
  files : ∀ l ∈ p.files host, v.tree.content l = w.tree.content l
  manifest : v.manifests p.pluginId = w.manifests p.pluginId
  processes : v.processes.filter (· = p.installed.binaryPath host)
    = w.processes.filter (· = p.installed.binaryPath host)

/-- Two packages with identities of their own. -/
structure Distinct (a b : Package) : Prop where
  pkgId : a.pkgId ≠ b.pkgId
  pluginId : a.pluginId ≠ b.pluginId

/-- The machine has the package, and the server offers what it offers. -/
structure Served (host : PluginHost) (p : Package) (w : Machine) : Prop where
  catalog : ∀ info, w.catalog p.pkgId = some info → info = p.info
  /-- The manifest, if there is one, names the binary that is installed. -/
  manifest : ∀ m, w.manifests p.pluginId = some (.manifest m) →
    m.expectedPath = p.installed.binaryPath host

/-- An action of the server for this package. -/
structure Sent (p : Package) (action : PendingPluginAction) : Prop where
  pkgId : action.pluginPackageId = p.pkgId
  pluginId : ∀ id ∈ action.pluginIdLocal, id = p.pluginId

end Package

/-- Whatever the server has done for `a`, and wherever it is cut, what belongs to `b` is left as it
is, on every machine where `b` is enrolled. -/
def Isolated (host : PluginHost) (a b : Package) : Prop :=
  ∀ w action, a.Served host w → (w.manifests b.pluginId).isSome = true → a.Sent action →
    ∀ cs, b.Unchanged host w (exec (perform host) (processAction host action) w cs).2

/-- The names do not meet. -/
structure Apart (host : PluginHost) (a b : Package) : Prop where
  /-- An update of `a` that can succeed kills by a name that is not that of `b`. -/
  image : a.info.completes host = true →
    host.sameImage b.installed.artifactFilename a.info.artifactFilename = false
  /-- No file of `b` is written for `a`. -/
  files : ∀ l ∈ a.info.touches host emptyTree, l ∉ b.files host
  /-- No file of `b` is in the directory that is removed with `a`. -/
  directory : ∀ dir, WinPath.parent (a.installed.binaryPath host) = some dir →
    ∀ l ∈ b.files host, host.locate dir <+: l → l = host.locate dir

variable {a b : Package} {action : PendingPluginAction}

namespace Package

theorem Unchanged.refl (host : PluginHost) (p : Package) (w : Machine) : p.Unchanged host w w :=
  ⟨fun _ _ => rfl, rfl, rfl⟩

theorem unchanged_of_frame (h : Frame (· ∈ b.files host) w v) : b.Unchanged host w v :=
  ⟨h.content, by rw [h.manifests], by rw [h.processes]⟩

end Package

/-! ### Packages that are apart -/

/-- What is about neither files nor processes, and about no manifest of another. -/
def PluginOp.Mild (pluginId : String) {β : Type} : PluginOp β → Prop
  | .reportPluginStatus .. => True
  | .readManifest _ => True
  | .invokeWedrPlugin _ (.enroll ..) => True
  | .invokeWedrPlugin _ (.update id _) => id = pluginId
  | .invokeWedrPlugin _ (.revoke id) => id = pluginId
  | .invokeWedrPlugin _ (.remove id) => id = pluginId
  | _ => False

theorem unchanged_setManifest (h : b.Unchanged host w v) {id : String} (hid : id ≠ b.pluginId)
    (text : Option ManifestText) : b.Unchanged host w (v.setManifest id text) where
  files := h.files
  manifest := by simp [Machine.setManifest, Ne.symm hid, h.manifest]
  processes := h.processes

theorem perform_mild (hab : a.pluginId ≠ b.pluginId) (hb : (w.manifests b.pluginId).isSome = true)
    (h : b.Unchanged host w v) {β : Type} {o : PluginOp β} (ho : o.Mild a.pluginId) (c : Choice) :
    b.Unchanged host w (perform host o v c).2 := by
  cases o with
  | reportPluginStatus pkgId r =>
    simp only [perform]
    split_ifs <;> exact ⟨h.files, h.manifest, h.processes⟩
  | readManifest pluginId =>
    simp only [perform]
    split <;> exact h
  | invokeWedrPlugin pkgId cli =>
    rcases perform_invoke host v pkgId c cli with heq | heq
    · rwa [heq]
    · cases cli with
      | enroll path name vendor autoLaunch env =>
        simp only [Machine.wedrPlugin] at heq
        split at heq
        case h_2 => cases heq
        case h_1 bytes hfresh _ =>
          -- the id is a fresh one
          have hid : c.id ≠ b.pluginId := by
            rintro hid
            rw [hid, h.manifest] at hfresh
            rw [hfresh] at hb
            cases hb
          rw [← Option.some.inj heq]
          exact ⟨h.files, (unchanged_setManifest h hid _).manifest, h.processes⟩
      | _ =>
        obtain rfl := ho
        simp only [Machine.wedrPlugin] at heq
        split at heq
        · rw [← Option.some.inj heq]
          exact unchanged_setManifest h hab _
        · cases heq
  | _ => exact ho.elim

theorem keeps_mild (hab : a.pluginId ≠ b.pluginId) (hb : (w.manifests b.pluginId).isSome = true)
    (h : b.Unchanged host w v) {α : Type} {p : Prog PluginOp α}
    (hp : p.All (PluginOp.Mild a.pluginId)) :
    Keeps host (b.Unchanged host w) p (fun _ => b.Unchanged host w) v :=
  wp_of_all hp (fun _ _ hv hvv' => hvv' ▸ hv) (fun _ hv => hv)
    (fun _ _ c ho _ hv => perform_mild hab hb hv ho c) h

theorem unchanged_handleInstall (hapart : Apart host a b) (hab : a.pluginId ≠ b.pluginId)
    (hw : a.Served host w) (hb : (w.manifests b.pluginId).isSome = true) (hsent : a.Sent action) :
    Keeps host (b.Unchanged host w) (handleInstall host action)
      (fun _ => b.Unchanged host w) w := by
  rw [handleInstall_eq]
  refine keeps_rollOut (S := (· ∈ b.files host)) (fun info hinfo l hl => ?_)
    (fun _ => Package.unchanged_of_frame) (fun _ _ => Package.unchanged_of_frame)
    fun info v hinfo hv _ => ?_
  · rw [hsent.pkgId] at hinfo
    obtain rfl := hw.catalog info hinfo
    exact hapart.files l (a.info.touches_below hl)
  · refine keeps_mild hab hb (Package.unchanged_of_frame hv) ?_
    refine All.andThen (All.call trivial) fun _ => All.andThen ?_ fun _ => All.call trivial
    exact All.andThen (All.mapError (All.call trivial)) fun stdout => by split <;> trivial

/-- A call of the tool that succeeds has found what it needs. -/
theorem content_of_update {pkgId id path : String} {c : Choice} {x : String}
    (h : (perform host (.invokeWedrPlugin pkgId (.update id path)) w c).1 = .ok x) :
    (w.tree.content (host.locate path)).isSome = true := by
  simp only [perform, Machine.wedrPlugin] at h
  cases hcontent : w.tree.content (host.locate path) with
  | some bytes => rfl
  | none =>
    rw [hcontent] at h
    split at h
    · next heq =>
      split at heq
      · next hnone => cases hnone
      · cases heq
    · cases h

theorem manifest_of_revoke {pkgId id : String} {c : Choice} {x : String}
    (h : (perform host (.invokeWedrPlugin pkgId (.revoke id)) w c).1 = .ok x) :
    ∃ m, w.manifests id = some (.manifest m) := by
  simp only [perform, Machine.wedrPlugin] at h
  split at h
  · next heq =>
    split at heq
    · next m hm => exact ⟨m, hm⟩
    · cases heq
  · cases h

theorem fileName_of_endsWith {dir sep name : String} {c : Char} (hc : WinPath.isSep c = true)
    (hsep : sep.toList = [c]) (hname : WinPath.Flat name) (h : dir.endsWith sep = true) :
    WinPath.fileName (dir ++ name) = some name := by
  rw [← String.endsWith_toSlice, String.Slice.endsWith_string_iff, String.copy_toSlice, hsep] at h
  obtain ⟨cs, hcs⟩ := h
  have hdir : dir = String.ofList cs ++ String.ofList [c] := by
    rw [← String.toList_inj, String.toList_append, String.toList_ofList, String.toList_ofList, hcs]
  rw [hdir]
  exact WinPath.fileName_append hc hname

theorem fileName_join (dir : String) {name : String} (hname : WinPath.Flat name) :
    WinPath.fileName (Config.join dir name) = some name := by
  rw [Config.join]
  split_ifs with hsep
  · rw [Bool.or_eq_true] at hsep
    rcases hsep with h | h
    · exact fileName_of_endsWith (by decide) (by decide : "\\".toList = ['\\']) hname h
    · exact fileName_of_endsWith (by decide) (by decide : "/".toList = ['/']) hname h
  · exact WinPath.fileName_append (by decide : WinPath.isSep '\\' = true) hname

theorem flat_of_validateFilename {name : String} (h : validateFilename host name = .ok ()) :
    WinPath.Flat name := by
  rw [validateFilename] at h
  split_ifs at h with _ hflat
  exact WinPath.flat_of_fileName (not_not.mp hflat)

/-- The name under which `taskkill` sees the processes of a package. -/
theorem imageName_binaryPath {info : PluginInfoForAgent} (h : info.Accepted host) :
    imageName (info.binaryPath host) = info.artifactFilename := by
  have hflat := flat_of_validateFilename (h.2 _ List.mem_cons_self)
  rw [imageName, PluginInfoForAgent.binaryPath, finalPath, fileName_join _ hflat]
  rfl

theorem unchanged_taskkill (h : b.Unchanged host w v) (hb : b.installed.Accepted host)
    {basename : String} (himage : host.sameImage b.installed.artifactFilename basename = false)
    (c : Choice) : b.Unchanged host w (perform host (.taskkill basename) v c).2 := by
  simp only [perform]
  split_ifs
  · refine ⟨h.files, h.manifest, ?_⟩
    rw [← h.processes, List.filter_filter]
    refine List.filter_congr fun p _ => ?_
    by_cases hp : p = b.installed.binaryPath host
    · simp [hp, imageName_binaryPath hb, himage]
    · simp [hp]
  · exact h

theorem unchanged_handleUpdate (hapart : Apart host a b) (hab : a.pluginId ≠ b.pluginId)
    (haccepted : b.installed.Accepted host) (hw : a.Served host w)
    (hb : (w.manifests b.pluginId).isSome = true) (hsent : a.Sent action) :
    Keeps host (b.Unchanged host w) (handleUpdate host action) (fun _ => b.Unchanged host w) w := by
  cases hid : action.pluginIdLocal with
  | none =>
    rw [handleUpdate]
    rw [hid]
    exact keeps_pure (.refl host b w)
  | some pluginIdLocal =>
    obtain rfl := hsent.pluginId pluginIdLocal hid
    rw [handleUpdate_eq hid]
    refine keeps_rollOut (S := (· ∈ b.files host)) (fun info hinfo l hl => ?_)
      (fun _ => Package.unchanged_of_frame) (fun _ _ => Package.unchanged_of_frame)
      fun info v hinfo hv hplaced => ?_
    · rw [hsent.pkgId] at hinfo
      obtain rfl := hw.catalog info hinfo
      exact hapart.files l (a.info.touches_below hl)
    · rw [hsent.pkgId] at hinfo
      obtain rfl := hw.catalog info hinfo
      have hunchanged := Package.unchanged_of_frame hv
      rw [Keeps, replaceBinary, wp_andThen, wp_mapError]
      refine keeps_call hunchanged fun c => ?_
      have hupdated := perform_mild hab hb hunchanged (o := .invokeWedrPlugin action.pluginPackageId
        (.update a.pluginId (a.info.binaryPath host))) rfl c
      cases hr : (perform host (.invokeWedrPlugin action.pluginPackageId
          (.update a.pluginId (a.info.binaryPath host))) v c).1 with
      | error e => exact hupdated
      | ok x =>
        -- the tool has found the binary
        have hcontent := content_of_update hr
        have hcompletes : a.info.completes host = true := by
          refine a.info.completes_of_placed hplaced ?_
          rwa [FileTree.content_shape, Option.isSome_map]
        refine keeps_op hupdated fun c => ?_
        exact keeps_mild hab hb (unchanged_taskkill hupdated haccepted (hapart.image hcompletes) c)
          (All.call trivial)

/-- What is read is the path of a manifest, or the tool will not know the id. -/
theorem keeps_readManifestExpectedPath {J : Machine → Prop} (hJ : J w) (id : String) :
    Keeps host J (readManifestExpectedPath host id)
      (fun r v => v = w ∧ ∀ path m, r = .ok path → w.manifests id = some (.manifest m) →
        path = m.expectedPath) w := by
  rw [Keeps, readManifestExpectedPath, wp_andThen, wp_mapError]
  refine keeps_call hJ fun c => ?_
  simp only [perform]
  cases htext : w.manifests id with
  | none => exact ⟨rfl, by simp⟩
  | some text =>
    dsimp only
    split_ifs
    · cases text with
      | notJson e => exact keeps_pure ⟨rfl, by simp⟩
      | json path => cases path <;> exact keeps_pure ⟨rfl, by simp⟩
      | manifest m =>
        refine keeps_pure ⟨rfl, fun path n hpath hn => ?_⟩
        rw [← Except.ok.inj hpath, (ManifestText.manifest.inj (Option.some.inj hn))]
    · exact ⟨rfl, by simp⟩

theorem unchanged_removeDirAll (hapart : Apart host a b) (h : b.Unchanged host w v) {dir : String}
    (hdir : WinPath.parent (a.installed.binaryPath host) = some dir) (c : Choice) :
    b.Unchanged host w (perform host (.removeDirAll dir) v c).2 := by
  simp only [perform]
  split
  · next hisdir =>
    refine ⟨fun l hl => ?_, h.manifest, h.processes⟩
    rw [← h.files l hl]
    have hdirectory := FileTree.isDir_iff.mp hisdir
    simp only [Machine.removeTree, FileTree.prune, FileTree.content]
    split_ifs with hbelow
    · -- only a directory can have been there
      rw [hapart.directory dir hdir l hl hbelow.1, hdirectory]
    · rfl
  · exact h

theorem keeps_cleanup (hapart : Apart host a b) (h : b.Unchanged host w v) {binPath : Option String}
    (hpath : ∀ path, binPath = some path → path = a.installed.binaryPath host) :
    Keeps host (b.Unchanged host w) (cleanup binPath) (fun _ => b.Unchanged host w) v := by
  cases binPath with
  | none => exact keeps_pure h
  | some path =>
    rw [hpath path rfl]
    unfold cleanup
    dsimp only
    split
    · exact keeps_pure h
    · next dir hdir =>
      exact keeps_op h fun c => keeps_pure (unchanged_removeDirAll hapart h hdir c)

theorem unchanged_handleRevoke (hapart : Apart host a b) (hab : a.pluginId ≠ b.pluginId)
    (hw : a.Served host w) (hb : (w.manifests b.pluginId).isSome = true) (hsent : a.Sent action) :
    Keeps host (b.Unchanged host w) (handleRevoke host action) (fun _ => b.Unchanged host w) w := by
  have : IsPreorder Machine Eq := {}
  have hstart := Package.Unchanged.refl host b w
  cases hid : action.pluginIdLocal with
  | none =>
    rw [handleRevoke]
    rw [hid]
    exact keeps_pure hstart
  | some pluginIdLocal =>
    obtain rfl := hsent.pluginId pluginIdLocal hid
    rw [handleRevoke]
    rw [hid]
    dsimp only
    refine wp_bind.mpr (wp_mono ?_ (keeps_readManifestExpectedPath hstart a.pluginId))
    rintro r v ⟨hv, hpath⟩
    obtain rfl := hv.symm
    rw [wp_andThen, wp_mapError]
    refine keeps_call hstart fun c => ?_
    have hrevoked := perform_mild hab hb hstart
      (o := .invokeWedrPlugin action.pluginPackageId (.revoke a.pluginId)) rfl c
    cases hr :
        (perform host (.invokeWedrPlugin action.pluginPackageId (.revoke a.pluginId)) w c).1 with
    | error e => exact hrevoked
    | ok x =>
      obtain ⟨m, hm⟩ := manifest_of_revoke hr
      dsimp only [Except.mapError]
      rw [wp_andThen, wp_mapError]
      refine keeps_call hrevoked fun c => ?_
      have hremoved := perform_mild hab hb hrevoked
        (o := .invokeWedrPlugin action.pluginPackageId (.remove a.pluginId)) rfl c
      cases
        (perform host (.invokeWedrPlugin action.pluginPackageId (.remove a.pluginId)) _ c).1 with
      | error e => exact hremoved
      | ok y =>
        refine wp_bind.mpr (wp_mono (fun _ v hv => ?_) (keeps_cleanup hapart hremoved ?_))
        · exact keeps_mild hab hb hv (All.call trivial)
        · intro path hr
          cases r with
          | error e => cases hr
          | ok p => rw [← Option.some.inj hr, hpath p m rfl hm, hw.manifest m hm]

/-- **Isolation** of packages that are apart. -/
theorem isolated_of_apart (hapart : Apart host a b) (hab : a.pluginId ≠ b.pluginId)
    (haccepted : b.installed.Accepted host) : Isolated host a b := by
  have : IsPreorder Machine Eq := {}
  intro w action hw hb hsent cs
  have hstart := Package.Unchanged.refl host b w
  refine wp_exec (R := Eq) (J := b.Unchanged host w) ?_ cs
  rw [processAction]
  split
  · exact keeps_pure hstart
  · next handler hhandler =>
    have hhandled : Keeps host (b.Unchanged host w) handler (fun _ => b.Unchanged host w) w := by
      rw [handle] at hhandler
      split_ifs at hhandler
      · obtain rfl := Option.some.inj hhandler
        exact unchanged_handleInstall hapart hab hw hb hsent
      · obtain rfl := Option.some.inj hhandler
        exact unchanged_handleUpdate hapart hab haccepted hw hb hsent
      · obtain rfl := Option.some.inj hhandler
        exact unchanged_handleRevoke hapart hab hw hb hsent
    refine wp_bind.mpr (wp_mono (fun r v hv => ?_) hhandled)
    cases r with
    | ok _ => exact keeps_pure hv
    | error e => exact keeps_mild hab hb hv (All.bind (All.call trivial) fun _ => trivial)

/-! ### Packages that meet -/

/-- The manifest of an enrolment. -/
def enrolled (pluginId path : String) : PluginManifest where
  pluginId := pluginId
  name := ""
  expectedPath := path
  expectedSha256 := none
  expectedSigner := none
  revoked := false
  autoLaunch := false
  env := []

@[simp] theorem expectedPath_enrolled (pluginId path : String) :
    (enrolled pluginId path).expectedPath = path := rfl

/-- A machine that has both packages, and what else is of interest. -/
def meeting (host : PluginHost) (a b : Package) (tree : FileTree String (List UInt8)) : Machine where
  tree := tree
  manifests id :=
    if id = a.pluginId then
      some (.manifest (enrolled a.pluginId (a.installed.binaryPath host)))
    else if id = b.pluginId then
      some (.manifest (enrolled b.pluginId (b.installed.binaryPath host)))
    else none
  processes := [b.installed.binaryPath host]
  catalog _ := some a.info

/-- An action on the package. -/
def actionFor (a : Package) (action : String) : PendingPluginAction where
  pluginPackageId := a.pkgId
  version := a.info.version
  action := action
  pluginIdLocal := some a.pluginId

section Meeting

variable {tree : FileTree String (List UInt8)}

@[simp] theorem manifests_meeting (host : PluginHost) (a b : Package)
    (tree : FileTree String (List UInt8)) : (meeting host a b tree).manifests a.pluginId =
    some (.manifest (enrolled a.pluginId (a.installed.binaryPath host))) := if_pos rfl

theorem meeting_served (host : PluginHost) (a b : Package) (tree : FileTree String (List UInt8)) :
    a.Served host (meeting host a b tree) where
  catalog info h := (Option.some.inj h).symm
  manifest m h := by
    rw [manifests_meeting] at h
    injection h with h
    injection h with h
    rw [← h, expectedPath_enrolled]

theorem handle_install (host : PluginHost) (a : Package) : handle host (actionFor a "install")
    = some (handleInstall host (actionFor a "install")) := by
  simp [handle, actionFor]

theorem handle_update (host : PluginHost) (a : Package) : handle host (actionFor a "update")
    = some (handleUpdate host (actionFor a "update")) := by
  simp [handle, actionFor]

theorem handle_revoke (host : PluginHost) (a : Package) : handle host (actionFor a "revoke")
    = some (handleRevoke host (actionFor a "revoke")) := by
  simp [handle, actionFor]

theorem actionFor_sent (a : Package) (action : String) : a.Sent (actionFor a action) where
  pkgId := rfl
  pluginId _ h := (Option.some.inj h).symm

/-- What a run of the handler ends with is left as it is. -/
theorem Isolated.unchanged (h : Isolated host a b) {handler : Prog PluginOp (Except String Unit)}
    (action : String) (hhandler : handle host (actionFor a action) = some handler)
    {r : Except String Unit}
    (hrun : Reaches (perform host) handler (meeting host a b tree) r v) :
    b.Unchanged host (meeting host a b tree) v := by
  have hb : ((meeting host a b tree).manifests b.pluginId).isSome = true := by
    simp only [meeting]
    split_ifs <;> rfl
  have hprocess : ∃ x, Reaches (perform host) (processAction host (actionFor a action))
      (meeting host a b tree) x v := by
    rw [processAction, hhandler]
    exact reaches_bind_end hrun _
  obtain ⟨x, hx⟩ := hprocess
  obtain ⟨cs, hcs⟩ := reaches_iff_exec.mp hx
  have hunchanged := h (meeting host a b tree) (actionFor a action) (meeting_served host a b tree)
    hb (actionFor_sent a action) cs
  rwa [hcs] at hunchanged

end Meeting

/-- A file that both have. -/
theorem files_of_isolated (h : Isolated host a b) :
    ∀ l ∈ a.info.touches host emptyTree, l ∉ b.files host := by
  intro l hl hb
  obtain ⟨reports, hrest⟩ := reaches_rollOut (w := meeting host a b fun _ => none)
    host (actionFor a "install") none "GET /info: 404 (paquet non assigné ?)"
    (fun info binPath =>
      (report a.pkgId "installed" info.version none none).andThen fun _ =>
      (invokeEnroll a.pkgId binPath info).andThen fun pluginIdLocal =>
      report a.pkgId "started" info.version (some pluginIdLocal) none) rfl
  obtain ⟨r, v, hrun, hpresent, -⟩ := (canLeave_downloadAll
    (w := { meeting host a b fun _ => none with reports := reports }) hl a.pkgId true).andThen _
  have hunchanged := h.unchanged "install" (handle_install host a) (hrest r v hrun)
  rw [hunchanged.files l hb] at hpresent
  cases hpresent

/-- An update that finds its binary gets to kill. -/
theorem exists_killed (action : PendingPluginAction) {m : PluginManifest}
    {info : PluginInfoForAgent} {binPath : String}
    (hm : v.manifests a.pluginId = some (.manifest m))
    (hbinary : (v.tree.content (host.locate binPath)).isSome = true) :
    ∃ u, u.processes = v.processes.filter
        (fun p => !host.sameImage (imageName p) info.artifactFilename) ∧
      ∃ r, Reaches (perform host) (replaceBinary action a.pluginId info binPath) v r u := by
  obtain ⟨bytes, hbytes⟩ := Option.isSome_iff_exists.mp hbinary
  have hupdate : perform host (.invokeWedrPlugin action.pluginPackageId
      (.update a.pluginId binPath)) v {} =
      (.ok "", v.setManifest a.pluginId (some (.manifest { m with
        expectedPath := binPath
        expectedSha256 := some (host.sha256 bytes) }))) := by
    simp [perform, Machine.wedrPlugin, hm, hbytes]
  let killed : Machine := (perform host (.taskkill info.artifactFilename)
    (v.setManifest a.pluginId (some (.manifest { m with
      expectedPath := binPath
      expectedSha256 := some (host.sha256 bytes) }))) {}).2
  obtain ⟨r, hr⟩ := reaches_end host
    (report action.pluginPackageId "started" info.version (some a.pluginId) none) killed
  refine ⟨killed, rfl, r, .andThen (a := "") (.mapError (r := .ok "") (.op {} ?_)) (.op {} hr)⟩
  rw [hupdate]
  exact .pure _ _

/-- An image name that stands for both. -/
theorem image_of_isolated (h : Isolated host a b) (haccepted : b.installed.Accepted host)
    (hcompletes : a.info.completes host = true) :
    host.sameImage b.installed.artifactFilename a.info.artifactFilename = false := by
  by_contra hsame
  rw [Bool.not_eq_false] at hsame
  obtain ⟨t, hplaced, hbinary⟩ := (Option.any_eq_true _ _).mp hcompletes
  obtain ⟨reports, hrest⟩ := reaches_rollOut (w := meeting host a b fun _ => none)
    host (actionFor a "update") (some a.pluginId) "GET /info: 404"
    (replaceBinary (actionFor a "update") a.pluginId) rfl
  obtain ⟨v, rfl, hrun⟩ := reaches_downloadAll_placed
    (w := { meeting host a b fun _ => none with reports := reports }) hplaced a.pkgId
  have hframe : Frame (fun _ => False) _ v :=
    (wp_reaches (keeps_downloadAll a.pkgId (by simp)) hrun).1
  rw [FileTree.content_shape, Option.isSome_map] at hbinary
  obtain ⟨u, hprocesses, hu⟩ := exists_killed (v := v) (actionFor a "update")
    (by rw [hframe.manifests]; exact manifests_meeting host a b fun _ => none) hbinary
  obtain ⟨r, hkill⟩ := hu
  have hrun' := hrest r u (hrun.andThen hkill)
  rw [← handleUpdate_eq rfl] at hrun'
  have hunchanged := h.unchanged "update" (handle_update host a) hrun'
  have hleft := hunchanged.processes
  rw [hprocesses, hframe.processes] at hleft
  simp [meeting, imageName_binaryPath haccepted, hsame] at hleft

/-! ### A revocation that finds everything -/

theorem reaches_readManifest {m : PluginManifest} {pluginId : String}
    (hm : w.manifests pluginId = some (.manifest m)) :
    Reaches (perform host) (readManifestExpectedPath host pluginId) w (.ok m.expectedPath) w := by
  have htext : Reaches (perform host) (call (.readManifest pluginId)) w
      (.ok (ManifestText.manifest m) : Except String ManifestText) w := by
    refine .op {} ?_
    simp only [perform, hm, if_true]
    exact .pure _ _
  exact htext.mapError.andThen (.pure _ _)

theorem reaches_revoke {m : PluginManifest} {pluginId : String} (pkgId : String)
    (f : String → String) (hm : w.manifests pluginId = some (.manifest m)) :
    Reaches (perform host) ((call (.invokeWedrPlugin pkgId (.revoke pluginId))).mapError f) w
      (.ok "") (w.setManifest pluginId (some (.manifest { m with revoked := true }))) := by
  refine .op {} ?_
  simp only [perform, Machine.wedrPlugin, hm, if_true]
  exact .pure _ _

theorem reaches_remove {m : PluginManifest} {pluginId : String} (pkgId : String)
    (f : String → String) (hm : w.manifests pluginId = some (.manifest m)) :
    Reaches (perform host) ((call (.invokeWedrPlugin pkgId (.remove pluginId))).mapError f) w
      (.ok "") (w.setManifest pluginId none) := by
  refine .op {} ?_
  simp only [perform, Machine.wedrPlugin, hm, if_true]
  exact .pure _ _

/-- It removes the directory. -/
theorem exists_revoked (action : PendingPluginAction) {m : PluginManifest} {pluginId dir : String}
    (hid : action.pluginIdLocal = some pluginId)
    (hm : w.manifests pluginId = some (.manifest m))
    (hdir : WinPath.parent m.expectedPath = some dir)
    (hisdir : w.tree.isDir (host.locate dir) = true) :
    ∃ r u, Reaches (perform host) (handleRevoke host action) w r u ∧
      ∀ l, host.locate dir <+: l → u.tree l = none := by
  let revoked := w.setManifest pluginId (some (.manifest { m with revoked := true }))
  let removed := revoked.setManifest pluginId none
  let pruned := removed.removeTree (host.locate dir) {}
  have hrevoked : revoked.manifests pluginId = some (.manifest { m with revoked := true }) := by
    simp [revoked, Machine.setManifest]
  have hcleanup : Reaches (perform host) (cleanup (some m.expectedPath)) removed () pruned := by
    have hremoved : removed.tree.isDir (host.locate dir) = true := hisdir
    simp only [cleanup, hdir]
    refine .op {} ?_
    simp only [perform, hremoved, if_true]
    exact .pure _ _
  obtain ⟨r, hr⟩ := reaches_end host
    (report action.pluginPackageId "revoked" action.version (some pluginId) none) pruned
  refine ⟨r, pruned, ?_, fun l hl => ?_⟩
  · rw [handleRevoke]
    rw [hid]
    exact (reaches_readManifest hm).bind ((reaches_revoke _ _ hm).andThen
      ((reaches_remove _ _ hrevoked).andThen (hcleanup.bind hr)))
  · simp [pruned, Machine.removeTree, FileTree.prune, hl]

/-- A directory of one that has files of the other in it. -/
theorem directory_of_isolated (h : Isolated host a b) :
    ∀ dir, WinPath.parent (a.installed.binaryPath host) = some dir →
      ∀ l ∈ b.files host, host.locate dir <+: l → l = host.locate dir := by
  intro dir hdir l hb hbelow
  by_contra hne
  obtain ⟨tree, hfile, hisdir⟩ : ∃ tree : FileTree String (List UInt8),
      tree l = some (.file []) ∧ tree.isDir (host.locate dir) = true :=
    ⟨fun l' => if l' = l then some (.file []) else some .dir, by simp,
      by simp [FileTree.isDir, Ne.symm hne]⟩
  rw [← expectedPath_enrolled a.pluginId (a.installed.binaryPath host)] at hdir
  obtain ⟨r, v, hrun, hgone⟩ := exists_revoked (w := meeting host a b tree)
    (actionFor a "revoke") rfl (manifests_meeting host a b tree) hdir hisdir
  have hsame := (h.unchanged "revoke" (handle_revoke host a) hrun).files l hb
  have hcontent : (meeting host a b tree).tree.content l = some [] :=
    FileTree.content_eq_some_iff.mpr hfile
  rw [hcontent, FileTree.content, hgone l hbelow] at hsame
  cases hsame

/-- A package of which the server offers what is installed. -/
def packageOf (pkgId pluginId name version artifactFilename : String) : Package :=
  let info : PluginInfoForAgent :=
    { acmeInfo with name := name, version := version, artifactFilename := artifactFilename }
  { pkgId := pkgId, pluginId := pluginId, info := info, installed := info }

/-- A package of one file. -/
def acme : Package := packageOf "pkg" "8f3c" "acme" "1.0" "acme.exe"

/-- Another package of one file. -/
def sensor : Package := packageOf "pkg-2" "91d0" "sensor" "1.0" "sensor.exe"

/-- The binaries of two vendors can have one name, and then an update of one kills the other. -/
def otherAgent : Package := packageOf "pkg-3" "77aa" "sensor" "1.0" "acme.exe"

/-- The version `.` is accepted, and the directory of such a package is that of all versions. -/
theorem dot_not_isolated :
    ¬Isolated plainHost (packageOf "pkg-4" "0b11" "acme" "." "tool.exe") acme := by
  intro h
  have hparent : WinPath.parent
      ((packageOf "pkg-4" "0b11" "acme" "." "tool.exe").installed.binaryPath plainHost)
        = some "C:\\ProgramData\\WazabiEDR\\plugin_bin\\acme" := by decide +kernel
  have hfile : plainHost.locate acmePath ∈ acme.files plainHost := by decide +kernel
  have heq := directory_of_isolated h _ hparent _ hfile (by decide +kernel)
  exact absurd heq (by decide +kernel)

end Plugin

end WazabiAgent
