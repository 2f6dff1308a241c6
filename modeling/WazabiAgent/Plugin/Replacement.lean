import WazabiAgent.Plugin.Assignment

/-!
# The files that are replaced

An installation and an update put the files of a package in their places one after the other, each
by way of a partial file. Where that fails without a fault of the system, because a name is refused
or a directory is in the way, depends on the shape of the tree and can be computed: `touches` is
what the downloads come to write, `placed` the shape after the last of them.

## Main definitions

* `PluginInfoForAgent.touches`, `PluginInfoForAgent.placed` — what is written, and how it ends
* `Frame` — nothing has changed but files outside of a set, directories and reports

## Main results

* `keeps_downloadAll` — the downloads change no file but those of `touches`
-/

namespace WazabiAgent

namespace Plugin

open Prog

variable {host : PluginHost}

/-! ### Shapes -/

/-- The shape once the partial file is there. -/
def started (host : PluginHost) (dir : String) (t : FileTree String Unit) (name : String) :
    Option (FileTree String Unit) :=
  match validateFilename host name with
  | .error _ => none
  | .ok _ => (createParent host t (partialPath dir name)).bind fun t =>
      t.write (host.locate (partialPath dir name)) ()

/-- The shape once a file is in its place. -/
def place (host : PluginHost) (dir : String) (t : FileTree String Unit) (name : String) :
    Option (FileTree String Unit) :=
  (started host dir t name).bind fun t =>
    t.rename (host.locate (partialPath dir name)) (host.locate (finalPath dir name))

/-- What is written on the way. -/
def touched (host : PluginHost) (dir : String) (t : FileTree String Unit) (name : String) :
    List Location :=
  if (place host dir t name).isSome then
    [host.locate (partialPath dir name), host.locate (finalPath dir name)]
  else if (started host dir t name).isSome then [host.locate (partialPath dir name)]
  else []

/-- What is written by a download of one file after the other. -/
def touchedAll (host : PluginHost) (dir : String) :
    FileTree String Unit → List String → List Location
  | _, [] => []
  | t, name :: names =>
    touched host dir t name ++
      match place host dir t name with
      | some t => touchedAll host dir t names
      | none => []

namespace PluginInfoForAgent

variable (info : PluginInfoForAgent)

/-- The files of the package. -/
def filenames : List String := info.artifactFilename :: info.extras.map PluginExtraInfo.filename

/-- What the downloads of the package write. -/
def touches (host : PluginHost) (t : FileTree String Unit) : List Location :=
  match pluginDir host info with
  | .ok dir => touchedAll host dir t info.filenames
  | .error _ => []

/-- The shape once all files of the package are in their places. -/
def placed (host : PluginHost) (t : FileTree String Unit) : Option (FileTree String Unit) :=
  match pluginDir host info with
  | .ok dir => info.filenames.foldlM (place host dir) t
  | .error _ => none

/-- Where the artifact of the package is. -/
def binaryPath (host : PluginHost) : String := finalPath (versionDir host info) info.artifactFilename

end PluginInfoForAgent

/-- A package has a directory only if both names pass. -/
theorem checked_of_pluginDir {info : PluginInfoForAgent} {dir : String}
    (h : pluginDir host info = .ok dir) :
    validateSegment host info.name "plugin.name" = .ok () ∧
      validateSegment host info.version "plugin.version" = .ok () ∧
        dir = versionDir host info := by
  rw [pluginDir] at h
  cases hname : validateSegment host info.name "plugin.name" with
  | error e =>
    rw [hname] at h
    cases h
  | ok _ =>
    cases hversion : validateSegment host info.version "plugin.version" with
    | error e =>
      rw [hname, hversion] at h
      cases h
    | ok _ =>
      rw [hname, hversion] at h
      exact ⟨rfl, rfl, (Except.ok.inj h).symm⟩

theorem pluginDir_eq {info : PluginInfoForAgent} {dir : String}
    (h : pluginDir host info = .ok dir) : dir = versionDir host info :=
  (checked_of_pluginDir h).2.2

theorem createParent_shape (t : FileTree String (List UInt8)) (path : String) :
    createParent host t.shape path = (createParent host t path).map FileTree.shape := by
  unfold createParent
  split
  · rfl
  · exact t.createDirAll_shape _

/-- The files stay. -/
theorem content_createParent {t t' : FileTree String (List UInt8)} {path : String}
    (h : createParent host t path = some t') (l : Location) : t'.content l = t.content l := by
  rw [createParent] at h
  split at h
  · rw [Option.some.inj h]
  · exact FileTree.content_createDirAll h l

/-! ### What the downloads leave alone -/

/-- Between `w` and `v` only files outside of `S`, directories and reports have changed. -/
structure Frame (S : Location → Prop) (w v : Machine) : Prop where
  content : ∀ l, S l → v.tree.content l = w.tree.content l
  manifests : v.manifests = w.manifests
  processes : v.processes = w.processes
  catalog : v.catalog = w.catalog

variable {S : Location → Prop} {w v u : Machine}

theorem Frame.refl (S : Location → Prop) (w : Machine) : Frame S w w :=
  ⟨fun _ _ => rfl, rfl, rfl, rfl⟩

theorem Frame.trans (h : Frame S w v) (h' : Frame S v u) : Frame S w u where
  content l hl := (h'.content l hl).trans (h.content l hl)
  manifests := h'.manifests.trans h.manifests
  processes := h'.processes.trans h.processes
  catalog := h'.catalog.trans h.catalog

/-- Another tree with the same files of `S`. -/
theorem Frame.tree (h : Frame S w v) {t : FileTree String (List UInt8)}
    (ht : ∀ l, S l → t.content l = v.tree.content l) : Frame S w { v with tree := t } where
  content l hl := (ht l hl).trans (h.content l hl)
  manifests := h.manifests
  processes := h.processes
  catalog := h.catalog

theorem content_set (t : FileTree String (List UInt8)) {l : Location} (hl : ¬S l)
    (node : Option (Node (List UInt8))) (l' : Location) (hl' : S l') :
    (t.set l node).content l' = t.content l' :=
  t.content_set_of_ne node fun heq => hl (heq ▸ hl')

/-- A download does nothing, creates a directory, or goes on to write the file. -/
theorem download_cases (host : PluginHost) (w : Machine) (dest : String) (c : Choice) :
    (∃ e, w.download host dest c = (.error e, w)) ∨
      ∃ t, createParent host w.tree dest = some t ∧
        ((∃ e, w.download host dest c = (.error e, { w with tree := t })) ∨
          ∃ r t', t.write (host.locate dest) c.body = some t' ∧
            w.download host dest c = (r, { w with tree := t' })) := by
  rw [Machine.download]
  cases hparent : createParent host w.tree dest with
  | none => exact .inl ⟨c.error, rfl⟩
  | some t =>
    dsimp only
    cases hwrite : t.write (host.locate dest) c.body with
    | none =>
      dsimp only
      split_ifs
      · exact .inr ⟨t, rfl, .inl ⟨c.error, rfl⟩⟩
      · exact .inl ⟨c.error, rfl⟩
    | some t' =>
      dsimp only
      split_ifs
      · exact .inr ⟨t, rfl, .inr ⟨.ok c.header, t', hwrite, rfl⟩⟩
      · exact .inr ⟨t, rfl, .inr ⟨.error c.error, t', hwrite, rfl⟩⟩
      · exact .inl ⟨c.error, rfl⟩

theorem started_eq {dir name : String} (hname : validateFilename host name = .ok ())
    {t t' t'' : FileTree String (List UInt8)} {body : List UInt8}
    (hparent : createParent host t (partialPath dir name) = some t')
    (hwrite : t'.write (host.locate (partialPath dir name)) body = some t'') :
    started host dir t.shape name = some t''.shape := by
  rw [started, hname]
  dsimp only
  rw [createParent_shape, hparent, Option.map_some, Option.bind_some, t'.write_shape _ body, hwrite,
    Option.map_some]

theorem mem_touched_of_started {dir name : String} {t t' : FileTree String Unit}
    (h : started host dir t name = some t') :
    host.locate (partialPath dir name) ∈ touched host dir t name := by
  rw [touched]
  split_ifs <;> simp_all

theorem mem_touched_of_place {dir name : String} {t t' : FileTree String Unit}
    (h : place host dir t name = some t') :
    host.locate (finalPath dir name) ∈ touched host dir t name := by
  simp [touched, h]

/-- The first request. -/
theorem frame_download {dir name : String} (hname : validateFilename host name = .ok ())
    (hS : ∀ l ∈ touched host dir w.tree.shape name, ¬S l) (c : Choice) :
    Frame S w (w.download host (partialPath dir name) c).2 ∧
      ∀ sha, (w.download host (partialPath dir name) c).1 = .ok sha →
        started host dir w.tree.shape name
          = some (w.download host (partialPath dir name) c).2.tree.shape := by
  rcases download_cases host w (partialPath dir name) c with
    ⟨e, heq⟩ | ⟨t, hparent, ⟨e, heq⟩ | ⟨r, t', hwrite, heq⟩⟩
  · rw [heq]
    exact ⟨.refl S w, by simp⟩
  · rw [heq]
    exact ⟨(Frame.refl S w).tree fun l _ => content_createParent hparent l, by simp⟩
  · have hstarted := started_eq hname hparent hwrite
    have hsrc := hS _ (mem_touched_of_started hstarted)
    rw [heq]
    refine ⟨(Frame.refl S w).tree fun l hl => ?_, fun _ _ => hstarted⟩
    rw [(FileTree.write_eq_some_iff.mp hwrite).2, content_set t hsrc _ l hl]
    exact content_createParent hparent l

theorem keeps_downloadFile {dir name : String} (pkgId : String) (isPrimary : Bool)
    (hname : validateFilename host name = .ok ())
    (hS : ∀ l ∈ touched host dir w.tree.shape name, ¬S l) :
    Keeps host (Frame S w) (downloadFile pkgId dir name isPrimary)
      (fun r v => Frame S w v ∧
        ∀ sha, r = .ok sha → started host dir w.tree.shape name = some v.tree.shape) w := by
  have hcall (c : Choice) (f : String → String) :
      Frame S w (w.download host (partialPath dir name) c).2 ∧
        ∀ sha, (w.download host (partialPath dir name) c).1.mapError f = .ok sha →
          started host dir w.tree.shape name
            = some (w.download host (partialPath dir name) c).2.tree.shape := by
    obtain ⟨hframe, hstarted⟩ := frame_download hname hS c
    refine ⟨hframe, fun sha hsha => ?_⟩
    cases hr : (w.download host (partialPath dir name) c).1 with
    | ok sha' => exact hstarted sha' hr
    | error e =>
      rw [hr] at hsha
      cases hsha
  rw [downloadFile]
  split_ifs
  · rw [Keeps, wp_mapError]
    exact keeps_call (.refl S w) fun c => hcall c _
  · rw [Keeps, wp_mapError]
    exact keeps_call (.refl S w) fun c => hcall c _

/-- The removal of a file outside of `S`. -/
theorem frame_removeFile {path : String} (h : Frame S w v) (hS : ¬S (host.locate path))
    (c : Choice) : Frame S w (perform host (.removeFile path) v c).2 := by
  simp only [perform]
  cases hremove : v.tree.removeFile (host.locate path) with
  | none => exact h
  | some t =>
    dsimp only
    split_ifs
    · refine h.tree fun l hl => ?_
      rw [(FileTree.removeFile_eq_some_iff.mp hremove).2, content_set v.tree hS _ l hl]
    · exact h

theorem keeps_verifySha {path : String} (sha : String) (h : Frame S w v)
    (hS : ¬S (host.locate path)) :
    Keeps host (Frame S w) (verifySha host path sha)
      (fun r u => Frame S w u ∧ ∀ x, r = .ok x → u.tree = v.tree) v := by
  rw [verifySha]
  split_ifs
  · exact keeps_pure ⟨h, fun _ _ => rfl⟩
  · rw [Keeps, wp_andThen]
    refine keeps_call h fun c => ?_
    have hsame : (perform host (.sha256FileHex path) v c).2 = v := by
      simp only [perform]
      split <;> rfl
    rw [hsame]
    cases (perform host (.sha256FileHex path) v c).1 with
    | error e => exact ⟨h, by simp⟩
    | ok actual =>
      dsimp only
      split_ifs
      · exact keeps_pure ⟨h, fun _ _ => rfl⟩
      · rw [call_bind]
        exact keeps_op h fun c => keeps_pure ⟨frame_removeFile h hS c, by simp⟩

theorem started_content {dir name : String} {t t' : FileTree String Unit}
    (h : started host dir t name = some t') :
    (t'.content (host.locate (partialPath dir name))).isSome = true := by
  rw [started] at h
  split at h
  · cases h
  · obtain ⟨t₁, -, hwrite⟩ := Option.bind_eq_some_iff.mp h
    rw [(FileTree.write_eq_some_iff.mp hwrite).2, FileTree.content_set_file]
    rfl

/-- From the rename on. -/
theorem keeps_renamePartial {dir name : String} (h : Frame S w v)
    (hsrc : ¬S (host.locate (partialPath dir name)))
    (hrename : ∀ t, v.tree.rename (host.locate (partialPath dir name))
      (host.locate (finalPath dir name)) = some t →
        ¬S (host.locate (finalPath dir name)) ∧ place host dir w.tree.shape name = some t.shape) :
    Keeps host (Frame S w) (renamePartial host dir name)
      (fun r u => Frame S w u ∧ ∀ p, r = .ok p →
        p = finalPath dir name ∧ place host dir w.tree.shape name = some u.tree.shape) v := by
  have herror (c : Choice) (e : String) : Frame S w (perform host
      (.removeFile (partialPath dir name)) v c).2 ∧ ∀ p, (.error e : Except String String) = .ok p →
        p = finalPath dir name ∧ place host dir w.tree.shape name =
          some (perform host (.removeFile (partialPath dir name)) v c).2.tree.shape :=
    ⟨frame_removeFile h hsrc c, by simp⟩
  unfold renamePartial
  dsimp only
  rw [call_bind]
  refine keeps_op h fun c => ?_
  simp only [perform]
  cases hmove : v.tree.rename (host.locate (partialPath dir name))
      (host.locate (finalPath dir name)) with
  | none => exact keeps_op h fun c => keeps_pure (herror c _)
  | some t =>
    obtain ⟨hdst, hplace⟩ := hrename t hmove
    dsimp only
    split_ifs
    · refine keeps_pure ⟨h.tree fun l hl => ?_, fun p hp => ?_⟩
      · obtain ⟨a, -, -, rfl⟩ := FileTree.rename_eq_some_iff.mp hmove
        rw [content_set _ hdst _ l hl, content_set _ hsrc _ l hl]
      · exact ⟨(Except.ok.inj hp).symm, hplace⟩
    · exact keeps_op h fun c => keeps_pure (herror c _)

theorem keeps_replaceFile {dir name : String} (h : Frame S w v)
    (hS : ∀ l ∈ touched host dir w.tree.shape name, ¬S l)
    (hstarted : started host dir w.tree.shape name = some v.tree.shape) :
    Keeps host (Frame S w) (replaceFile host dir name)
      (fun r u => Frame S w u ∧ ∀ p, r = .ok p →
        p = finalPath dir name ∧ place host dir w.tree.shape name = some u.tree.shape) v := by
  have hsrc := hS _ (mem_touched_of_started hstarted)
  have hplace : place host dir w.tree.shape name =
      (v.tree.rename (host.locate (partialPath dir name)) (host.locate (finalPath dir name))).map
        FileTree.shape := by
    rw [place, hstarted, Option.bind_some, FileTree.rename_shape]
  have hrename (t : FileTree String (List UInt8)) (ht : v.tree.rename
      (host.locate (partialPath dir name)) (host.locate (finalPath dir name)) = some t) :
      ¬S (host.locate (finalPath dir name)) ∧
        place host dir w.tree.shape name = some t.shape := by
    rw [ht] at hplace
    exact ⟨hS _ (mem_touched_of_place hplace), hplace⟩
  unfold replaceFile
  dsimp only
  rw [call_bind]
  refine keeps_op h fun c => ?_
  rw [Keeps, wp_andThen]
  have hsame : (perform host (.pathExists (finalPath dir name)) v c).2 = v := rfl
  rw [hsame]
  cases (perform host (.pathExists (finalPath dir name)) v c).1 with
  | false => exact keeps_pure (keeps_renamePartial h hsrc hrename)
  | true =>
    rw [if_pos rfl, wp_mapError]
    refine keeps_call h fun c => ?_
    simp only [perform]
    cases hremove : v.tree.removeFile (host.locate (finalPath dir name)) with
    | none => exact ⟨h, by simp⟩
    | some t =>
      -- what can be removed can be replaced
      have hfile := (FileTree.removeFile_eq_some_iff.mp hremove).1
      obtain ⟨b, hb⟩ := Option.isSome_iff_exists.mp hfile
      have hthere := started_content hstarted
      rw [FileTree.content_shape, Option.isSome_map] at hthere
      obtain ⟨a, ha⟩ := Option.isSome_iff_exists.mp hthere
      have hdst := (hrename _ (FileTree.rename_eq_some_iff.mpr
        ⟨a, ha, FileTree.isDir_of_content hb, rfl⟩)).1
      have hframe := frame_removeFile h hdst c
      simp only [perform, hremove] at hframe
      split_ifs with hok
      · rw [if_pos hok] at hframe
        exact keeps_renamePartial hframe hsrc fun t' ht' =>
          hrename t' (FileTree.rename_of_removeFile hremove ht')
      · exact ⟨h, by simp⟩

/-- One file. -/
theorem keeps_downloadAndVerify {dir name : String} (pkgId : String) (isPrimary : Bool)
    (hS : ∀ l ∈ touched host dir w.tree.shape name, ¬S l) :
    Keeps host (Frame S w) (downloadAndVerify host pkgId dir name isPrimary)
      (fun r u => Frame S w u ∧ ∀ p, r = .ok p →
        p = finalPath dir name ∧ place host dir w.tree.shape name = some u.tree.shape) w := by
  rw [downloadAndVerify]
  cases hname : validateFilename host name with
  | error e => exact keeps_pure ⟨.refl S w, by simp⟩
  | ok _ =>
    rw [Keeps, wp_andThen]
    refine wp_mono (fun r v hv => ?_) (keeps_downloadFile pkgId isPrimary hname hS)
    cases r with
    | error e => exact ⟨hv.1, by simp⟩
    | ok sha =>
      have hstarted := hv.2 sha rfl
      dsimp only
      rw [wp_andThen]
      refine wp_mono (fun r u hu => ?_)
        (keeps_verifySha sha hv.1 (hS _ (mem_touched_of_started hstarted)))
      cases r with
      | error e => exact ⟨hu.1, by simp⟩
      | ok x =>
        refine keeps_replaceFile hu.1 hS ?_
        rw [hu.2 x rfl]
        exact hstarted

/-- The extras. -/
theorem keeps_downloadExtras {dir : String} (pkgId : String) (extras : List PluginExtraInfo)
    (hS : ∀ l ∈ touchedAll host dir w.tree.shape (extras.map PluginExtraInfo.filename), ¬S l) :
    Keeps host (Frame S w) (downloadExtras host pkgId dir extras)
      (fun r u => Frame S w u ∧ ∀ x, r = .ok x →
        (extras.map PluginExtraInfo.filename).foldlM (place host dir) w.tree.shape
          = some u.tree.shape) w := by
  induction extras generalizing w with
  | nil => exact keeps_pure ⟨.refl S w, fun _ _ => rfl⟩
  | cons extra extras ih =>
    rw [List.map_cons, touchedAll, List.forall_mem_append] at hS
    rw [Keeps, downloadExtras, wp_andThen]
    refine wp_mono (fun r v hv => ?_) (keeps_downloadAndVerify pkgId false hS.1)
    cases r with
    | error e => exact ⟨hv.1, by simp⟩
    | ok p =>
      have hplace := (hv.2 p rfl).2
      rw [hplace] at hS
      refine wp_mono (fun r u hu => ⟨hv.1.trans hu.1, fun x hx => ?_⟩)
        (wp_mono_cut (fun _ hu => hv.1.trans hu) (ih hS.2))
      rw [List.map_cons, List.foldlM_cons, hplace]
      exact hu.2 x hx

/-- **The downloads** change nothing but what they touch, and after the last the tool finds the
files in their places. -/
theorem keeps_downloadAll (pkgId : String) {info : PluginInfoForAgent}
    (hS : ∀ l ∈ info.touches host w.tree.shape, ¬S l) :
    Keeps host (Frame S w) (downloadAll host pkgId info)
      (fun r u => Frame S w u ∧ ∀ p, r = .ok p →
        p = info.binaryPath host ∧ info.placed host w.tree.shape = some u.tree.shape) w := by
  rw [downloadAll]
  unfold PluginInfoForAgent.touches at hS
  cases hdir : pluginDir host info with
  | error e => exact keeps_pure ⟨.refl S w, by simp⟩
  | ok dir =>
    rw [hdir, PluginInfoForAgent.filenames] at hS
    dsimp only at hS ⊢
    rw [touchedAll, List.forall_mem_append] at hS
    rw [Keeps, wp_andThen]
    refine wp_mono (fun r v hv => ?_) (keeps_downloadAndVerify pkgId true hS.1)
    cases r with
    | error e => exact ⟨hv.1, by simp⟩
    | ok p =>
      obtain ⟨rfl, hplace⟩ := hv.2 p rfl
      rw [hplace] at hS
      dsimp only
      rw [wp_andThen]
      refine wp_mono (fun r u hu => ?_)
        (wp_mono_cut (fun _ hu => hv.1.trans hu) (keeps_downloadExtras pkgId info.extras hS.2))
      cases r with
      | error e => exact ⟨hv.1.trans hu.1, by simp⟩
      | ok x =>
        refine keeps_pure ⟨hv.1.trans hu.1, fun p hp => ⟨?_, ?_⟩⟩
        · rw [← Except.ok.inj hp, pluginDir_eq hdir]
          rfl
        · rw [PluginInfoForAgent.placed]
          rw [hdir, PluginInfoForAgent.filenames]
          dsimp only
          rw [List.foldlM_cons, hplace]
          exact hu.2 x rfl

end Plugin

end WazabiAgent
