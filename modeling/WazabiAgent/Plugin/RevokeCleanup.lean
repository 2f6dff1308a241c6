import WazabiAgent.Plugin.PackageIsolation
import WazabiAgent.Plugin.RevokeRetry

/-!
# What a revocation deletes

`handle_revoke` removes the directory of a version with all that is in it. It takes that directory
to be the one in which the manifest says the binary is, wherever that may be. For a plugin that the
agent has installed it is. A plugin can also be enrolled by hand, for an executable that was there
before.

## Main definitions

* `RevokesInStore` — no directory is removed but that of a version
* `PinnedInStore` — the manifest is for a binary in such a directory, or in none

## Main results

* `revokesInStore_iff` — the one is the other
* `revoke_deletes_outside` — a plugin in `Program Files`, and one in the root of a drive
-/

namespace WazabiAgent

namespace Plugin

open Prog

variable {host : PluginHost} {action : PendingPluginAction} {w : Machine}

/-- `<name>/<version>` below `plugin_bin`. -/
def IsVersionDir (host : PluginHost) (l : Location) : Prop :=
  ∃ name version, l = host.locate (pluginBinDir host) ++ [name, version]

/-- A directory that is about to be removed is that of a version. -/
def PluginOp.RemovesVersion (host : PluginHost) {β : Type} : PluginOp β → Machine → Prop
  | .removeDirAll path, w =>
    w.tree.isDir (host.locate path) = true → IsVersionDir host (host.locate path)
  | _, _ => True

/-- Whatever the environment answers, the program comes to no other removal. -/
abbrev RemovesVersions (host : PluginHost) {α : Type} (p : Prog PluginOp α) (w : Machine) : Prop :=
  wpAt (perform host) (fun _ _ _ => True) Eq (PluginOp.RemovesVersion host) p (fun _ _ => True) w

/-- The revocation removes no directory but that of a version. -/
def RevokesInStore (host : PluginHost) (action : PendingPluginAction) (w : Machine) : Prop :=
  RemovesVersions host (handleRevoke host action) w

/-- The directory of the binary in the manifest, if it has one, is that of a version. -/
def PinnedInStore (host : PluginHost) (action : PendingPluginAction) (w : Machine) : Prop :=
  ∀ pluginId m dir, action.pluginIdLocal = some pluginId →
    w.manifests pluginId = some (.manifest m) → WinPath.parent m.expectedPath = some dir →
    w.tree.isDir (host.locate dir) = true → IsVersionDir host (host.locate dir)

/-! ### The operations of a revocation -/

/-- Operations that leave the files alone, but for a recursive removal. -/
def PluginOp.OnlyRemoves {β : Type} : PluginOp β → Prop
  | .reportPluginStatus .. | .invokeWedrPlugin .. | .readManifest _ | .removeDirAll _ => True
  | _ => False

/-- Those without it. -/
def PluginOp.NoFiles {β : Type} : PluginOp β → Prop
  | .reportPluginStatus .. | .invokeWedrPlugin .. | .readManifest _ => True
  | _ => False

theorem removesVersion_of_noFiles {β : Type} {o : PluginOp β} (ho : o.NoFiles) (w : Machine) :
    o.RemovesVersion host w := by
  cases o <;> first | exact ho.elim | trivial

theorem tree_invoke (w : Machine) (pkgId : String) (cli : CliCall) (c : Choice) :
    (perform host (.invokeWedrPlugin pkgId cli) w c).2.tree = w.tree := by
  rcases perform_invoke host w pkgId c cli with heq | heq
  · rw [heq]
  · obtain ⟨_, _, heq⟩ := Machine.wedrPlugin_frame heq
    rw [heq]

theorem tree_of_noFiles {β : Type} {o : PluginOp β} (ho : o.NoFiles) (w : Machine) (c : Choice) :
    (perform host o w c).2.tree = w.tree := by
  cases o with
  | reportPluginStatus pkgId r =>
    simp only [perform]
    split_ifs <;> rfl
  | invokeWedrPlugin pkgId cli => exact tree_invoke w pkgId cli c
  | readManifest pluginId =>
    simp only [perform]
    split <;> rfl
  | _ => exact ho.elim

theorem all_onlyRemoves_handleRevoke (host : PluginHost) (action : PendingPluginAction) :
    (handleRevoke host action).All PluginOp.OnlyRemoves :=
  all_handleRevoke action (fun _ => trivial) (fun _ _ => trivial) (fun _ _ => trivial)
    (fun _ => trivial) fun _ _ => trivial

/-! ### What is removed -/

/-- Outside the directories of versions, nothing has changed. -/
def Machine.KeptOutside (host : PluginHost) (w v : Machine) : Prop :=
  ∀ l, v.tree l ≠ w.tree l → ∃ dir, IsVersionDir host dir ∧ dir <+: l

theorem keptOutside_perform {β : Type} {o : PluginOp β} {v : Machine} (c : Choice)
    (ho : o.OnlyRemoves) (hremoves : o.RemovesVersion host v) (h : w.KeptOutside host v) :
    w.KeptOutside host (perform host o v c).2 := by
  by_cases hfiles : o.NoFiles
  · intro l
    rw [tree_of_noFiles hfiles v c]
    exact h l
  cases o with
  | removeDirAll path =>
    intro l hl
    cases hdir : v.tree.isDir (host.locate path) with
    | false =>
      simp only [perform, hdir, Bool.false_eq_true, if_false] at hl
      exact h l hl
    | true =>
      simp only [perform, hdir, if_true] at hl
      by_cases hbelow : host.locate path <+: l
      · exact ⟨_, hremoves hdir, hbelow⟩
      · refine h l fun heq => hl ?_
        simp only [Machine.removeTree, FileTree.prune, hbelow, false_and, if_false]
        exact heq
  | _ => first | exact absurd trivial hfiles | exact ho.elim

theorem keptOutside_of_revokesInStore (h : RevokesInStore host action w) (cs : List Choice) :
    w.KeptOutside host (exec (perform host) (handleRevoke host action) w cs).2 :=
  wp_exec (R := Eq) (J := w.KeptOutside host)
    (wp_of_wpAt (G := PluginOp.RemovesVersion host) (Q := fun _ _ => True)
      (all_onlyRemoves_handleRevoke host action) (fun _ _ hv heq => heq ▸ hv)
      (fun _ _ c ho hremoves hv => keptOutside_perform c ho hremoves hv) h
      fun _ hl => absurd rfl hl) cs

/-! ### The condition -/

theorem pinned_of_revokesInStore (h : RevokesInStore host action w) :
    PinnedInStore host action w := by
  have : IsPreorder Machine Eq := {}
  intro pluginId m dir hid hm hdir hisdir
  unfold RevokesInStore handleRevoke at h
  rw [hid] at h
  dsimp only at h
  have hread := wpAt_reaches (wpAt_bind.mp h) (reaches_readManifest hm)
  have hrevoke := wpAt_reaches (wpAt_andThen.mp hread) (reaches_revoke _ _ hm)
  have hremove := wpAt_reaches (wpAt_andThen.mp hrevoke)
    (reaches_remove (m := { m with revoked := true }) _ _ (by simp [Machine.setManifest]))
  simp only [Except.toOption, cleanup, hdir] at hremove
  exact wpAt_guard hremove hisdir

/-- A call of the tool, and what comes after it if the tool succeeds. -/
theorem removesVersions_invoke {α : Type} {v : Machine} {pkgId : String} {cli : CliCall}
    {f : String → String} {g : String → Prog PluginOp (Except String α)}
    (h : ∀ c x, (perform host (.invokeWedrPlugin pkgId cli) v c).1 = .ok x →
      RemovesVersions host (g x) (perform host (.invokeWedrPlugin pkgId cli) v c).2) :
    RemovesVersions host (((call (.invokeWedrPlugin pkgId cli)).mapError f).andThen g) v := by
  rw [RemovesVersions, wpAt_andThen, wpAt_mapError]
  refine wpAt_call trivial fun c _ => ?_
  cases hr : (perform host (.invokeWedrPlugin pkgId cli) v c).1 with
  | error e => trivial
  | ok x => exact h c x hr

theorem removesVersions_cleanup {α : Type} {v : Machine} {binPath : Option String}
    {p : Prog PluginOp α}
    (h : ∀ path dir, binPath = some path → WinPath.parent path = some dir →
      v.tree.isDir (host.locate dir) = true → IsVersionDir host (host.locate dir))
    (hp : ∀ v, RemovesVersions host p v) :
    RemovesVersions host (cleanup binPath >>= fun _ => p) v := by
  cases binPath with
  | none => exact hp v
  | some path =>
    simp only [cleanup]
    split
    · exact hp v
    · next dir hdir =>
      intro v' hv
      obtain rfl := hv
      exact ⟨h path dir rfl hdir, fun c _ => hp _⟩

theorem revokesInStore_of_pinned (h : PinnedInStore host action w) :
    RevokesInStore host action w := by
  have : IsPreorder Machine Eq := {}
  unfold RevokesInStore handleRevoke
  cases hid : action.pluginIdLocal with
  | none => exact fun _ _ => trivial
  | some pluginId =>
    refine wpAt_bind.mpr (wpAt_mono ?_ (wpAt_of_wp (all_readManifestExpectedPath pluginId trivial)
      (fun o w ho => removesVersion_of_noFiles ho w)
      (keeps_readManifestExpectedPath (J := fun _ => True) trivial pluginId)))
    rintro r v ⟨hv, hpath⟩
    obtain rfl := hv.symm
    refine removesVersions_invoke fun c x hx => removesVersions_invoke fun c' x' _ =>
      removesVersions_cleanup (fun path dir hr hdir hisdir => ?_) fun v => ?_
    · -- the tool knows the id, so what was read is the path of the manifest
      obtain ⟨m, hm⟩ := manifest_of_revoke hx
      rw [tree_invoke, tree_invoke] at hisdir
      cases r with
      | error e => cases hr
      | ok read =>
        obtain rfl : read = path := Option.some.inj hr
        exact h pluginId m dir hid hm (hpath read m rfl hm ▸ hdir) hisdir
    · exact wpAt_call trivial fun _ _ => trivial

/-- **A revocation deletes only inside the store** exactly if the manifest is for a binary in the
directory of a version, or in none that is there. And then it leaves everything else as it was,
wherever it stops. -/
theorem revokesInStore_iff (host : PluginHost) (action : PendingPluginAction) (w : Machine) :
    (RevokesInStore host action w ↔ PinnedInStore host action w) ∧
      (PinnedInStore host action w → ∀ cs,
        w.KeptOutside host (exec (perform host) (handleRevoke host action) w cs).2) :=
  ⟨⟨pinned_of_revokesInStore, revokesInStore_of_pinned⟩,
    fun h cs => keptOutside_of_revokesInStore (revokesInStore_of_pinned h) cs⟩

/-! ### Enrolled by hand -/

/-- A machine with an application of its own, which has been enrolled from `path`. -/
def enrolledFrom (path : String) : Machine where
  tree l :=
    if l ∈ [["Program Files", "Acme", "acme.exe"], ["Program Files", "Acme", "orders.db"]] then
      some (.file [77, 90])
    else if l <+: ["Program Files", "Acme"] then some .dir
    else none
  manifests id :=
    if id = "8f3c" then some (.manifest { acmeManifest with expectedPath := path }) else none

/-- The machine after a revocation in which nothing fails. -/
def revokedFrom (path : String) : Option (Except String Unit) × Machine :=
  exec (perform plainHost) (handleRevoke plainHost revokeAcme) (enrolledFrom path)
    [{}, {}, {}, {}, {}]

/-- A plugin in the store is revoked with its directory, and all else stays. -/
theorem acme_revokesInStore : RevokesInStore plainHost revokeAcme acmeMachine ∧
    acmeMachine.KeptOutside plainHost
      (exec (perform plainHost) (handleRevoke plainHost revokeAcme) acmeMachine
        [{}, {}, {}]).2 := by
  have hpinned : PinnedInStore plainHost revokeAcme acmeMachine := by
    intro pluginId m dir hid hm hdir _
    obtain rfl : "8f3c" = pluginId := Option.some.inj hid
    obtain rfl : acmeManifest = m := ManifestText.manifest.inj (Option.some.inj hm)
    obtain rfl := Option.some.inj hdir
    exact ⟨"acme", "1.0", by decide +kernel⟩
  obtain ⟨hiff, hkept⟩ := revokesInStore_iff plainHost revokeAcme acmeMachine
  exact ⟨hiff.mpr hpinned, hkept hpinned _⟩

/-- **A revocation deletes what is not the agent's**: the whole directory of an application, and
from the root of a drive the whole drive. -/
theorem revoke_deletes_outside :
    ¬RevokesInStore plainHost revokeAcme (enrolledFrom "C:\\Program Files\\Acme\\acme.exe") ∧
    (revokedFrom "C:\\Program Files\\Acme\\acme.exe").1 = some (.ok ()) ∧
    (enrolledFrom "").tree ["Program Files", "Acme", "orders.db"] ≠ none ∧
    (revokedFrom "C:\\Program Files\\Acme\\acme.exe").2.tree
      ["Program Files", "Acme", "orders.db"] = none ∧
    (revokedFrom "C:\\acme.exe").1 = some (.ok ()) ∧
    ∀ l, (revokedFrom "C:\\acme.exe").2.tree l = none := by
  refine ⟨fun h => ?_, by decide +kernel, by decide +kernel, by decide +kernel,
    by decide +kernel, fun l => ?_⟩
  · obtain ⟨name, version, heq⟩ := pinned_of_revokesInStore h "8f3c" _
      "C:\\Program Files\\Acme" rfl rfl (by decide +kernel) (by decide +kernel)
    -- a directory of the store has five names
    have hroot : (plainHost.locate (pluginBinDir plainHost)).length = 3 := by decide +kernel
    have hlength := congrArg List.length heq
    rw [List.length_append, hroot] at hlength
    have hshort : (plainHost.locate "C:\\Program Files\\Acme").length = 2 := by decide +kernel
    rw [hshort] at hlength
    cases hlength
  · have hroot : (revokedFrom "C:\\acme.exe").2.tree
        = (enrolledFrom "C:\\acme.exe").tree.prune [] fun _ => false := rfl
    rw [hroot]
    simp [FileTree.prune]

end Plugin

end WazabiAgent
