import WazabiAgent.Plugin.RollOut

/-!
# An update that fails

A plugin can be run as long as the file that its manifest names passes the checks of path and hash
of the handshake. An update writes the new files before it pins the manifest to them, and where the
version stays the same these are the files of the plugin that is installed.

## Main definitions

* `Machine.Runnable` — a process started from the manifest passes the checks
* `StaysRunnable` — whatever goes wrong in an update, the plugin is runnable after it
* `updateTouches` — the files that an update gets to write

## Main results

* `staysRunnable_iff` — which plugins that is so for
-/

namespace WazabiAgent

namespace Plugin

open Prog

variable {host : PluginHost} {lower : String → String} {action : PendingPluginAction}
  {pluginId : String} {w v : Machine}

/-- What the handshake asks of the machine. Signatures are left out. -/
def Machine.checks (host : PluginHost) (lower : String → String) (w : Machine) : Host where
  toLowercase := lower
  sha256FileHex path :=
    (path.toStr.bind fun path => w.tree.content (host.locate path)).map host.sha256
  verifyAuthenticode _ := false

/-- There is a manifest and the file it names, and a process of this file passes the checks of path
and hash. -/
def Machine.Runnable (host : PluginHost) (lower : String → String) (pluginId : String)
    (w : Machine) : Prop :=
  ∃ m bytes, w.manifests pluginId = some (.manifest m) ∧
    w.tree.content (host.locate m.expectedPath) = some bytes ∧
    pathsMatch (w.checks host lower) (OsString.ofString m.expectedPath) m.expectedPath = true ∧
    hashMatches (w.checks host lower) (OsString.ofString m.expectedPath) m.expectedSha256 = true

/-- Every run of the update that ends with an error leaves the plugin runnable. -/
def StaysRunnable (host : PluginHost) (lower : String → String) (pluginId : String)
    (action : PendingPluginAction) (w : Machine) : Prop :=
  ∀ e v, Reaches (perform host) (handleUpdate host action) w (.error e) v →
    v.Runnable host lower pluginId

/-- The files that an update gets to write. -/
def updateTouches (host : PluginHost) (action : PendingPluginAction) (w : Machine) : List Location :=
  match action.pluginIdLocal, w.catalog action.pluginPackageId with
  | some _, some info => info.touches host w.tree.shape
  | _, _ => []

/-- `Runnable` in terms of the file. -/
theorem runnable_iff :
    w.Runnable host lower pluginId ↔
      ∃ m bytes, w.manifests pluginId = some (.manifest m) ∧
        w.tree.content (host.locate m.expectedPath) = some bytes ∧
        ∀ expected, m.expectedSha256 = some expected →
          eqIgnoreAsciiCase (host.sha256 bytes) expected = true := by
  rw [Machine.Runnable]
  refine exists_congr fun m => exists_congr fun bytes => and_congr_right fun _ =>
    and_congr_right fun hbytes => ?_
  simp only [pathsMatch, OsString.toStringLossy_ofString, hashMatches_iff, Machine.checks,
    OsString.toStr_ofString, Option.bind_some, hbytes, Option.map_some, Option.some.injEq,
    decide_true, true_and, exists_eq_left']

/-! ### What an update keeps -/

/-- The same manifests and the same file. -/
theorem Machine.Runnable.congr (h : w.Runnable host lower pluginId)
    (hmanifests : v.manifests = w.manifests)
    (hcontent : ∀ m, w.manifests pluginId = some (.manifest m) →
      v.tree.content (host.locate m.expectedPath) = w.tree.content (host.locate m.expectedPath)) :
    v.Runnable host lower pluginId := by
  rw [runnable_iff] at h ⊢
  obtain ⟨m, bytes, hm, hbytes, hhash⟩ := h
  exact ⟨m, bytes, by rw [hmanifests, hm], by rw [hcontent m hm, hbytes], hhash⟩

theorem eqIgnoreAsciiCase_self (s : String) : eqIgnoreAsciiCase s s = true := by
  simp [eqIgnoreAsciiCase]

/-- The tool pins a manifest to a file that is there. -/
theorem runnable_update (h : w.Runnable host lower pluginId) (pkgId id path : String) (c : Choice) :
    (perform host (.invokeWedrPlugin pkgId (.update id path)) w c).2.Runnable host lower
      pluginId := by
  rcases perform_invoke host w pkgId c (.update id path) with heq | heq
  · rwa [heq]
  · simp only [Machine.wedrPlugin] at heq
    split at heq
    case h_2 => cases heq
    case h_1 m bytes _ hbytes =>
      rw [← Option.some.inj heq]
      by_cases hid : pluginId = id
      · refine runnable_iff.mpr ⟨{ m with
          expectedPath := path
          expectedSha256 := some (host.sha256 bytes) }, bytes, ?_, hbytes, ?_⟩
        · simp [Machine.setManifest, hid]
        · rintro expected ⟨⟩
          exact eqIgnoreAsciiCase_self _
      · rw [runnable_iff] at h ⊢
        obtain ⟨n, bytes', hn, hrest⟩ := h
        exact ⟨n, bytes', by simp [Machine.setManifest, hid, hn], hrest⟩

theorem keeps_replaceBinary {info : PluginInfoForAgent} (pluginIdLocal binPath : String)
    (h : w.Runnable host lower pluginId) :
    Keeps host (Machine.Runnable host lower pluginId)
      (replaceBinary action pluginIdLocal info binPath)
      (fun _ => Machine.Runnable host lower pluginId) w := by
  rw [Keeps, replaceBinary, wp_andThen, wp_mapError]
  refine keeps_call h fun c => ?_
  have hpinned := runnable_update h action.pluginPackageId pluginIdLocal binPath c
  cases (perform host (.invokeWedrPlugin action.pluginPackageId
    (.update pluginIdLocal binPath)) w c).1 with
  | error e => exact hpinned
  | ok _ =>
    -- what is left are processes and reports
    refine keeps_op hpinned fun c => ?_
    refine keeps_call ?_ fun c => ?_
    · refine hpinned.congr ?_ fun _ _ => ?_ <;> simp only [perform] <;> split_ifs <;> rfl
    · refine hpinned.congr ?_ fun _ _ => ?_ <;> simp only [perform] <;> split_ifs <;> rfl

theorem keeps_handleUpdate {m : PluginManifest} (hm : w.manifests pluginId = some (.manifest m))
    (h : w.Runnable host lower pluginId)
    (hpath : host.locate m.expectedPath ∉ updateTouches host action w) :
    Keeps host (Machine.Runnable host lower pluginId) (handleUpdate host action)
      (fun _ => Machine.Runnable host lower pluginId) w := by
  have hframe (v : Machine) (hv : Frame (· = host.locate m.expectedPath) w v) :
      v.Runnable host lower pluginId := by
    refine h.congr hv.manifests fun n hn => hv.content _ ?_
    rw [hm] at hn
    injection hn with hn
    injection hn with hn
    rw [hn]
  cases hid : action.pluginIdLocal with
  | none =>
    rw [handleUpdate]
    rw [hid]
    exact keeps_pure h
  | some pluginIdLocal =>
    rw [handleUpdate_eq hid]
    refine keeps_rollOut (S := (· = host.locate m.expectedPath)) (fun info hinfo l hl heq => ?_)
      hframe (fun _ => hframe) fun info v _ hv _ => keeps_replaceBinary _ _ (hframe v hv)
    rw [updateTouches, hid, hinfo] at hpath
    exact hpath (heq ▸ hl)

/-! ### What an update can lose -/

theorem exists_reaches_not_runnable (lower : String → String) {m : PluginManifest}
    (hm : w.manifests pluginId = some (.manifest m))
    (hpath : host.locate m.expectedPath ∈ updateTouches host action w) :
    ∃ e v, Reaches (perform host) (handleUpdate host action) w (.error e) v ∧
      ¬v.Runnable host lower pluginId := by
  rw [updateTouches] at hpath
  split at hpath
  case h_2 => cases hpath
  case h_1 pluginIdLocal info hid hinfo =>
    obtain ⟨reports, hrest⟩ := reaches_rollOut host action (some pluginIdLocal)
      "GET /info: 404" (replaceBinary action pluginIdLocal) hinfo
    obtain ⟨r, v, hrun, hlost, hfail⟩ :=
      canLeave_downloadAll (w := { w with reports := reports }) hpath action.pluginPackageId false
    cases r with
    | ok _ => exact absurd (hfail rfl) (by decide)
    | error e =>
      refine ⟨e, v, ?_, fun h => ?_⟩
      · rw [handleUpdate_eq hid]
        exact hrest _ _ hrun.andThen_error
      · have hmanifests : v.manifests = w.manifests :=
          (wp_reaches (keeps_downloadAll (S := fun _ => False) _ (by simp)) hrun).1.manifests
        obtain ⟨n, bytes, hn, hbytes, -⟩ := runnable_iff.mp h
        rw [hmanifests, hm] at hn
        injection hn with hn
        injection hn with hn
        rw [← hn] at hbytes
        rw [hbytes] at hlost
        cases hlost

/-- **Failed updates** leave a plugin runnable exactly if the file its manifest names is not among
those that the update gets to write. -/
theorem staysRunnable_iff {m : PluginManifest} (hm : w.manifests pluginId = some (.manifest m))
    (h : w.Runnable host lower pluginId) (action : PendingPluginAction) :
    StaysRunnable host lower pluginId action w ↔
      host.locate m.expectedPath ∉ updateTouches host action w := by
  constructor
  · intro hall hpath
    obtain ⟨e, v, hrun, hbroken⟩ := exists_reaches_not_runnable lower hm hpath
    exact hbroken (hall e v hrun)
  · intro hpath e v hrun
    have hkept := keeps_handleUpdate hm h hpath
    exact (wp_reaches hkept hrun :)

/-! ### A rename that fails -/

/-- An update of acme's package. -/
def updateAcme (version : String) : PendingPluginAction where
  pluginPackageId := "pkg"
  version := version
  action := "update"
  pluginIdLocal := some "8f3c"

/-- The machine once the server offers version 2.0. -/
def acmeOffered : Machine :=
  { acmeMachine with catalog := fun _ => some { acmeInfo with version := "2.0" } }

theorem acmeMachine_runnable (lower : String → String) :
    acmeMachine.Runnable plainHost lower "8f3c" :=
  runnable_iff.mpr ⟨acmeManifest, [77, 90], rfl, rfl, by rintro expected ⟨⟩; decide⟩

/-- Another version has a directory of its own. -/
theorem newVersion_staysRunnable :
    StaysRunnable plainHost acmeHost.toLowercase "8f3c" (updateAcme "2.0") acmeOffered :=
  (staysRunnable_iff (w := acmeOffered) (m := acmeManifest) rfl (acmeMachine_runnable _)
    (updateAcme "2.0")).mpr
    (by decide +kernel)

/-- Under the same version the file that is installed is removed before the new one is renamed, and
if that fails there is none. -/
theorem sameVersion_not_staysRunnable :
    acmeMachine.Runnable plainHost acmeHost.toLowercase "8f3c" ∧
      ¬StaysRunnable plainHost acmeHost.toLowercase "8f3c" (updateAcme "1.0") acmeMachine := by
  refine ⟨acmeMachine_runnable _, fun hall => ?_⟩
  have hpath : plainHost.locate acmePath
      ∈ updateTouches plainHost (updateAcme "1.0") acmeMachine := by
    decide +kernel
  have hmanifest : acmeMachine.manifests "8f3c" = some (.manifest acmeManifest) := rfl
  obtain ⟨e, v, hrun, hbroken⟩ :=
    exists_reaches_not_runnable acmeHost.toLowercase hmanifest hpath
  exact hbroken (hall e v hrun)

end Plugin

end WazabiAgent
