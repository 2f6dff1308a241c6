import WazabiAgent.Plugin.EnrollOnce

/-!
# Revoking a second time

A revocation ends with the removal of the manifest, the removal of the version directory and a
report. The first of these takes away what a second attempt would need: without a manifest the
tool does not know the id, and the directory to be removed is not known either.

An attempt here is a run of `handleRevoke` on any choices, which may run out anywhere; the last
attempt is one in which nothing fails that could succeed.

## Main definitions

* `attempts` — the machine after some attempts
* `Converges` — what the last attempt should achieve

## Main results

* `converges_iff` — it does as long as the manifest is there
-/

namespace WazabiAgent

namespace Plugin

open Prog

variable {host : PluginHost} {action : PendingPluginAction} {pluginId path : String}

/-- The machine after these attempts, in their order. -/
def attempts (host : PluginHost) (action : PendingPluginAction) (w : Machine)
    (runs : List (List Choice)) : Machine :=
  runs.foldl (fun w cs => (exec (perform host) (handleRevoke host action) w cs).2) w

/-- An attempt without a spurious failure returns `Ok`, has the package reported as revoked and
leaves neither the manifest nor the directory of `path`. -/
def Converges (host : PluginHost) (action : PendingPluginAction) (pluginId path : String)
    (w : Machine) : Prop :=
  ∀ c : Choice, c.ok = true →
    let run := complete (perform host) (handleRevoke host action) w c
    run.1 = .ok () ∧
      (∃ r, r.phase = "revoked" ∧ run.2.reports = w.reports ++ [(action.pluginPackageId, r)]) ∧
      run.2.manifests pluginId = none ∧
      ∀ dir, WinPath.parent path = some dir → run.2.tree.isDir (host.locate dir) = false

/-! ### What attempts leave of the manifest -/

/-- The tool knows the id, and the binary is at `path`. -/
def Machine.Knows (pluginId path : String) (w : Machine) : Prop :=
  ∃ m, w.manifests pluginId = some (.manifest m) ∧ m.expectedPath = path

/-- Operations that pin no manifest to a binary. -/
def PluginOp.NoPin {β : Type} : PluginOp β → Prop
  | .invokeWedrPlugin _ (.enroll ..) => False
  | .invokeWedrPlugin _ (.update ..) => False
  | _ => True

theorem knows_setManifest {w : Machine} {id : String} {m : PluginManifest}
    (h : w.manifests pluginId = none ∨ w.Knows pluginId path)
    (hm : w.manifests id = some (.manifest m)) {text : Option ManifestText}
    (htext : text = none ∨ ∃ m', text = some (.manifest m') ∧ m'.expectedPath = m.expectedPath) :
    (w.setManifest id text).manifests pluginId = none ∨
      (w.setManifest id text).Knows pluginId path := by
  rw [Machine.Knows, Machine.setManifest]
  dsimp only
  split_ifs with hid
  · subst hid
    rcases htext with rfl | ⟨m', rfl, hpath⟩
    · exact .inl rfl
    · rcases h with h | ⟨n, hn, hnpath⟩
      · rw [hm] at h
        cases h
      · rw [hm] at hn
        injection hn with hn
        injection hn with hn
        exact .inr ⟨m', rfl, by rw [hpath, hn, hnpath]⟩
  · exact h

/-- The manifest is gone, or it is still one for `path`. -/
theorem perform_noPin {β : Type} {o : PluginOp β} (ho : o.NoPin) (w : Machine) (c : Choice)
    (h : w.manifests pluginId = none ∨ w.Knows pluginId path) :
    (perform host o w c).2.manifests pluginId = none ∨
      (perform host o w c).2.Knows pluginId path := by
  cases o with
  | invokeWedrPlugin pkgId cli =>
    rcases perform_invoke host w pkgId c cli with heq | heq
    · rwa [heq]
    · cases cli with
      | enroll path name vendor autoLaunch env => exact ho.elim
      | update id path => exact ho.elim
      | revoke id =>
        simp only [Machine.wedrPlugin] at heq
        split at heq
        · next m hm =>
          rw [← Option.some.inj heq]
          exact knows_setManifest h hm (.inr ⟨_, rfl, rfl⟩)
        · cases heq
      | remove id =>
        simp only [Machine.wedrPlugin] at heq
        split at heq
        · next m hm =>
          rw [← Option.some.inj heq]
          exact knows_setManifest h hm (.inl rfl)
        · cases heq
  | downloadPluginBinary pkgId dest =>
    obtain ⟨tree, heq⟩ := w.download_frame host dest c
    simp only [perform, heq]
    exact h
  | downloadPluginExtra pkgId filename dest =>
    obtain ⟨tree, heq⟩ := w.download_frame host dest c
    simp only [perform, heq]
    exact h
  | _ => simp only [perform]; repeat' (first | exact h | split)

theorem all_noPin_handleRevoke (action : PendingPluginAction) :
    (handleRevoke host action).All PluginOp.NoPin :=
  all_handleRevoke action (fun _ => trivial) (fun _ _ => trivial) (fun _ _ => trivial)
    (fun _ => trivial) fun _ _ => trivial

/-- An attempt, wherever it stops. -/
theorem knows_attempt (w : Machine) (cs : List Choice)
    (h : w.manifests pluginId = none ∨ w.Knows pluginId path) :
    (exec (perform host) (handleRevoke host action) w cs).2.manifests pluginId = none ∨
      (exec (perform host) (handleRevoke host action) w cs).2.Knows pluginId path :=
  wp_exec (J := fun w : Machine => w.manifests pluginId = none ∨ w.Knows pluginId path)
    (wp_of_all (R := Eq) (all_noPin_handleRevoke action) (fun _ _ h heq => heq ▸ h)
      (fun _ h => h) (fun _ w c ho _ h => perform_noPin ho w c h) h) cs

theorem knows_attempts (host : PluginHost) (action : PendingPluginAction) (w : Machine)
    (runs : List (List Choice))
    (h : w.manifests pluginId = none ∨ w.Knows pluginId path) :
    (attempts host action w runs).manifests pluginId = none ∨
      (attempts host action w runs).Knows pluginId path := by
  induction runs generalizing w with
  | nil => exact h
  | cons cs runs ih => exact ih _ (knows_attempt w cs h)

/-! ### The last attempt -/

theorem complete_cleanup (host : PluginHost) (w : Machine) (path : String) {c : Choice}
    (hc : c.ok = true) :
    ∃ tree, (complete (perform host) (cleanup (some path)) w c).2 = { w with tree := tree } ∧
      ∀ dir, WinPath.parent path = some dir → tree.isDir (host.locate dir) = false := by
  simp only [cleanup]
  cases hparent : WinPath.parent path with
  | none => exact ⟨w.tree, rfl, by simp⟩
  | some dir =>
    simp only [call_bind, complete_op, perform, pure_eq, complete_pure]
    cases hdir : w.tree.isDir (host.locate dir) with
    | true =>
      refine ⟨_, rfl, fun d hd => ?_⟩
      obtain rfl := Option.some.inj hd
      simp [FileTree.prune, FileTree.isDir, hc]
    | false =>
      refine ⟨w.tree, rfl, fun d hd => ?_⟩
      obtain rfl := Option.some.inj hd
      exact hdir

/-- A known id, and nothing that fails. -/
theorem converges_of_knows {w : Machine} (hid : action.pluginIdLocal = some pluginId)
    (h : w.Knows pluginId path) : Converges host action pluginId path w := by
  obtain ⟨m, hm, rfl⟩ := h
  intro c hc
  have hrevoke (pkgId : String) : w.wedrPlugin host pkgId c (.revoke pluginId) =
      some (w.setManifest pluginId (some (.manifest { m with revoked := true }))) := by
    simp only [Machine.wedrPlugin, hm]
  have hremove (pkgId : String) : (w.setManifest pluginId
      (some (.manifest { m with revoked := true }))).wedrPlugin host pkgId c (.remove pluginId) =
      some ((w.setManifest pluginId (some (.manifest { m with revoked := true }))).setManifest
        pluginId none) := by
    simp [Machine.wedrPlugin, Machine.setManifest]
  have hread : complete (perform host) (readManifestExpectedPath host pluginId) w c
      = (.ok m.expectedPath, w) := by
    simp only [readManifestExpectedPath, complete_andThen, complete_mapError, complete_call,
      perform, hm, hc, if_true, Except.mapError, complete_pure]
  obtain ⟨tree, hcleanup, hgone⟩ := complete_cleanup host
    ((w.setManifest pluginId (some (.manifest { m with revoked := true }))).setManifest pluginId
      none) m.expectedPath hc
  rw [handleRevoke]
  simp only [hid, complete_bind, hread, complete_andThen, complete_mapError, complete_call, perform,
    hrevoke, hremove, hc, if_true, Except.mapError, Except.toOption, hcleanup, report]
  refine ⟨trivial, ⟨_, rfl, rfl⟩, ?_, hgone⟩
  simp [Machine.setManifest]

/-- **A revocation can be retried** as long as the manifest is there. -/
theorem converges_iff {w : Machine} (hid : action.pluginIdLocal = some pluginId)
    (h : w.Knows pluginId path) (runs : List (List Choice)) :
    Converges host action pluginId path (attempts host action w runs) ↔
      (attempts host action w runs).manifests pluginId ≠ none := by
  constructor
  · intro hconverges hnone
    obtain ⟨hok, -⟩ := hconverges {} rfl
    rw [handleRevoke] at hok
    simp only [hid, complete_bind, complete_andThen, complete_mapError, complete_call, perform,
      Machine.wedrPlugin, hnone, readManifestExpectedPath, Except.mapError] at hok
    cases hok
  · intro hpresent
    rcases knows_attempts host action w runs (.inr h) with hnone | hknows
    · exact absurd hnone hpresent
    · exact converges_of_knows hid hknows

/-! ### A report that is lost -/

/-- The revocation of acme's package. -/
def revokeAcme : PendingPluginAction where
  pluginPackageId := "pkg"
  version := "1.0"
  action := "revoke"
  pluginIdLocal := some "8f3c"

theorem acmeMachine_knows : acmeMachine.Knows "8f3c" acmePath := ⟨_, rfl, rfl⟩

/-- An attempt that is cut after the first call of the tool is made good by the next. -/
theorem cut_converges : Converges plainHost revokeAcme "8f3c" acmePath
    (attempts plainHost revokeAcme acmeMachine [[{}, {}]]) :=
  (converges_iff rfl acmeMachine_knows [[{}, {}]]).mpr (by decide +kernel)

/-- One whose directory could not be removed and whose report was lost is not: the directory stays
for good, and each further attempt fails. -/
theorem lost_not_converges : acmeMachine.Knows "8f3c" acmePath ∧
    ¬Converges plainHost revokeAcme "8f3c" acmePath
      (attempts plainHost revokeAcme acmeMachine [[{}, {}, {}, lost, lost]]) := by
  refine ⟨⟨_, rfl, rfl⟩, fun h => ?_⟩
  have herror : (complete (perform plainHost) (handleRevoke plainHost revokeAcme)
      (attempts plainHost revokeAcme acmeMachine
        [[{}, {}, {}, lost, lost]]) {}).1.isOk = false := by
    decide +kernel
  rw [(h {} rfl).1] at herror
  cases herror

end Plugin

end WazabiAgent
