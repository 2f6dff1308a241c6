import WazabiAgent.Plugin.Replacement

/-!
# Replacing a file, all or nothing

`download_and_verify` downloads into a partial file, checks its hash and renames it. A rename would
replace the file that is there, which is why the comment calls it atomic. But the code removes that
file before, and from then on a rename that fails leaves nothing.

What the environment does in a run is recorded beside it: which bytes were downloaded and with which
hash, which files were removed, and the renames that failed.

## Main definitions

* `AllOrNothing` — what the final path holds after the call
* `LosesFile` — the old file is removed, and the rename fails

## Main results

* `allOrNothing_iff` — all or nothing, exactly if it is not lost
* `rename_loses_file` — a run in which it is
-/

namespace WazabiAgent

namespace Plugin

open Prog

/-! ### The record -/

/-- A download, a removal, or a rename that failed. -/
inductive FileEvent
  | downloaded (body : List UInt8) (header : String)
  | removed (path : String)
  | notRenamed (src dst : String)
  deriving DecidableEq

/-- What is recorded of an operation. -/
def seen : {β : Type} → PluginOp β → Choice → β → Option FileEvent
  | _, .downloadPluginBinary _ _, c, .ok header => some (.downloaded c.body header)
  | _, .downloadPluginExtra _ _ _, c, .ok header => some (.downloaded c.body header)
  | _, .removeFile path, _, .ok _ => some (.removed path)
  | _, .rename src dst, _, .error _ => some (.notRenamed src dst)
  | _, _, _, _ => none

/-- A machine, and the record of a run. -/
abbrev Recorded := Machine × List FileEvent

variable (host : PluginHost)

/-- The operations, with their record. -/
abbrev performRecorded : Handler PluginOp Recorded Choice := logged (perform host) seen

/-- After an error `path` holds what it held before, and otherwise what was downloaded, which has
the hash that the server declared. -/
def AllOrNothing (path : String) (w : Machine) (r : Except String String) (s : Recorded) : Prop :=
  match r with
  | .error _ => s.1.tree.content (host.locate path) = w.tree.content (host.locate path)
  | .ok _ => ∃ body header, .downloaded body header ∈ s.2 ∧
      s.1.tree.content (host.locate path) = some body ∧
      (header ≠ "" → eqIgnoreAsciiCase (host.sha256 body) header = true)

/-- The old file is removed, and the new one cannot be renamed. -/
def LosesFile (dir filename : String) (events : List FileEvent) : Prop :=
  .removed (finalPath dir filename) ∈ events ∧
    .notRenamed (partialPath dir filename) (finalPath dir filename) ∈ events

instance (dir filename : String) (events : List FileEvent) :
    Decidable (LosesFile dir filename events) :=
  inferInstanceAs (Decidable (_ ∧ _))

/-! ### Step by step -/

variable {host} {dir filename : String} {w v : Machine} {es : List FileEvent}

/-- `wp` for the operations with their record. -/
abbrev Records (host : PluginHost) {α : Type} (p : Prog PluginOp α) (Q : α → Recorded → Prop)
    (s : Recorded) : Prop :=
  wp (performRecorded host) (fun _ _ _ => True) Eq (fun _ => True) p Q s

section Records

variable {α : Type} {Q : α → Recorded → Prop} {s : Recorded}

theorem records_pure {a : α} (h : Q a s) : Records host (.pure a) Q s := (wp_alone_pure a Q s).mpr h

theorem records_op {γ : Type} {o : PluginOp γ} {k : γ → Prog PluginOp α}
    (h : ∀ c, Records host (k (performRecorded host o s c).1) Q (performRecorded host o s c).2) :
    Records host (.op o k) Q s :=
  (wp_alone_op o k Q s).mpr ⟨trivial, fun c _ => h c⟩

theorem records_call {o : PluginOp α}
    (h : ∀ c, Q (performRecorded host o s c).1 (performRecorded host o s c).2) :
    Records host (call o) Q s := wp_alone_call trivial fun c _ => h c

end Records

/-- A download writes its file and no other, and all of it if it succeeds. -/
theorem content_download (host : PluginHost) (w : Machine) (dest : String) (c : Choice)
    {l : Location} (hl : host.locate dest ≠ l) :
    (w.download host dest c).2.tree.content l = w.tree.content l ∧
      ∀ header, (w.download host dest c).1 = .ok header →
        (w.download host dest c).2.tree.content (host.locate dest) = some c.body := by
  rcases download_cases host w dest c with ⟨e, heq⟩ | ⟨t, hparent, ⟨e, heq⟩ | ⟨r, t', hwrite, heq⟩⟩
  · rw [heq]
    exact ⟨rfl, by simp⟩
  · rw [heq]
    exact ⟨content_createParent hparent l, by simp⟩
  · rw [heq]
    obtain ⟨-, rfl⟩ := FileTree.write_eq_some_iff.mp hwrite
    refine ⟨?_, fun header _ => t.content_set_file _ _⟩
    rw [t.content_set_of_ne _ hl.symm]
    exact content_createParent hparent l

/-- The record of a request. -/
def requested (c : Choice) : Except String String → List FileEvent
  | .ok header => [.downloaded c.body header]
  | .error _ => []

/-- The bytes that were downloaded are in the partial file. -/
def Downloaded (host : PluginHost) (dir filename : String) (r : Except String String)
    (s : Recorded) : Prop :=
  match r with
  | .ok header => ∃ body, s.2 = [.downloaded body header] ∧
      s.1.tree.content (host.locate (partialPath dir filename)) = some body
  | .error _ => s.2 = []

/-- The request. -/
theorem records_downloadFile (pkgId : String) (isPrimary : Bool)
    (hne : host.locate (partialPath dir filename) ≠ host.locate (finalPath dir filename)) :
    Records host (downloadFile pkgId dir filename isPrimary)
      (fun r s => s.1.tree.content (host.locate (finalPath dir filename))
          = w.tree.content (host.locate (finalPath dir filename)) ∧
        Downloaded host dir filename r s)
      (w, []) := by
  let run := w.download host (partialPath dir filename)
  have hbinary (c : Choice) : performRecorded host
      (.downloadPluginBinary pkgId (partialPath dir filename)) (w, []) c
        = ((run c).1, (run c).2, requested c (run c).1) := by
    simp only [logged, perform, run]
    cases (w.download host (partialPath dir filename) c).1 <;> rfl
  have hextra (c : Choice) : performRecorded host
      (.downloadPluginExtra pkgId filename (partialPath dir filename)) (w, []) c
        = ((run c).1, (run c).2, requested c (run c).1) := by
    simp only [logged, perform, run]
    cases (w.download host (partialPath dir filename) c).1 <;> rfl
  have hrun (c : Choice) (f : String → String) :
      (run c).2.tree.content (host.locate (finalPath dir filename))
          = w.tree.content (host.locate (finalPath dir filename)) ∧
        Downloaded host dir filename ((run c).1.mapError f)
          ((run c).2, requested c (run c).1) := by
    obtain ⟨hfinal, hbody⟩ := content_download host w (partialPath dir filename) c hne
    refine ⟨hfinal, ?_⟩
    cases hr : (run c).1 with
    | ok header => exact ⟨c.body, rfl, hbody header hr⟩
    | error e => rfl
  rw [downloadFile]
  split_ifs
  · rw [Records, wp_mapError]
    refine records_call fun c => ?_
    rw [hbinary]
    exact hrun c _
  · rw [Records, wp_mapError]
    refine records_call fun c => ?_
    rw [hextra]
    exact hrun c _

/-- The removal of a file. -/
theorem removeFile_cases (host : PluginHost) (v : Machine) (es : List FileEvent) (path : String)
    (c : Choice) :
    (∃ e, performRecorded host (.removeFile path) (v, es) c = (.error e, v, es)) ∨
      ∃ t, v.tree.removeFile (host.locate path) = some t ∧
        performRecorded host (.removeFile path) (v, es) c
          = (.ok (), { v with tree := t }, es ++ [.removed path]) := by
  simp only [logged, perform]
  cases hremove : v.tree.removeFile (host.locate path) with
  | none => exact .inl ⟨c.error, by simp [seen]⟩
  | some t =>
    by_cases hok : c.ok = true
    · exact .inr ⟨t, rfl, by simp [hok, seen]⟩
    · exact .inl ⟨c.error, by simp [hok, seen]⟩

/-- The partial file, if it is removed, is not the final one. -/
theorem removePartial (v : Machine) (es : List FileEvent) (c : Choice)
    (hne : host.locate (partialPath dir filename) ≠ host.locate (finalPath dir filename)) :
    ∃ rest, .removed (finalPath dir filename) ∉ rest ∧
      (performRecorded host (.removeFile (partialPath dir filename)) (v, es) c).2.2 = es ++ rest ∧
      (performRecorded host (.removeFile (partialPath dir filename)) (v, es) c).2.1.tree.content
        (host.locate (finalPath dir filename))
          = v.tree.content (host.locate (finalPath dir filename)) := by
  have hpath : finalPath dir filename ≠ partialPath dir filename := fun h => hne (by rw [h])
  rcases removeFile_cases host v es (partialPath dir filename) c with ⟨e, heq⟩ | ⟨t, ht, heq⟩
  · rw [heq]
    exact ⟨[], by simp, by simp, rfl⟩
  · rw [heq]
    obtain ⟨-, rfl⟩ := FileTree.removeFile_eq_some_iff.mp ht
    exact ⟨_, by simpa using hpath, rfl, v.tree.content_set_of_ne _ hne.symm⟩

/-- The hash is checked; a file with another is removed. -/
theorem records_verifySha {body : List UInt8} (header : String)
    (hne : host.locate (partialPath dir filename) ≠ host.locate (finalPath dir filename))
    (hbody : v.tree.content (host.locate (partialPath dir filename)) = some body)
    (hes : .removed (finalPath dir filename) ∉ es) :
    Records host (verifySha host (partialPath dir filename) header)
      (fun r s =>
        match r with
        | .ok _ => s = (v, es) ∧
            (header ≠ "" → eqIgnoreAsciiCase (host.sha256 body) header = true)
        | .error _ => s.1.tree.content (host.locate (finalPath dir filename))
            = v.tree.content (host.locate (finalPath dir filename)) ∧
              .removed (finalPath dir filename) ∉ s.2)
      (v, es) := by
  rw [verifySha]
  split_ifs with hheader
  · exact records_pure ⟨rfl, fun h => absurd hheader h⟩
  · rw [Records, wp_andThen]
    refine records_call fun c => ?_
    have hhash : performRecorded host (.sha256FileHex (partialPath dir filename)) (v, es) c
        = (if c.ok then .ok (host.sha256 body) else .error c.error, v, es) := by
      simp only [logged, perform, hbody, seen, Option.toList_none, List.append_nil]
    rw [hhash]
    by_cases hok : c.ok = true
    · rw [if_pos hok]
      dsimp only
      split_ifs with hsha
      · exact records_pure ⟨rfl, fun _ => hsha⟩
      · rw [call_bind]
        refine records_op fun c => records_pure ?_
        obtain ⟨rest, hrest, hevents, hfinal⟩ := removePartial v es c hne
        refine ⟨hfinal, ?_⟩
        rw [hevents, List.mem_append]
        exact not_or.mpr ⟨hes, hrest⟩
    · rw [if_neg hok]
      exact ⟨rfl, hes⟩

/-- The rename puts the bytes in their place, or the record says that it did not. -/
theorem records_renamePartial {body : List UInt8}
    (hne : host.locate (partialPath dir filename) ≠ host.locate (finalPath dir filename))
    (hbody : v.tree.content (host.locate (partialPath dir filename)) = some body) :
    Records host (renamePartial host dir filename)
      (fun r s =>
        match r with
        | .ok _ => s.1.tree.content (host.locate (finalPath dir filename)) = some body ∧ s.2 = es
        | .error _ => s.1.tree.content (host.locate (finalPath dir filename))
            = v.tree.content (host.locate (finalPath dir filename)) ∧
              ∃ rest, .removed (finalPath dir filename) ∉ rest ∧
                s.2 = es ++ .notRenamed (partialPath dir filename) (finalPath dir filename) :: rest)
      (v, es) := by
  let failed : FileEvent := .notRenamed (partialPath dir filename) (finalPath dir filename)
  have hrename (c : Choice) :
      (∃ e, performRecorded host (.rename (partialPath dir filename) (finalPath dir filename))
        (v, es) c = (.error e, v, es ++ [failed])) ∨
      ∃ t, v.tree.rename (host.locate (partialPath dir filename))
          (host.locate (finalPath dir filename)) = some t ∧
        performRecorded host (.rename (partialPath dir filename) (finalPath dir filename))
          (v, es) c = (.ok (), { v with tree := t }, es) := by
    simp only [logged, perform]
    cases hmove : v.tree.rename (host.locate (partialPath dir filename))
        (host.locate (finalPath dir filename)) with
    | none => exact .inl ⟨c.error, rfl⟩
    | some t =>
      by_cases hok : c.ok = true
      · exact .inr ⟨t, rfl, by simp [hok, seen]⟩
      · exact .inl ⟨c.error, by simp [hok, seen, failed]⟩
  unfold renamePartial
  dsimp only
  rw [call_bind]
  refine records_op fun c => ?_
  rcases hrename c with ⟨e, heq⟩ | ⟨t, ht, heq⟩
  · rw [heq]
    dsimp only
    rw [call_bind]
    refine records_op fun c => records_pure ?_
    obtain ⟨rest, hrest, hevents, hfinal⟩ := removePartial v (es ++ [failed]) c hne
    refine ⟨hfinal, rest, hrest, ?_⟩
    rw [hevents, List.append_assoc]
    rfl
  · rw [heq]
    obtain ⟨a, ha, -, rfl⟩ := FileTree.rename_eq_some_iff.mp ht
    obtain rfl : body = a := Option.some.inj (hbody.symm.trans ha)
    exact records_pure ⟨FileTree.content_set_file _ _ _, rfl⟩

/-- The file is replaced, and every rename has succeeded. -/
theorem allOrNothing_of_replaced {body : List UInt8} {header : String} {s : Recorded}
    (path : String) (hsha : header ≠ "" → eqIgnoreAsciiCase (host.sha256 body) header = true)
    (hcontent : s.1.tree.content (host.locate (finalPath dir filename)) = some body)
    (hevents : s.2 = es) (hdownloaded : .downloaded body header ∈ es)
    (hrenamed : .notRenamed (partialPath dir filename) (finalPath dir filename) ∉ es) :
    AllOrNothing host (finalPath dir filename) w (.ok path) s ↔ ¬LosesFile dir filename s.2 := by
  rw [← hevents] at hdownloaded hrenamed
  exact iff_of_true ⟨body, header, hdownloaded, hcontent, hsha⟩ fun h => hrenamed h.2

/-- From here on the bytes are in the partial file, and their hash is the right one. -/
theorem records_replaceFile {body : List UInt8} {header : String}
    (hne : host.locate (partialPath dir filename) ≠ host.locate (finalPath dir filename))
    (hfinal : v.tree.content (host.locate (finalPath dir filename))
      = w.tree.content (host.locate (finalPath dir filename)))
    (hbody : v.tree.content (host.locate (partialPath dir filename)) = some body)
    (hsha : header ≠ "" → eqIgnoreAsciiCase (host.sha256 body) header = true) :
    Records host (replaceFile host dir filename)
      (fun r s => AllOrNothing host (finalPath dir filename) w r s ↔ ¬LosesFile dir filename s.2)
      (v, [.downloaded body header]) := by
  unfold replaceFile
  dsimp only
  rw [call_bind]
  refine records_op fun c => ?_
  have hexists : (performRecorded host (.pathExists (finalPath dir filename))
      (v, [.downloaded body header]) c).2 = (v, [.downloaded body header]) := rfl
  rw [Records, wp_andThen, hexists]
  cases (performRecorded host (.pathExists (finalPath dir filename))
      (v, [.downloaded body header]) c).1 with
  | false =>
    refine records_pure (wp_mono (fun r s hs => ?_) (records_renamePartial hne hbody))
    cases r with
    | ok path => exact allOrNothing_of_replaced path hsha hs.1 hs.2 (by simp) (by simp)
    | error e =>
      obtain ⟨hcontent, rest, hrest, hevents⟩ := hs
      exact iff_of_true (hcontent.trans hfinal) (by simp [LosesFile, hevents, hrest])
  | true =>
    rw [if_pos rfl, wp_mapError]
    refine records_call fun c => ?_
    rcases removeFile_cases host v [.downloaded body header] (finalPath dir filename) c with
      ⟨e, heq⟩ | ⟨t, ht, heq⟩
    · rw [heq]
      exact iff_of_true hfinal (by simp [LosesFile])
    · rw [heq]
      obtain ⟨hpresent, rfl⟩ := FileTree.removeFile_eq_some_iff.mp ht
      have hbody' : (v.tree.set (host.locate (finalPath dir filename)) none).content
          (host.locate (partialPath dir filename)) = some body := by
        rw [v.tree.content_set_of_ne _ hne, hbody]
      refine wp_mono (fun r s hs => ?_) (records_renamePartial hne hbody')
      cases r with
      | ok path => exact allOrNothing_of_replaced path hsha hs.1 hs.2 (by simp) (by simp)
      | error e =>
        -- there was a file, and now there is none
        obtain ⟨hcontent, rest, -, hevents⟩ := hs
        rw [v.tree.content_set_none] at hcontent
        refine iff_of_false (fun hsame => ?_) (by simp [LosesFile, hevents])
        have hgone : w.tree.content (host.locate (finalPath dir filename)) = none :=
          (hcontent.symm.trans hsame).symm
        rw [hfinal, hgone] at hpresent
        cases hpresent

theorem records_downloadAndVerify (w : Machine) (pkgId : String) (isPrimary : Bool)
    (hne : host.locate (partialPath dir filename) ≠ host.locate (finalPath dir filename)) :
    Records host (downloadAndVerify host pkgId dir filename isPrimary)
      (fun r s => AllOrNothing host (finalPath dir filename) w r s ↔ ¬LosesFile dir filename s.2)
      (w, []) := by
  rw [downloadAndVerify]
  split
  · exact records_pure (iff_of_true rfl (by simp [LosesFile]))
  · rw [Records, wp_andThen]
    refine wp_mono (fun r s hs => ?_) (records_downloadFile pkgId isPrimary hne)
    obtain ⟨hfinal, hdownloaded⟩ := hs
    obtain ⟨v, es⟩ := s
    cases r with
    | error e =>
      obtain rfl : es = [] := hdownloaded
      exact iff_of_true hfinal (by simp [LosesFile])
    | ok header =>
      obtain ⟨body, rfl, hbody⟩ := hdownloaded
      dsimp only
      rw [wp_andThen]
      refine wp_mono (fun r s hs => ?_) (records_verifySha header hne hbody (by simp))
      cases r with
      | error e => exact iff_of_true (hs.1.trans hfinal) fun hlost => hs.2 hlost.1
      | ok x =>
        obtain ⟨rfl, hsha⟩ := hs
        exact records_replaceFile hne hfinal hbody hsha

/-- What is recorded in a run. -/
def record (host : PluginHost) {α : Type} (p : Prog PluginOp α) (w : Machine) (cs : List Choice) :
    List FileEvent :=
  (exec (performRecorded host) p (w, []) cs).2.2

/-- **All or nothing** for every call that returns, exactly if it does not lose the old file: if it
does not remove it and then fail to rename the new one. -/
theorem allOrNothing_iff (host : PluginHost) (pkgId dir filename : String) (isPrimary : Bool)
    (hne : host.locate (partialPath dir filename) ≠ host.locate (finalPath dir filename))
    (w v : Machine) (cs : List Choice) (r : Except String String)
    (hr : exec (perform host) (downloadAndVerify host pkgId dir filename isPrimary) w cs
      = (some r, v)) :
    let events := record host (downloadAndVerify host pkgId dir filename isPrimary) w cs
    AllOrNothing host (finalPath dir filename) w r (v, events) ↔
      ¬LosesFile dir filename events := by
  intro events
  obtain ⟨hresult, hmachine⟩ := exec_logged (perform host) seen
    (downloadAndVerify host pkgId dir filename isPrimary) w [] cs
  rw [hr] at hresult hmachine
  have hreaches : Reaches (performRecorded host)
      (downloadAndVerify host pkgId dir filename isPrimary) (w, []) r (v, events) :=
    reaches_iff_exec.mpr ⟨cs, Prod.ext hresult (Prod.ext hmachine rfl)⟩
  have hend := wp_reaches (records_downloadAndVerify w pkgId isPrimary hne) hreaches
  exact hend

/-! ### A file that is lost -/

/-- The directory of acme's package. -/
def acmeDir : String := "C:\\ProgramData\\WazabiEDR\\plugin_bin\\acme\\1.0"

/-- The call that replaces the binary. -/
def replaceAcme : Prog PluginOp (Except String String) :=
  downloadAndVerify plainHost "pkg" acmeDir "acme.exe" true

/-- The server sends a new binary, and the environment answers `cs` after that. -/
def answers (cs : List Choice) : List Choice := { body := [77, 90, 0], header := "3" } :: cs

/-- The new file comes in the place of the old one. -/
theorem replaceAcme_allOrNothing :
    AllOrNothing plainHost (finalPath acmeDir "acme.exe") acmeMachine
      (.ok (finalPath acmeDir "acme.exe"))
      ((exec (perform plainHost) replaceAcme acmeMachine (answers [{}, {}, {}, {}])).2,
        record plainHost replaceAcme acmeMachine (answers [{}, {}, {}, {}])) :=
  (allOrNothing_iff plainHost "pkg" acmeDir "acme.exe" true (by decide +kernel) acmeMachine _
    (answers [{}, {}, {}, {}]) _ (Prod.ext (by decide +kernel) rfl)).mpr (by decide +kernel)

/-- The environment in which the old file is removed and the rename fails. -/
def stuckRename : List Choice := answers [{}, {}, {}, lost, {}]

/-- What the call returns then. -/
def stuckError : String :=
  "rename " ++ partialPath acmeDir "acme.exe" ++ " → " ++ finalPath acmeDir "acme.exe" ++
    ": timed out"

/-- **The old file is lost**: it was there, it is removed, the rename fails, and the call returns an
error. -/
theorem rename_loses_file :
    (exec (perform plainHost) replaceAcme acmeMachine stuckRename).1 = some (.error stuckError) ∧
    acmeMachine.tree.content (plainHost.locate (finalPath acmeDir "acme.exe")) = some [77, 90] ∧
    (exec (perform plainHost) replaceAcme acmeMachine stuckRename).2.tree.content
      (plainHost.locate (finalPath acmeDir "acme.exe")) = none ∧
    ¬AllOrNothing plainHost (finalPath acmeDir "acme.exe") acmeMachine (.error stuckError)
      ((exec (perform plainHost) replaceAcme acmeMachine stuckRename).2,
        record plainHost replaceAcme acmeMachine stuckRename) := by
  have hold : acmeMachine.tree.content (plainHost.locate (finalPath acmeDir "acme.exe"))
      = some [77, 90] := by decide +kernel
  have hgone : (exec (perform plainHost) replaceAcme acmeMachine stuckRename).2.tree.content
      (plainHost.locate (finalPath acmeDir "acme.exe")) = none := by decide +kernel
  refine ⟨by decide +kernel, hold, hgone, fun h => ?_⟩
  rw [AllOrNothing, hold, hgone] at h
  cases h

end Plugin

end WazabiAgent
