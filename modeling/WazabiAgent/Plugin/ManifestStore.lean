import Mathlib.Data.List.Nodup
import WazabiAgent.Lib.Json
import WazabiAgent.Lib.OsString
import WazabiAgent.Plugin.Manifest

/-!
# The manifest store

`ManifestStore::load_dir` (`plugin/manifest.rs`) reads every `*.json` file of the enrolment
directory and keeps the manifests that `load_one` accepts, the first one of each `plugin_id`. What
it skips, it reports on stderr; of these lines only the reason is kept here.

The name of a file is an `OsString`. A stem that is not Unicode counts as the empty text, so a
manifest with the empty `plugin_id` may sit under several names and the first one enumerated wins.
Every other manifest has exactly one name, which is why the order does not matter for it.

The fingerprint, by which the reload thread sees that something has changed, is left out.

## Main definitions

* `Plugin.decodeManifest` — `PluginManifest` as `serde_json` reads it
* `Plugin.CheckedManifest`, `ManifestStore` — a manifest with an integrity check, and a store of
  them that has one for each id
* `Plugin.loadOne`, `loadDir` — the loader

## Main results

* `get_loadDir_iff` — what a store built from a directory answers
-/

namespace WazabiAgent

namespace Plugin

/-! ### One manifest file -/

/-- The fields of `PluginManifest`, in their order. -/
def manifestNames : List String :=
  ["plugin_id", "name", "vendor", "expected_path", "expected_sha256", "expected_signer", "revoked",
    "enrolled_at", "auto_launch", "env"]

/-- `serde_json::from_slice::<PluginManifest>`. The first four fields are required. -/
def decodeManifest (doc : Json) : Option PluginManifest := do
  let fields ← doc.distinctFields manifestNames
  let field (name : String) : Option Json := ((manifestNames.zip fields).lookup name).join
  let pluginId ← (field "plugin_id").bind Json.asStr
  let name ← (field "name").bind Json.asStr
  let _vendor ← (field "vendor").bind Json.asStr
  let expectedPath ← (field "expected_path").bind Json.asStr
  let expectedSha256 ← Json.defaulted none (Json.optional Json.asStr) (field "expected_sha256")
  let expectedSigner ← Json.defaulted none (Json.optional Json.asStr) (field "expected_signer")
  let revoked ← Json.defaulted false Json.asBool (field "revoked")
  let _enrolledAt ← Json.defaulted none (Json.optional Json.asStr) (field "enrolled_at")
  let autoLaunch ← Json.defaulted false Json.asBool (field "auto_launch")
  let env ← Json.defaulted [] Json.asStrMap (field "env")
  return {
    pluginId := pluginId
    name := name
    expectedPath := expectedPath
    expectedSha256 := expectedSha256
    expectedSigner := expectedSigner
    revoked := revoked
    autoLaunch := autoLaunch
    env := env }

/-- At least one integrity check is declared. -/
def PluginManifest.DeclaresCheck (m : PluginManifest) : Prop :=
  m.expectedSha256.isSome ∨ m.expectedSigner.isSome

instance : DecidablePred PluginManifest.DeclaresCheck := fun m =>
  inferInstanceAs (Decidable (m.expectedSha256.isSome ∨ m.expectedSigner.isSome))

/-- A manifest that may be enrolled. -/
abbrev CheckedManifest := { m : PluginManifest // m.DeclaresCheck }

/-- What `fs::read` finds under a name. -/
inductive FileBytes
  | unreadable
  /-- `none`: the bytes are no JSON document. -/
  | bytes (doc : Option Json)

/-- A file of the manifest directory. -/
structure DirEntry where
  name : OsString
  file : FileBytes

/-- Why a manifest that can be read is refused. -/
inductive InvalidManifest
  | notManifestJson
  | stemMismatch (stem pluginId : String)
  | noIntegrityCheck
  deriving DecidableEq

/-- Why there is no manifest. -/
inductive ManifestLoadError
  | io
  | invalid (reason : InvalidManifest)
  deriving DecidableEq

/-- `load_one`. -/
def loadOne (e : DirEntry) : Except ManifestLoadError CheckedManifest :=
  match e.file with
  | .unreadable => .error .io
  | .bytes doc =>
    match doc.bind decodeManifest with
    | none => .error (.invalid .notManifestJson)
    | some m =>
      let stem := (e.name.fileStem.bind OsString.toStr).getD ""
      if stem ≠ m.pluginId then .error (.invalid (.stemMismatch stem m.pluginId))
      else if h : m.DeclaresCheck then .ok ⟨m, h⟩
      else .error (.invalid .noIntegrityCheck)

/-! ### The store -/

/-- `by_id`, as the list of its values. -/
structure ManifestStore where
  manifests : List CheckedManifest
  nodup : (manifests.map fun m => m.1.pluginId).Nodup

namespace ManifestStore

/-- A store without manifests. -/
def empty : ManifestStore where
  manifests := []
  nodup := List.nodup_nil

/-- The manifest of a plugin id. -/
def get (s : ManifestStore) (pluginId : String) : Option CheckedManifest :=
  s.manifests.find? fun m => m.1.pluginId = pluginId

theorem get_eq_none_iff {s : ManifestStore} {id : String} :
    s.get id = none ↔ id ∉ s.manifests.map fun m => m.1.pluginId := by
  simp only [get, List.find?_eq_none, decide_eq_true_eq, List.mem_map, not_exists, not_and]

/-- Insert a manifest, unless there is one with its id: the first is kept. -/
def keepFirst (s : ManifestStore) (m : CheckedManifest) : ManifestStore :=
  if h : m.1.pluginId ∈ s.manifests.map fun m => m.1.pluginId then s
  else
    { manifests := m :: s.manifests
      nodup := List.nodup_cons.mpr ⟨h, s.nodup⟩ }

theorem get_keepFirst (s : ManifestStore) (m : CheckedManifest) (id : String) :
    (s.keepFirst m).get id = (s.get id).or (if m.1.pluginId = id then some m else none) := by
  rw [keepFirst]
  split_ifs with hmem hid hid
  · rw [← hid]
    cases hg : s.get m.1.pluginId with
    | none => exact absurd hmem (get_eq_none_iff.mp hg)
    | some m' => rfl
  · simp
  · have hg : s.get id = none := get_eq_none_iff.mpr (hid ▸ hmem)
    rw [hg, Option.none_or, get, List.find?_cons_of_pos (by simpa using hid)]
  · simp [get, hid]

end ManifestStore

/-! ### The directory -/

/-- What `load_dir` meets: no directory, one that cannot be enumerated, or its entries, of which
one that fails is `none`. -/
inductive Listing
  | missing
  | unreadable
  | entries (es : List (Option DirEntry))

/-- The body of the loop. -/
def loadEntry (s : ManifestStore) (e : DirEntry) : ManifestStore :=
  if e.name.extension.bind OsString.toStr ≠ some "json" then s
  else
    match loadOne e with
    | .ok m => s.keepFirst m
    | .error _ => s

/-- The loop. An entry that fails ends it. -/
def loadEntries (s : ManifestStore) : List (Option DirEntry) → Except ManifestLoadError ManifestStore
  | [] => .ok s
  | none :: _ => .error .io
  | some e :: es => loadEntries (loadEntry s e) es

/-- `ManifestStore::load_dir`. -/
def loadDir : Listing → Except ManifestLoadError ManifestStore
  | .missing => .ok .empty
  | .unreadable => .error .io
  | .entries es => loadEntries .empty es

/-- The content of a directory, where a name occurs once. -/
structure Directory where
  entries : List DirEntry
  nodup : (entries.map DirEntry.name).Nodup

/-- An enumeration of the directory, without error and in any order. -/
def Directory.Enumerates (dir : Directory) : Listing → Prop
  | .missing => dir.entries = []
  | .unreadable => False
  | .entries es => ∃ order : List DirEntry, order.Perm dir.entries ∧ es = order.map some

theorem loadEntries_map_some (order : List DirEntry) (s : ManifestStore) :
    loadEntries s (order.map some) = .ok (order.foldl loadEntry s) := by
  induction order generalizing s with
  | nil => rfl
  | cons e order ih => exact ih _

/-- An enumeration without error leads to the store of its entries. -/
theorem loadDir_of_enumerates {dir : Directory} {l : Listing} (h : dir.Enumerates l) :
    ∃ order : List DirEntry, order.Perm dir.entries ∧
      loadDir l = .ok (order.foldl loadEntry .empty) := by
  cases l with
  | missing => exact ⟨[], by rw [show dir.entries = [] from h], rfl⟩
  | unreadable => exact h.elim
  | entries es =>
    obtain ⟨order, hperm, rfl⟩ := h
    exact ⟨order, hperm, loadEntries_map_some order .empty⟩

/-! ### What a store answers -/

/-- The entry is the file `<plugin_id>.json` of the manifest `m`. -/
def DirEntry.Holds (e : DirEntry) (m : PluginManifest) : Prop :=
  e.name = OsString.ofString (m.pluginId ++ ".json") ∧
    ∃ doc, e.file = .bytes (some doc) ∧ decodeManifest doc = some m

/-- What the entry answers for `id`. -/
def DirEntry.offer (e : DirEntry) (id : String) : Option CheckedManifest :=
  if e.name.extension.bind OsString.toStr = some "json" then
    match loadOne e with
    | .ok m => if m.1.pluginId = id then some m else none
    | .error _ => none
  else none

theorem get_loadEntry (s : ManifestStore) (e : DirEntry) (id : String) :
    (loadEntry s e).get id = (s.get id).or (e.offer id) := by
  rw [loadEntry, DirEntry.offer]
  by_cases hx : e.name.extension.bind OsString.toStr = some "json"
  · rw [if_neg (not_not.mpr hx), if_pos hx]
    cases loadOne e with
    | ok m => exact s.get_keepFirst m id
    | error err => simp
  · simp [hx]

/-- The first offer counts. -/
theorem get_foldl_loadEntry (order : List DirEntry) (s : ManifestStore) (id : String) :
    (order.foldl loadEntry s).get id = (s.get id).or (order.findSome? (·.offer id)) := by
  induction order generalizing s with
  | nil => simp
  | cons e order ih =>
    rw [List.foldl_cons, ih, get_loadEntry, Option.or_assoc, List.findSome?_cons]
    cases e.offer id <;> simp

theorem loadOne_eq_ok_iff {e : DirEntry} {m : CheckedManifest} :
    loadOne e = .ok m ↔
      (∃ doc, e.file = .bytes (some doc) ∧ decodeManifest doc = some m.1) ∧
        (e.name.fileStem.bind OsString.toStr).getD "" = m.1.pluginId := by
  obtain ⟨m, hm⟩ := m
  rw [loadOne]
  cases hf : e.file with
  | unreadable => simp
  | bytes doc =>
    dsimp only
    cases hd : doc.bind decodeManifest with
    | none =>
      refine iff_of_false (by simp) ?_
      rintro ⟨⟨doc', hdoc, hdec⟩, -⟩
      rw [FileBytes.bytes.inj hdoc, Option.bind_some, hdec] at hd
      simp at hd
    | some n =>
      obtain ⟨doc', rfl, hdec⟩ := Option.bind_eq_some_iff.mp hd
      simp only [FileBytes.bytes.injEq, Option.some.injEq, exists_eq_left', hdec, ne_eq]
      split_ifs with hstem hcheck
      · simp only [Except.ok.injEq, Subtype.mk.injEq]
        constructor
        · rintro rfl
          exact ⟨rfl, hstem⟩
        · exact fun h => h.1
      · refine iff_of_false (by simp) ?_
        rintro ⟨rfl, -⟩
        exact hcheck hm
      · refine iff_of_false (by simp) ?_
        rintro ⟨rfl, h⟩
        exact hstem h

/-- An entry offers exactly the manifest it holds. -/
theorem DirEntry.offer_eq_some_iff {e : DirEntry} {id : String} {m : CheckedManifest}
    (hid : id ≠ "") : e.offer id = some m ↔ e.Holds m.1 ∧ m.1.pluginId = id := by
  have hname (h : m.1.pluginId ≠ "") : ((OsString.extension e.name).bind OsString.toStr
      = some "json" ∧ ((OsString.fileStem e.name).bind OsString.toStr).getD "" = m.1.pluginId) ↔
      e.name = OsString.ofString (m.1.pluginId ++ "." ++ "json") :=
    OsString.stem_and_extension_iff h (by decide) (by decide)
  rw [DirEntry.offer, DirEntry.Holds]
  constructor
  · intro h
    split_ifs at h with hx
    cases hl : loadOne e with
    | error err => simp [hl] at h
    | ok n =>
      simp only [hl, Option.ite_none_right_eq_some, Option.some.injEq] at h
      obtain ⟨hn, rfl⟩ := h
      obtain ⟨hdoc, hstem⟩ := loadOne_eq_ok_iff.mp hl
      exact ⟨⟨by simpa [String.append_assoc] using (hname (hn ▸ hid)).mp ⟨hx, hstem⟩, hdoc⟩, hn⟩
  · rintro ⟨⟨hn, hdoc⟩, rfl⟩
    obtain ⟨hx, hstem⟩ := (hname hid).mpr (by rw [hn]; simp [String.append_assoc])
    simp [hx, loadOne_eq_ok_iff.mpr ⟨hdoc, hstem⟩]

/-- **The store of a directory.** Under an id that is not empty it answers the manifest that
`<id>.json` holds, if it declares a check, whatever the order of the enumeration. -/
theorem get_loadDir_iff {dir : Directory} {l : Listing} (h : dir.Enumerates l) {id : String}
    (hid : id ≠ "") :
    ∃ s, loadDir l = .ok s ∧ ∀ m : CheckedManifest,
      s.get id = some m ↔ (∃ e ∈ dir.entries, e.Holds m.1) ∧ m.1.pluginId = id := by
  obtain ⟨order, hperm, hl⟩ := loadDir_of_enumerates h
  refine ⟨_, hl, fun m => ?_⟩
  rw [get_foldl_loadEntry, show ManifestStore.empty.get id = none from rfl, Option.none_or]
  constructor
  · intro hs
    obtain ⟨e, he, ho⟩ := List.exists_of_findSome?_eq_some hs
    obtain ⟨hh, hm⟩ := (DirEntry.offer_eq_some_iff hid).mp ho
    exact ⟨⟨e, hperm.mem_iff.mp he, hh⟩, hm⟩
  · rintro ⟨⟨e, he, hh⟩, hm⟩
    have ho : e.offer id = some m := (DirEntry.offer_eq_some_iff hid).mpr ⟨hh, hm⟩
    have hsome : (order.findSome? (·.offer id)).isSome :=
      List.findSome?_isSome_iff.mpr ⟨e, hperm.mem_iff.mpr he, by simp [ho]⟩
    obtain ⟨m', hm'⟩ := Option.isSome_iff_exists.mp hsome
    obtain ⟨e', he', ho'⟩ := List.exists_of_findSome?_eq_some hm'
    obtain ⟨hh', hid'⟩ := (DirEntry.offer_eq_some_iff hid).mp ho'
    -- both entries have the name `<id>.json`, and a directory has a name once
    have hname : e'.name = e.name := by rw [hh'.1, hh.1, hid', hm]
    have hee : e' = e :=
      List.inj_on_of_nodup_map dir.nodup (hperm.mem_iff.mp he') he hname
    rw [hm', ← ho', hee, ho]

end Plugin

end WazabiAgent
