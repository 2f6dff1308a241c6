import WazabiAgent.Plugin.ManifestStore

/-!
# The handshake

`validate_handshake` (`plugin/server.rs`) decides whether a connecting process is the plugin it
says it is: the schema version, an enrolled manifest that is not revoked, the image path, and the
checks that the manifest declares.

The host is a parameter: `str::to_lowercase`, the digest of a file, and `WinVerifyTrust`. The
subject of a signature is not compared by the code, only that the file is signed.

## Main results

* `validateHandshake_eq_ok_iff` — which manifest a session is bound to
* `handshake_of_directory` — the verdict in terms of the enrolment directory: it does not depend on
  the order in which the directory was read, and nothing passes without a check
-/

namespace WazabiAgent

namespace Plugin

/-- `SCHEMA_VERSION`. -/
def schemaVersion : UInt32 := 1

/-- The first frame of a plugin. -/
structure Hello where
  pluginId : String
  pluginVersion : String
  schemaVersion : UInt32
  deriving DecidableEq

/-- Why a Hello is refused. -/
inductive RejectReason
  | badHandshake
  | schemaMismatch
  | unknownPluginId
  | pathMismatch
  | hashMismatch
  | signatureInvalid
  | revoked
  | tooManySessions
  deriving DecidableEq

/-- `RejectReason::as_str`. -/
def RejectReason.asStr : RejectReason → String
  | .badHandshake => "bad_handshake"
  | .schemaMismatch => "schema_mismatch"
  | .unknownPluginId => "unknown_plugin_id"
  | .pathMismatch => "path_mismatch"
  | .hashMismatch => "hash_mismatch"
  | .signatureInvalid => "signature_invalid"
  | .revoked => "revoked"
  | .tooManySessions => "too_many_sessions"

/-- What the system says about the connected process. -/
structure ClientIdentity where
  pid : UInt32
  imagePath : OsString

/-- What the checks ask of the machine they run on. -/
structure Host where
  /-- `str::to_lowercase`. -/
  toLowercase : String → String
  /-- `sha256_file_hex`, `none` if the file cannot be read. -/
  sha256FileHex : OsString → Option String
  /-- `verify_authenticode` succeeds. -/
  verifyAuthenticode : OsString → Bool

/-- `paths_match`. -/
def pathsMatch (host : Host) (a : OsString) (b : String) : Bool :=
  host.toLowercase a.toStringLossy = host.toLowercase b

/-- `str::eq_ignore_ascii_case`. -/
def eqIgnoreAsciiCase (a b : String) : Bool := a.toList.map Char.toLower = b.toList.map Char.toLower

/-- The hash check, if one is declared. -/
def hashMatches (host : Host) (imagePath : OsString) : Option String → Bool
  | none => true
  | some expected =>
    match host.sha256FileHex imagePath with
    | some actual => eqIgnoreAsciiCase actual expected
    | none => false

/-- The signature check, if one is declared. -/
def signatureMatches (host : Host) (imagePath : OsString) (expectedSigner : Option String) : Bool :=
  !expectedSigner.isSome || host.verifyAuthenticode imagePath

/-- `validate_handshake`. -/
def validateHandshake (host : Host) (hello : Hello) (identity : ClientIdentity)
    (store : ManifestStore) : Except RejectReason CheckedManifest :=
  if hello.schemaVersion ≠ schemaVersion then .error .schemaMismatch
  else
    match store.get hello.pluginId with
    | none => .error .unknownPluginId
    | some manifest =>
      if manifest.1.revoked then .error .revoked
      else if !pathsMatch host identity.imagePath manifest.1.expectedPath then .error .pathMismatch
      else if !hashMatches host identity.imagePath manifest.1.expectedSha256 then
        .error .hashMismatch
      else if !signatureMatches host identity.imagePath manifest.1.expectedSigner then
        .error .signatureInvalid
      else .ok manifest

/-! ### What an accepted session has passed -/

variable {host : Host} {hello : Hello} {identity : ClientIdentity}

/-- The process is the one that `m` describes. -/
structure Matches (host : Host) (identity : ClientIdentity) (m : PluginManifest) : Prop where
  notRevoked : m.revoked = false
  path : host.toLowercase identity.imagePath.toStringLossy = host.toLowercase m.expectedPath
  hash : ∀ expected, m.expectedSha256 = some expected →
    ∃ actual, host.sha256FileHex identity.imagePath = some actual ∧
      eqIgnoreAsciiCase actual expected = true
  signature : m.expectedSigner.isSome → host.verifyAuthenticode identity.imagePath = true

/-- A check that `m` declares was made, and passed. -/
def PassedCheck (host : Host) (identity : ClientIdentity) (m : PluginManifest) : Prop :=
  (∃ expected actual, m.expectedSha256 = some expected ∧
      host.sha256FileHex identity.imagePath = some actual ∧
      eqIgnoreAsciiCase actual expected = true) ∨
    (m.expectedSigner.isSome ∧ host.verifyAuthenticode identity.imagePath = true)

theorem hashMatches_iff {path : OsString} {expected : Option String} :
    hashMatches host path expected = true ↔
      ∀ e, expected = some e →
        ∃ actual, host.sha256FileHex path = some actual ∧ eqIgnoreAsciiCase actual e = true := by
  cases expected with
  | none => simp [hashMatches]
  | some e => cases h : host.sha256FileHex path <;> simp [hashMatches, h]

theorem signatureMatches_iff {path : OsString} {signer : Option String} :
    signatureMatches host path signer = true ↔
      (signer.isSome → host.verifyAuthenticode path = true) := by
  cases signer <;> simp [signatureMatches]

theorem matches_iff {m : PluginManifest} :
    Matches host identity m ↔
      m.revoked = false ∧ pathsMatch host identity.imagePath m.expectedPath = true ∧
        hashMatches host identity.imagePath m.expectedSha256 = true ∧
        signatureMatches host identity.imagePath m.expectedSigner = true := by
  rw [hashMatches_iff, signatureMatches_iff, pathsMatch, decide_eq_true_eq]
  constructor
  · rintro ⟨hr, hp, hh, hs⟩
    exact ⟨hr, hp, hh, hs⟩
  · rintro ⟨hr, hp, hh, hs⟩
    exact ⟨hr, hp, hh, hs⟩

/-- A manifest that declares a check cannot be matched without one. -/
theorem Matches.passedCheck {m : PluginManifest} (h : Matches host identity m)
    (hm : m.DeclaresCheck) : PassedCheck host identity m := by
  rcases hm with hhash | hsigner
  · obtain ⟨expected, he⟩ := Option.isSome_iff_exists.mp hhash
    obtain ⟨actual, ha, heq⟩ := h.hash expected he
    exact .inl ⟨expected, actual, he, ha, heq⟩
  · exact .inr ⟨hsigner, h.signature hsigner⟩

theorem validateHandshake_eq_ok_iff {store : ManifestStore} {m : CheckedManifest} :
    validateHandshake host hello identity store = .ok m ↔
      hello.schemaVersion = schemaVersion ∧ store.get hello.pluginId = some m ∧
        Matches host identity m.1 := by
  rw [matches_iff]
  rw [validateHandshake]
  by_cases hv : hello.schemaVersion = schemaVersion
  · rw [if_neg (not_not.mpr hv)]
    cases hg : store.get hello.pluginId with
    | none => simp
    | some n =>
      dsimp only
      simp only [hv, true_and, Option.some.injEq]
      split_ifs with hr hp hh hs
      · exact iff_of_false (by simp) (by rintro ⟨rfl, h, -⟩; simp [h] at hr)
      · exact iff_of_false (by simp) (by rintro ⟨rfl, -, h, -⟩; simp [h] at hp)
      · exact iff_of_false (by simp) (by rintro ⟨rfl, -, -, h, -⟩; simp [h] at hh)
      · exact iff_of_false (by simp) (by rintro ⟨rfl, -, -, -, h⟩; simp [h] at hs)
      · rw [Except.ok.injEq]
        constructor
        · rintro rfl
          exact ⟨rfl, by simpa using hr, by simpa using hp, by simpa using hh, by simpa using hs⟩
        · exact fun h => h.1
  · simp [hv]

/-! ### From the directory to the verdict -/

/-- The directory holds `<plugin_id>.json` with a manifest of that id that declares a check and
describes the process. -/
def Directory.Admits (dir : Directory) (host : Host) (hello : Hello) (identity : ClientIdentity)
    (m : PluginManifest) : Prop :=
  (∃ e ∈ dir.entries, e.name = OsString.ofString (hello.pluginId ++ ".json") ∧
      ∃ doc, e.file = .bytes (some doc) ∧ decodeManifest doc = some m) ∧
    m.pluginId = hello.pluginId ∧ m.DeclaresCheck ∧ Matches host identity m

theorem validateHandshake_loadDir_iff {dir : Directory} {l : Listing} {store : ManifestStore}
    (h : dir.Enumerates l) (hid : hello.pluginId ≠ "") (hl : loadDir l = .ok store)
    {m : CheckedManifest} :
    validateHandshake host hello identity store = .ok m ↔
      hello.schemaVersion = schemaVersion ∧ dir.Admits host hello identity m.1 := by
  obtain ⟨store', hl', hget⟩ := get_loadDir_iff h hid
  obtain rfl : store = store' := Except.ok.inj (hl.symm.trans hl')
  rw [validateHandshake_eq_ok_iff, hget]
  constructor
  · rintro ⟨hv, ⟨⟨e, he, hn, hdoc⟩, hm⟩, hmatch⟩
    exact ⟨hv, ⟨e, he, hm ▸ hn, hdoc⟩, hm, m.2, hmatch⟩
  · rintro ⟨hv, ⟨e, he, hn, hdoc⟩, hm, -, hmatch⟩
    exact ⟨hv, ⟨⟨e, he, hm ▸ hn, hdoc⟩, hm⟩, hmatch⟩

/-- Under an id that is not empty, two enumerations of a directory lead to the same answers. -/
theorem get_loadDir_eq {dir : Directory} {l l' : Listing} {store store' : ManifestStore}
    (h : dir.Enumerates l) (h' : dir.Enumerates l') (hl : loadDir l = .ok store)
    (hl' : loadDir l' = .ok store') {id : String} (hid : id ≠ "") :
    store.get id = store'.get id := by
  obtain ⟨s, hs, hget⟩ := get_loadDir_iff h hid
  obtain ⟨s', hs', hget'⟩ := get_loadDir_iff h' hid
  obtain rfl : store = s := Except.ok.inj (hl.symm.trans hs)
  obtain rfl : store' = s' := Except.ok.inj (hl'.symm.trans hs')
  exact Option.ext fun m => (hget m).trans (hget' m).symm

/-- **Handshake soundness.** An enumeration without error yields a store, and on it the handshake
succeeds exactly for the right schema version and a process that the directory admits. Every other
enumeration leads to the same verdict, and an accepted process passed a check. -/
theorem handshake_of_directory (host : Host) {dir : Directory} {l : Listing}
    (h : dir.Enumerates l) (hello : Hello) (identity : ClientIdentity)
    (hid : hello.pluginId ≠ "") :
    ∃ store, loadDir l = .ok store ∧
      ((∃ m, validateHandshake host hello identity store = .ok m) ↔
        hello.schemaVersion = schemaVersion ∧ ∃ m, dir.Admits host hello identity m) ∧
      (∀ m, validateHandshake host hello identity store = .ok m →
        dir.Admits host hello identity m.1 ∧ PassedCheck host identity m.1) ∧
      ∀ l' store', dir.Enumerates l' → loadDir l' = .ok store' →
        validateHandshake host hello identity store'
          = validateHandshake host hello identity store := by
  obtain ⟨store, hl, -⟩ := get_loadDir_iff h hid
  have hiff {m : CheckedManifest} : validateHandshake host hello identity store = .ok m ↔
      hello.schemaVersion = schemaVersion ∧ dir.Admits host hello identity m.1 :=
    validateHandshake_loadDir_iff h hid hl
  refine ⟨store, hl, ?_, fun m hm => ?_, fun l' store' h' hl' => ?_⟩
  · constructor
    · rintro ⟨m, hm⟩
      exact ⟨(hiff.mp hm).1, m.1, (hiff.mp hm).2⟩
    · rintro ⟨hv, m, hm⟩
      exact ⟨⟨m, hm.2.2.1⟩, hiff.mpr ⟨hv, hm⟩⟩
  · obtain ⟨-, hadmits⟩ := hiff.mp hm
    exact ⟨hadmits, hadmits.2.2.2.passedCheck m.2⟩
  · unfold validateHandshake
    rw [get_loadDir_eq h' h hl' hl hid]

/-! ### One enrolled plugin -/

/-- A machine on which `C:\\Acme\\p.exe` is an empty file that nobody signed. -/
def acmeHost : Host where
  toLowercase s := String.ofList (s.toList.map Char.toLower)
  sha256FileHex path :=
    if path = OsString.ofString "C:\\Acme\\p.exe" then
      some "e3b0c44298fc1c149afbf4c8996fb92427ae41e4649b934ca495991b7852b855"
    else none
  verifyAuthenticode _ := false

/-- The directory that enrols it. -/
def acmeDirectory : Directory where
  entries := [{
    name := OsString.ofString "acme.json"
    file := .bytes (some (.object [
      ("plugin_id", .string "acme"),
      ("name", .string "Acme Telemetry"),
      ("vendor", .string "Acme Corp"),
      ("expected_path", .string "c:\\acme\\P.exe"),
      ("expected_sha256",
        .string "e3b0c44298fc1c149afbf4c8996fb92427ae41e4649b934ca495991b7852b855")])) }]
  nodup := List.nodup_singleton _

/-- The Hello of the acme plugin. -/
def acmeHello : Hello where
  pluginId := "acme"
  pluginVersion := "1.0.0"
  schemaVersion := 1

/-- The process that acme runs in. -/
def acmeIdentity : ClientIdentity where
  pid := 4242
  imagePath := OsString.ofString "C:\\Acme\\p.exe"

theorem acme_accepted :
    ∃ store, loadDir (.entries (acmeDirectory.entries.map some)) = .ok store ∧
      ∃ m, validateHandshake acmeHost acmeHello acmeIdentity store = .ok m := by
  have henumerates : acmeDirectory.Enumerates (.entries (acmeDirectory.entries.map some)) :=
    ⟨acmeDirectory.entries, .refl _, rfl⟩
  obtain ⟨store, hl, hiff, -⟩ := handshake_of_directory acmeHost henumerates acmeHello acmeIdentity
    (by decide)
  refine ⟨store, hl, hiff.mpr ⟨rfl, _, ⟨_, List.mem_singleton_self _, rfl, _, rfl, rfl⟩, rfl,
    .inl rfl, ⟨rfl, by decide, ?_, by simp⟩⟩⟩
  rintro expected ⟨⟩
  exact ⟨_, rfl, by decide⟩

end Plugin

end WazabiAgent
