import Mathlib.Data.List.Basic

/-!
# Plugin manifests

The enrolment record of one plugin, and what a reader of the file `<plugin_id>.json` can see of
it. A manifest file is kept here as its content, not as bytes: what matters to every reader is
whether the file is there and which record `serde_json` reads out of it.

`vendor` and `enrolled_at` are not modelled, no decision of the agent depends on them.
-/

namespace WazabiAgent

namespace Plugin

/-- The on-disk manifest schema, `PluginManifest` in `plugin/manifest.rs`. -/
structure PluginManifest where
  pluginId : String
  name : String
  /-- Absolute path of the plugin binary. -/
  expectedPath : String
  /-- Hex SHA-256 of the binary, when it is pinned. -/
  expectedSha256 : Option String
  /-- Authenticode subject, when a signature is required. -/
  expectedSigner : Option String
  revoked : Bool
  /-- The supervisor starts and restarts the plugin. -/
  autoLaunch : Bool
  /-- Environment of the plugin process. -/
  env : List (String × String)
  deriving DecidableEq, Repr

/-- What the supervisor pins a running process to: path and hash of the binary. -/
def PluginManifest.binary (m : PluginManifest) : String × Option String :=
  (m.expectedPath, m.expectedSha256)

/-- The content of a manifest file. -/
inductive ManifestFile
  /-- There is no such file. -/
  | absent
  /-- A file whose bytes do not deserialise. -/
  | corrupt
  /-- A file that deserialises. -/
  | manifest (m : PluginManifest)
  deriving DecidableEq, Repr

/-- The result of `fs::read`, followed by `serde_json::from_slice` where it succeeded. -/
inductive ManifestRead
  | notFound
  | ioError
  | bytes (parsed : Option PluginManifest)
  deriving DecidableEq, Repr

/-- Read the file; `ioError` says that the read itself fails, for a reason other than a missing
file. -/
def ManifestFile.read (f : ManifestFile) (ioError : Bool) : ManifestRead :=
  match ioError, f with
  | true, _ => .ioError
  | false, .absent => .notFound
  | false, .corrupt => .bytes none
  | false, .manifest m => .bytes (some m)

/-- The binary the file pins the plugin to, if it can be read. -/
def ManifestFile.binary? : ManifestFile → Option (String × Option String)
  | .manifest m => some m.binary
  | _ => none

/-- The file asks for the plugin to be stopped: it is revoked or gone. -/
def ManifestFile.Stops : ManifestFile → Prop
  | .absent => True
  | .corrupt => False
  | .manifest m => m.revoked = true

instance : DecidablePred ManifestFile.Stops := fun f =>
  match f with
  | .absent => isTrue trivial
  | .corrupt => isFalse id
  | .manifest m => inferInstanceAs (Decidable (m.revoked = true))

end Plugin

end WazabiAgent
