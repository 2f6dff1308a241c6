import WazabiAgent.Config.Sections
import WazabiAgent.Lib.FileTree
import WazabiAgent.Lib.Program
import WazabiAgent.Lib.Text
import WazabiAgent.Lib.WinPath
import WazabiAgent.Plugin.Handshake

/-!
# Plugin assignments

Each heartbeat brings the plugin actions that the server holds as pending. For each of them the
agent downloads files, calls the tool `wedr-plugin`, which alone writes manifests, and reports a
phase back (`plugin/assignment.rs`, and `download_to` of `control/client.rs`).

The handlers are programs over the operations `PluginOp`. What an operation does to the machine is
`perform`: whether it succeeds, and what a failure leaves behind, is the `Choice` of the
environment. The tool is not part of the repository; it is taken as it is relied upon, which is to
say that `enroll` writes a manifest under a fresh id, `update` pins the manifest to a path and the
hash of the file there, and `revoke` and `remove` work for a known id only. A call that fails may
have taken effect all the same, the agent kills the tool after a minute.

Which file a path names is for the file system to say, so `locate` is a parameter. Log lines are
left out.

## Main definitions

* `handleInstall`, `handleUpdate`, `handleRevoke`, `processPendingPlugins` — the programs
* `Machine`, `perform` — files, manifests, processes and the reports the server has
-/

namespace WazabiAgent

namespace Plugin

open Config Prog

/-! ### What the server sends, and what it is told -/

/-- An action on a package that the server has pending for this agent. -/
structure PendingPluginAction where
  pluginPackageId : String
  version : String
  action : String
  pluginIdLocal : Option String := none
  deriving DecidableEq

/-- A file of the package besides its artifact. -/
structure PluginExtraInfo where
  filename : String
  deriving DecidableEq

/-- What the server says about a package. -/
structure PluginInfoForAgent where
  name : String
  vendor : String
  version : String
  artifactFilename : String
  autoLaunch : Bool
  extras : List PluginExtraInfo := []
  env : List (String × String) := []
  deriving DecidableEq

/-- What the agent reports about a package. -/
structure PluginStatusReport where
  phase : String
  version : String
  pluginIdLocal : Option String
  eventsEmitted : ℕ := 0
  lastEventTs : Option String := none
  lastCrashTs : Option String := none
  crashCount1h : ℕ := 0
  error : Option String
  deriving DecidableEq

/-! ### Operations -/

/-- The calls of `wedr-plugin`. -/
inductive CliCall
  | enroll (path name vendor : String) (autoLaunch : Bool) (env : List (String × String))
  | update (pluginId path : String)
  | revoke (pluginId : String)
  | remove (pluginId : String)
  deriving DecidableEq

/-- A manifest file, for readers that want all of it and for one that wants `expected_path`. -/
inductive ManifestText
  | notJson (error : String)
  /-- A JSON text that is no manifest. -/
  | json (expectedPath : Option String)
  | manifest (m : PluginManifest)
  deriving DecidableEq

/-- What the handlers of the actions ask of the server, the file system and the system. -/
inductive PluginOp : Type → Type
  | reportPluginStatus (pkgId : String) (report : PluginStatusReport) :
      PluginOp (Except String Unit)
  | getPluginInfo (pkgId : String) : PluginOp (Except String (Option PluginInfoForAgent))
  /-- Answers with the hash that the header declares. -/
  | downloadPluginBinary (pkgId dest : String) : PluginOp (Except String String)
  | downloadPluginExtra (pkgId filename dest : String) : PluginOp (Except String String)
  | sha256FileHex (path : String) : PluginOp (Except String String)
  | pathExists (path : String) : PluginOp Bool
  | removeFile (path : String) : PluginOp (Except String Unit)
  | rename (src dst : String) : PluginOp (Except String Unit)
  /-- Answers with the output of the tool. The package on whose behalf it is called is not one of
  the arguments. -/
  | invokeWedrPlugin (pkgId : String) (cli : CliCall) : PluginOp (Except String String)
  | taskkill (basename : String) : PluginOp Unit
  | readManifest (pluginId : String) : PluginOp (Except String ManifestText)
  | removeDirAll (path : String) : PluginOp (Except String Unit)

/-- A path as its components. -/
abbrev Location := List String

/-- What does not change on a machine. -/
structure PluginHost where
  programData : Option String
  /-- The file that a path names. -/
  locate : String → Location
  /-- The digest in lower-case hex digits. -/
  sha256 : List UInt8 → String
  /-- Whether `taskkill /IM` takes a process name for the one asked for. -/
  sameImage : String → String → Bool
  /-- `{:?}` of a text or a path. -/
  quoted : String → String

variable (host : PluginHost)

/-! ### Names and paths -/

/-- `validate_segment`. -/
def validateSegment (s label : String) : Except String Unit :=
  if s = "" then .error (label ++ " vide")
  else if s.toList.any (['/', '\\', ':', '<', '>', '"', '|', '?', '*'].contains ·) ||
      (Text.cutAt "..".toList s.toList).isSome then
    .error (label ++ " contient un caractère interdit: " ++ host.quoted s)
  else .ok ()

/-- `validate_filename`. -/
def validateFilename (name : String) : Except String Unit :=
  if name = "" then .error "filename vide"
  else if WinPath.fileName name ≠ some name then
    .error ("filename non-plat (path traversal ?): " ++ host.quoted name)
  else if name.toList.head? = some '.' then
    .error ("filename commence par '.': " ++ host.quoted name)
  else .ok ()

/-- `PLUGIN_BIN_SUBDIR` in `%ProgramData%`. -/
def pluginBinDir : String := join (host.programData.getD "C:\\ProgramData") "WazabiEDR\\plugin_bin"

/-- The directory of a version, before its names are checked. -/
def versionDir (info : PluginInfoForAgent) : String :=
  join (join (pluginBinDir host) info.name) info.version

/-- `plugin_dir`. -/
def pluginDir (info : PluginInfoForAgent) : Except String String := do
  validateSegment host info.name "plugin.name"
  validateSegment host info.version "plugin.version"
  return versionDir host info

/-- Where a file of the package ends. -/
def finalPath (dir filename : String) : String := join dir filename

/-- Where a file of the package is downloaded to. -/
def partialPath (dir filename : String) : String := join dir ("." ++ filename ++ ".partial")

/-! ### Downloads -/

/-- `verify_sha`. A hash that is not declared is not checked. -/
def verifySha (path expectedHex : String) : Prog PluginOp (Except String Unit) :=
  if expectedHex = "" then .pure (.ok ())
  else
    (call (.sha256FileHex path)).andThen fun actual =>
      if eqIgnoreAsciiCase actual expectedHex then .pure (.ok ())
      else do
        let _ ← call (.removeFile path)
        return .error ("SHA-256 mismatch sur " ++ host.quoted path ++ ": attendu=" ++ expectedHex ++
          " obtenu=" ++ actual)

/-- The rename. A partial file that cannot be renamed is removed. -/
def renamePartial (dir filename : String) : Prog PluginOp (Except String String) := do
  let finalPath := finalPath dir filename
  let partialPath := partialPath dir filename
  match ← call (.rename partialPath finalPath) with
  | .ok _ => return .ok finalPath
  | .error e =>
    let _ ← call (.removeFile partialPath)
    return .error ("rename " ++ host.quoted partialPath ++ " → " ++ host.quoted finalPath ++ ": " ++ e)

/-- The file in the place of the one that may be there. -/
def replaceFile (dir filename : String) : Prog PluginOp (Except String String) := do
  let finalPath := finalPath dir filename
  let present ← call (.pathExists finalPath)
  Prog.andThen
    (if present then
      (call (.removeFile finalPath)).mapError fun e =>
        "remove existing " ++ host.quoted finalPath ++ ": " ++ e
    else .pure (.ok ()))
    fun _ => renamePartial host dir filename

/-- The request for a file. -/
def downloadFile (pkgId dir filename : String) (isPrimary : Bool) :
    Prog PluginOp (Except String String) :=
  if isPrimary then
    (call (.downloadPluginBinary pkgId (partialPath dir filename))).mapError fun e =>
      "GET /binary: " ++ e
  else
    (call (.downloadPluginExtra pkgId filename (partialPath dir filename))).mapError fun e =>
      "GET /files/" ++ filename ++ ": " ++ e

/-- `download_and_verify`. -/
def downloadAndVerify (pkgId dir filename : String) (isPrimary : Bool) :
    Prog PluginOp (Except String String) :=
  match validateFilename host filename with
  | .error e => .pure (.error e)
  | .ok _ =>
    (downloadFile pkgId dir filename isPrimary).andThen fun expectedSha =>
      (verifySha host (partialPath dir filename) expectedSha).andThen fun _ =>
        replaceFile host dir filename

/-- The loop over the extras. -/
def downloadExtras (pkgId dir : String) : List PluginExtraInfo → Prog PluginOp (Except String Unit)
  | [] => .pure (.ok ())
  | extra :: extras =>
    (downloadAndVerify host pkgId dir extra.filename false).andThen fun _ =>
      downloadExtras pkgId dir extras

/-- From `plugin_dir` to the last extra: the part that an installation and an update share. -/
def downloadAll (pkgId : String) (info : PluginInfoForAgent) : Prog PluginOp (Except String String) :=
  match pluginDir host info with
  | .error e => .pure (.error e)
  | .ok dir =>
    (downloadAndVerify host pkgId dir info.artifactFilename true).andThen fun binPath =>
      (downloadExtras host pkgId dir info.extras).andThen fun _ => .pure (.ok binPath)

/-! ### The tool -/

/-- `str::lines`, `str::trim`, `strip_prefix`, `split_once`: the id in a line of the output. -/
def pluginIdOfLine (line : List Char) : Option String :=
  let line := Text.trim Text.isWhitespace line
  if "plugin_id".toList.isPrefixOf line then
    match Text.cutAt [':'] (line.drop 9) with
    | some (_, id) =>
      let id := Text.trim Text.isWhitespace id
      if id = [] then none else some (String.ofList id)
    | none => none
  else none

/-- The lines of a text. What is left of `\r\n` is trimmed with the other white space. -/
def lines (s : String) : List (List Char) := s.toList.splitOn '\n'

/-- `invoke_enroll`. -/
def invokeEnroll (pkgId binPath : String) (info : PluginInfoForAgent) :
    Prog PluginOp (Except String String) :=
  ((call (.invokeWedrPlugin pkgId
    (.enroll binPath info.name info.vendor info.autoLaunch info.env))).mapError fun e =>
      "wedr-plugin enroll: " ++ e).andThen fun stdout =>
    match (lines stdout).findSome? pluginIdOfLine with
    | some id => .pure (.ok id)
    | none => .pure (.error
        ("wedr-plugin enroll succeeded but plugin_id introuvable dans stdout: " ++ stdout))

/-- `read_manifest_expected_path`. -/
def readManifestExpectedPath (pluginId : String) : Prog PluginOp (Except String String) :=
  let manifestPath := host.quoted
    (join (join (host.programData.getD "C:\\ProgramData") "WazabiEDR\\plugins")
      (pluginId ++ ".json"))
  ((call (.readManifest pluginId)).mapError fun e => "read " ++ manifestPath ++ ": " ++ e).andThen
    fun text =>
      match text with
      | .notJson e => .pure (.error ("parse manifest " ++ manifestPath ++ ": " ++ e))
      | .json none => .pure (.error ("manifest " ++ manifestPath ++ " sans expected_path"))
      | .json (some path) => .pure (.ok path)
      | .manifest m => .pure (.ok m.expectedPath)

/-! ### The handlers -/

/-- `report`. -/
def report (pkgId phase version : String) (pluginIdLocal error : Option String) :
    Prog PluginOp (Except String Unit) :=
  call (.reportPluginStatus pkgId {
    phase := phase
    version := version
    pluginIdLocal := pluginIdLocal
    error := error })

/-- `get_plugin_info`, where a 404 is an error with this text. -/
def requireInfo (pkgId missing : String) : Prog PluginOp (Except String PluginInfoForAgent) :=
  ((call (.getPluginInfo pkgId)).mapError fun e => "GET /info: " ++ e).andThen fun info =>
    match info with
    | some info => .pure (.ok info)
    | none => .pure (.error missing)

/-- The steps of an installation; the first that fails ends it. -/
def handleInstall (action : PendingPluginAction) : Prog PluginOp (Except String Unit) :=
  let pkgId := action.pluginPackageId
  (report pkgId "installing" action.version none none).andThen fun _ =>
  (requireInfo pkgId "GET /info: 404 (paquet non assigné ?)").andThen fun info =>
  (downloadAll host pkgId info).andThen fun binPath =>
  (report pkgId "installed" info.version none none).andThen fun _ =>
  (invokeEnroll pkgId binPath info).andThen fun pluginIdLocal =>
  report pkgId "started" info.version (some pluginIdLocal) none

/-- The steps of an update, in place and under the plugin id that the server gives. -/
def handleUpdate (action : PendingPluginAction) : Prog PluginOp (Except String Unit) :=
  let pkgId := action.pluginPackageId
  match action.pluginIdLocal with
  | none => .pure (.error
      "update sans plugin_id_local — le serveur doit le fournir pour préserver l'ID")
  | some pluginIdLocal =>
    (report pkgId "installing" action.version (some pluginIdLocal) none).andThen fun _ =>
    (requireInfo pkgId "GET /info: 404").andThen fun info =>
    (downloadAll host pkgId info).andThen fun binPath =>
    ((call (.invokeWedrPlugin pkgId (.update pluginIdLocal binPath))).mapError fun e =>
      "wedr-plugin update: " ++ e).andThen fun _ => do
    call (.taskkill info.artifactFilename)
    report pkgId "started" info.version (some pluginIdLocal) none

/-- What a revocation does with the path it has read, if it has one. -/
def cleanup : Option String → Prog PluginOp Unit
  | none => .pure ()
  | some binPath =>
    match WinPath.parent binPath with
    | none => .pure ()
    | some dir => do
      -- a failure is only logged
      let _ ← call (.removeDirAll dir)
      return ()

/-- The steps of a revocation. -/
def handleRevoke (action : PendingPluginAction) : Prog PluginOp (Except String Unit) :=
  let pkgId := action.pluginPackageId
  match action.pluginIdLocal with
  | none => .pure (.error ("revoke sans plugin_id_local — fix audit #5 côté serveur devrait " ++
      "basculer REVOKED inline"))
  | some pluginIdLocal => do
    let binPathToCleanup ← readManifestExpectedPath host pluginIdLocal
    ((call (.invokeWedrPlugin pkgId (.revoke pluginIdLocal))).mapError fun e =>
      "wedr-plugin revoke: " ++ e).andThen fun _ =>
      ((call (.invokeWedrPlugin pkgId (.remove pluginIdLocal))).mapError fun e =>
        "wedr-plugin remove: " ++ e).andThen fun _ => do
        cleanup binPathToCleanup.toOption
        report pkgId "revoked" action.version (some pluginIdLocal) none

/-- The handler of an action; an unknown action has none. -/
def handle (action : PendingPluginAction) : Option (Prog PluginOp (Except String Unit)) :=
  if action.action = "install" then some (handleInstall host action)
  else if action.action = "update" then some (handleUpdate host action)
  else if action.action = "revoke" then some (handleRevoke host action)
  else none

/-- One action of the loop. -/
def processAction (action : PendingPluginAction) : Prog PluginOp Unit :=
  match handle host action with
  | none => .pure ()
  | some handler => do
    match ← handler with
    | .ok _ => return ()
    | .error e =>
      let _ ← report action.pluginPackageId "failed_install" action.version none (some e)
      return ()

/-- The actions of an answer, one after the other. -/
def processAll : List PendingPluginAction → Prog PluginOp Unit
  | [] => .pure ()
  | action :: actions => do
    processAction host action
    processAll actions

/-- The actions whose package is not in `IN_FLIGHT`, where each one taken is put. -/
def toProcess (inFlight : List String) : List PendingPluginAction → List PendingPluginAction
  | [] => []
  | action :: actions =>
    if action.pluginPackageId ∈ inFlight then toProcess inFlight actions
    else action :: toProcess (action.pluginPackageId :: inFlight) actions

/-- `process_pending_plugins`. Only the heartbeat thread calls it, so `IN_FLIGHT` is empty when it
begins and keeps out repetitions within the batch. -/
def processPendingPlugins (actions : List PendingPluginAction) : Prog PluginOp Unit :=
  processAll host (toProcess [] actions)

/-! ### The machine -/

/-- The machine that the handlers work on. -/
structure Machine where
  tree : FileTree String (List UInt8) := fun _ => none
  /-- By plugin id. -/
  manifests : String → Option ManifestText := fun _ => none
  /-- The image paths of the processes. -/
  processes : List String := []
  /-- What the server knows of a package. -/
  catalog : String → Option PluginInfoForAgent := fun _ => none
  /-- The reports that the server has received. -/
  reports : List (String × PluginStatusReport) := []
  /-- The identities that `enroll` has made, each with the package it was made for. -/
  enrolments : List (String × String) := []

/-- What the environment decides about one operation. -/
structure Choice where
  ok : Bool := true
  /-- A failure that took effect all the same, or in part. -/
  took : Bool := false
  error : String := ""
  /-- The bytes of a download that are written. -/
  body : List UInt8 := []
  /-- The hash that the server declares. -/
  header : String := ""
  /-- The id that `enroll` makes up. -/
  id : String := ""
  stdout : String := ""
  /-- What a failed recursive removal leaves. -/
  kept : Location → Bool := fun _ => true

/-- `create_dir_all` of the directory that a file is to be in. -/
def createParent {α : Type} (t : FileTree String α) (path : String) : Option (FileTree String α) :=
  match WinPath.parent path with
  | none => some t
  | some dir => t.createDirAll (host.locate dir)

namespace Machine

variable (m : Machine)

/-- Writes or removes the manifest of a plugin id. -/
def setManifest (id : String) (text : Option ManifestText) : Machine :=
  { m with manifests := fun id' => if id' = id then text else m.manifests id' }

/-- `download_to`. The answer declares a hash whether or not the file can be created. -/
def download (dest : String) (c : Choice) : Except String String × Machine :=
  match createParent host m.tree dest with
  | none => (.error c.error, m)
  | some tree =>
    match tree.write (host.locate dest) c.body with
    | none => (.error c.error, if c.took then { m with tree := tree } else m)
    | some tree' =>
      if c.ok then (.ok c.header, { m with tree := tree' })
      else (.error c.error, if c.took then { m with tree := tree' } else m)

/-- What a call of the tool does, if it can. -/
def wedrPlugin (pkgId : String) (c : Choice) : CliCall → Option Machine
  | .enroll path name _ autoLaunch env =>
    match m.manifests c.id, m.tree.content (host.locate path) with
    | none, some bytes =>
      some { m.setManifest c.id (some (.manifest {
          pluginId := c.id
          name := name
          expectedPath := path
          expectedSha256 := some (host.sha256 bytes)
          expectedSigner := none
          revoked := false
          autoLaunch := autoLaunch
          env := env })) with
        enrolments := m.enrolments ++ [(pkgId, c.id)] }
    | _, _ => none
  | .update pluginId path =>
    match m.manifests pluginId, m.tree.content (host.locate path) with
    | some (.manifest manifest), some bytes =>
      some (m.setManifest pluginId (some (.manifest { manifest with
        expectedPath := path
        expectedSha256 := some (host.sha256 bytes) })))
    | _, _ => none
  | .revoke pluginId =>
    match m.manifests pluginId with
    | some (.manifest manifest) =>
      some (m.setManifest pluginId (some (.manifest { manifest with revoked := true })))
    | _ => none
  | .remove pluginId =>
    match m.manifests pluginId with
    | some (.manifest _) => some (m.setManifest pluginId none)
    | _ => none

/-- `remove_dir_all`, where a failure leaves the directory and what was kept in it. -/
def removeTree (l : Location) (c : Choice) : Machine :=
  { m with tree := m.tree.prune l fun l' => !c.ok && (l' = l || c.kept l') }

end Machine

/-- The name of the image of a process. -/
def imageName (path : String) : String := (WinPath.fileName path).getD path

/-- What an operation does to the machine, for a choice of outcome. -/
def perform : Handler PluginOp Machine Choice := fun {β} (o : PluginOp β) m c =>
  match o with
  | .reportPluginStatus pkgId r =>
    let m' := { m with reports := m.reports ++ [(pkgId, r)] }
    if c.ok then (.ok (), m') else (.error c.error, if c.took then m' else m)
  | .getPluginInfo pkgId => (if c.ok then .ok (m.catalog pkgId) else .error c.error, m)
  | .downloadPluginBinary _ dest => m.download host dest c
  | .downloadPluginExtra _ _ dest => m.download host dest c
  | .sha256FileHex path =>
    match m.tree.content (host.locate path) with
    | some bytes => (if c.ok then .ok (host.sha256 bytes) else .error c.error, m)
    | none => (.error c.error, m)
  | .pathExists path => (c.ok && (m.tree (host.locate path)).isSome, m)
  | .removeFile path =>
    match m.tree.removeFile (host.locate path) with
    | some tree => if c.ok then (.ok (), { m with tree := tree }) else (.error c.error, m)
    | none => (.error c.error, m)
  | .rename src dst =>
    match m.tree.rename (host.locate src) (host.locate dst) with
    | some tree => if c.ok then (.ok (), { m with tree := tree }) else (.error c.error, m)
    | none => (.error c.error, m)
  | .invokeWedrPlugin pkgId cli =>
    match m.wedrPlugin host pkgId c cli with
    | some m' => if c.ok then (.ok c.stdout, m') else (.error c.error, if c.took then m' else m)
    | none => (.error c.error, m)
  | .taskkill basename =>
    ((), if c.ok then
      { m with processes := m.processes.filter fun p => !host.sameImage (imageName p) basename }
    else m)
  | .readManifest pluginId =>
    match m.manifests pluginId with
    | some text => (if c.ok then .ok text else .error c.error, m)
    | none => (.error c.error, m)
  | .removeDirAll path =>
    if m.tree.isDir (host.locate path) then
      (if c.ok then .ok () else .error c.error, m.removeTree (host.locate path) c)
    else (.error c.error, m)

/-! ### What operations leave alone -/

/-- `wp` for a program that the environment may answer anything and interrupt anywhere. -/
abbrev Keeps (host : PluginHost) (J : Machine → Prop) {α : Type} (p : Prog PluginOp α)
    (Q : α → Machine → Prop) (w : Machine) : Prop :=
  wp (perform host) (fun _ _ _ => True) Eq J p Q w

variable {host}

section Keeps

variable {α : Type} {J : Machine → Prop} {Q : α → Machine → Prop} {w : Machine}

theorem keeps_pure {a : α} (h : Q a w) : Keeps host J (.pure a) Q w := (wp_alone_pure a Q w).mpr h

theorem keeps_op {γ : Type} {o : PluginOp γ} {k : γ → Prog PluginOp α} (hJ : J w)
    (h : ∀ c, Keeps host J (k (perform host o w c).1) Q (perform host o w c).2) :
    Keeps host J (.op o k) Q w :=
  (wp_alone_op o k Q w).mpr ⟨hJ, fun c _ => h c⟩

theorem keeps_call {o : PluginOp α} (hJ : J w)
    (h : ∀ c, Q (perform host o w c).1 (perform host o w c).2) : Keeps host J (call o) Q w :=
  keeps_op hJ fun c => keeps_pure (h c)

end Keeps

/-- A download is about files and directories. -/
theorem Machine.download_frame (host : PluginHost) (m : Machine) (dest : String) (c : Choice) :
    ∃ tree, (m.download host dest c).2 = { m with tree := tree } := by
  unfold download
  split
  · exact ⟨m.tree, rfl⟩
  · split <;> split_ifs <;> exact ⟨_, rfl⟩

/-- The tool is about manifests. -/
theorem Machine.wedrPlugin_frame {m m' : Machine} {pkgId : String} {c : Choice} {cli : CliCall}
    (h : m.wedrPlugin host pkgId c cli = some m') :
    ∃ manifests enrolments, m' = { m with manifests := manifests, enrolments := enrolments } := by
  cases cli <;> simp only [wedrPlugin] at h <;> split at h <;>
    first
    | exact ⟨_, _, (Option.some.inj h).symm⟩
    | cases h

/-- A call of the tool, whether it is seen to succeed or not: nothing, or what the tool does. -/
theorem perform_invoke (host : PluginHost) (m : Machine) (pkgId : String) (c : Choice)
    (cli : CliCall) :
    (perform host (.invokeWedrPlugin pkgId cli) m c).2 = m ∨
      m.wedrPlugin host pkgId c cli
        = some (perform host (.invokeWedrPlugin pkgId cli) m c).2 := by
  simp only [perform]
  cases h : m.wedrPlugin host pkgId c cli with
  | none => exact .inl rfl
  | some m' =>
    dsimp only
    split_ifs
    · exact .inr rfl
    · exact .inr rfl
    · exact .inl rfl

/-! ### A plain machine -/

/-- A machine with one drive, where names differ if they are written differently. -/
def plainHost : PluginHost where
  programData := none
  locate path := (WinPath.components path.toList).map String.ofList
  sha256 bytes := toString bytes.length
  sameImage a b := a = b
  quoted s := s

/-- Where the artifact of acme's package is installed. -/
def acmePath : String := "C:\\ProgramData\\WazabiEDR\\plugin_bin\\acme\\1.0\\acme.exe"

/-- The package of acme at the server. -/
def acmeInfo : PluginInfoForAgent where
  name := "acme"
  vendor := "Acme"
  version := "1.0"
  artifactFilename := "acme.exe"
  autoLaunch := true

/-- The manifest that the installation of acme's package leaves. -/
def acmeManifest : PluginManifest where
  pluginId := "8f3c"
  name := "acme"
  expectedPath := acmePath
  expectedSha256 := some "2"
  expectedSigner := none
  revoked := false
  autoLaunch := true
  env := []

/-- One plugin, installed. -/
def acmeMachine : Machine where
  tree l :=
    if l = ["ProgramData", "WazabiEDR", "plugin_bin", "acme", "1.0", "acme.exe"] then
      some (.file [77, 90])
    else if l <+: ["ProgramData", "WazabiEDR", "plugin_bin", "acme", "1.0"] then some .dir
    else none
  manifests id := if id = "8f3c" then some (.manifest acmeManifest) else none
  processes := [acmePath]
  catalog _ := some acmeInfo

/-- An operation that fails without an effect. -/
def lost : Choice where
  ok := false
  error := "timed out"

end Plugin

end WazabiAgent
