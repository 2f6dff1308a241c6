import WazabiAgent.Config.Sections
import WazabiAgent.Control.Isolation
import WazabiAgent.Control.Sha256
import WazabiAgent.Plugin.Handshake

/-!
# Updating the agent

`execute_update_agent` (`control/executor.rs`) downloads an installer into the directory for
temporary files, compares its hash with the one that the server may have given, and starts it. The
directory is one that other processes use too.

The body of an answer is what the reads of it give, which may be an error in the middle. A write
that fails may have written a part. A file is shorter than `2 ^ 61` bytes, so that its hash is its
digest (`sha256File_spec`).

## Ghost state

`served` is the whole body of the answer, and `started` what has been started, with the bytes that
the file had at that moment.

## Main definitions

* `executeUpdateAgent` — the program
* `Spared` — what the other processes leave alone

## Main results

* `update_verified` — what is started is the whole download, with the hash that was asked for
* `update_succeeds` — and it is started if no call fails
-/

namespace WazabiAgent

namespace Control

namespace Update

open Config Prog

/-- An HTTP response: its status, and its body as the reads give it. -/
structure Response where
  status : ℕ
  statusText : String
  body : List (Except String (List UInt8))

/-- What the command asks of the system. -/
inductive UpdateOp : Type → Type
  /-- The seconds since 1970. -/
  | clock : UpdateOp ℕ
  | get (url : String) : UpdateOp (Except String Response)
  | create (path : String) : UpdateOp (Except String Unit)
  | write (path : String) (bytes : List UInt8) : UpdateOp (Except String Unit)
  | sha256File (path : String) : UpdateOp (Except String String)
  | removeFile (path : String) : UpdateOp (Except String Unit)
  | spawn (path : String) (args : List String) : UpdateOp (Except String UInt32)
  | now : UpdateOp String

/-! ### The program -/

/-- The address of the installer, unless it is blank. -/
def downloadUrl (payload : Json) : Option String :=
  ((payload.get "download_url").bind Json.asStr).filter (· ≠ "")

/-- The digest that the server promises. -/
def expectedSha (payload : Json) : Option String := (payload.get "sha256").bind Json.asStr

/-- The version that the server names, or nothing. -/
def targetVersion (payload : Json) : String :=
  ((payload.get "target_version").bind Json.asStr).getD ""

/-- The file that the installer is downloaded to, named after the second. -/
def installerPath (tempDir : String) (stamp : ℕ) : String :=
  join tempDir ("WazabiEDR_Setup_" ++ toString stamp ++ ".exe")

/-- `std::io::copy`. A read of nothing is the end. -/
def copyBody (dst : String) : List (Except String (List UInt8)) → ℕ →
    Prog UpdateOp (Except String ℕ)
  | [], written => return .ok written
  | .error e :: _, _ => return .error e
  | .ok [] :: _, written => return .ok written
  | .ok (b :: bytes) :: rest, written => do
    match ← call (.write dst (b :: bytes)) with
    | .error e => return .error e
    | .ok _ => copyBody dst rest (written + (b :: bytes).length)

/-- Downloads into a file; answers with the number of bytes. -/
def downloadToFile (url dst : String) : Prog UpdateOp (Except String ℕ) := do
  match ← call (.get url) with
  | .error e => return .error e
  | .ok resp =>
    if resp.status / 100 = 2 then
      match ← call (.create dst) with
      | .error e => return .error ("create " ++ dst ++ ": " ++ e)
      | .ok _ => copyBody dst resp.body 0
    else return .error ("HTTP " ++ toString resp.status ++ " " ++ resp.statusText)

/-- A failed command. -/
def failure (fields : List (String × Json)) : ExecutionResult := ⟨"failed", .object fields⟩

/-- The arguments that the installer is started with. -/
def installerArgs : List String := ["/SILENT", "/UPGRADE", "/SUPPRESSMSGBOXES"]

/-- The report of an installer that runs. -/
def report (payload : Json) (executedAt url path actualSha : String) (download : ℕ)
    (pid : UInt32) : ExecutionResult where
  status := "success"
  result := .object [("executed_at", .string executedAt), ("action", .string "update_agent"),
    ("target_version", .string (targetVersion payload)), ("download_url", .string url),
    ("downloaded_bytes", .number (toString download)),
    ("sha256_verified", .bool (expectedSha payload).isSome), ("sha256", .string actualSha),
    ("installer_path", .string path), ("installer_pid", .number (toString pid.toNat)),
    ("note", .string
      "installer spawned with /SILENT /UPGRADE — service will restart from new binaries")]

/-- What comes after the checks. Nobody waits for the installer, which will stop the agent. -/
def launch (payload : Json) (url path actualSha : String) (download : ℕ) :
    Prog UpdateOp ExecutionResult := do
  match ← call (.spawn path installerArgs) with
  | .error e =>
    return failure [("error", .string ("spawn installer failed: " ++ e)),
      ("installer_path", .string path), ("downloaded_bytes", .number (toString download)),
      ("actual_sha256", .string actualSha)]
  | .ok pid =>
    let executedAt ← call .now
    return report payload executedAt url path actualSha download pid

/-- The comparison of the hashes, and the launch. -/
def install (payload : Json) (url path : String) (download : ℕ) :
    Prog UpdateOp ExecutionResult := do
  match ← call (.sha256File path) with
  | .error e =>
    let _ ← call (.removeFile path)
    return failure [("error", .string ("sha256 failed: " ++ e)), ("installer_path", .string path)]
  | .ok actualSha =>
    match expectedSha payload with
    | none => launch payload url path actualSha download
    | some want =>
      if Plugin.eqIgnoreAsciiCase want actualSha then launch payload url path actualSha download
      else
        let _ ← call (.removeFile path)
        return failure [("error", .string "sha256 mismatch — refusing to install"),
          ("expected", .string want), ("actual", .string actualSha),
          ("installer_path", .string path)]

/-- The steps of the command. -/
def executeUpdateAgent (tempDir : String) (payload : Json) : Prog UpdateOp ExecutionResult :=
  match downloadUrl payload with
  | none =>
    return failure [("error", .string "missing 'download_url' — server must inject INSTALLER_URL"),
      ("got", payload)]
  | some url => do
    let stamp ← call .clock
    match ← downloadToFile url (installerPath tempDir stamp) with
    | .error e =>
      return failure [("error", .string ("download failed: " ++ e)), ("url", .string url)]
    | .ok download => install payload url (installerPath tempDir stamp) download

/-! ### What the operations do -/

/-- A process that was started, with the bytes of its image at that moment. -/
structure Started where
  path : String
  args : List String
  bytes : List UInt8

/-- The disk, what the server sent, and the processes started. -/
structure World where
  disk : String → Option (List UInt8)
  served : Option (List UInt8) := none
  started : List Started := []
  /-- Ghost: the file that the command has created. -/
  created : Option String := none

/-- What an operation finds. -/
structure Choice where
  fault : Option String := none
  stamp : ℕ := 0
  response : Response := ⟨200, "OK", []⟩
  /-- How much a failed write writes. -/
  written : ℕ := 0
  pid : UInt32 := 0
  time : String := ""

/-- The whole body, unless reading it fails. -/
def bodyOf : List (Except String (List UInt8)) → Option (List UInt8)
  | [] => some []
  | .error _ :: _ => none
  | .ok [] :: _ => some []
  | .ok (b :: bytes) :: rest => (bodyOf rest).map ((b :: bytes) ++ ·)

/-- Puts a content at a path. -/
def World.set (w : World) (path : String) (content : Option (List UInt8)) : World :=
  { w with disk := Function.update w.disk path content }

/-- What an operation does to the world, for a choice of outcome. -/
def perform {β : Type} : UpdateOp β → World → Choice → β × World
  | .clock, w, c => (c.stamp, w)
  | .get _, w, c =>
    match c.fault with
    | some e => (.error e, w)
    | none => (.ok c.response, { w with served := bodyOf c.response.body })
  | .create path, w, c =>
    match c.fault with
    | some e => (.error e, w)
    | none => (.ok (), { w with created := some path }.set path (some []))
  | .write path bytes, w, c =>
    match c.fault with
    | some e => (.error e, w.set path ((w.disk path).map (· ++ bytes.take c.written)))
    | none => (.ok (), w.set path ((w.disk path).map (· ++ bytes)))
  | .sha256File path, w, c =>
    match c.fault, w.disk path with
    | none, some bytes => (.ok (hexText (Fips180.sha256 bytes)), w)
    | none, none => (.error "not found", w)
    | some e, _ => (.error e, w)
  | .removeFile path, w, c =>
    match c.fault, w.disk path with
    | none, some _ => (.ok (), w.set path none)
    | none, none => (.error "not found", w)
    | some e, _ => (.error e, w)
  | .spawn path args, w, c =>
    match c.fault, w.disk path with
    | none, some bytes => (.ok c.pid, { w with started := w.started ++ [⟨path, args, bytes⟩] })
    | none, none => (.error "not found", w)
    | some e, _ => (.error e, w)
  | .now, w, c => (c.time, w)

/-- The other processes leave the file alone that the command has created. -/
structure Spared (w w' : World) : Prop where
  disk : ∀ path ∈ w.created, w'.disk path = w.disk path
  created : w'.created = w.created
  served : w'.served = w.served
  started : w'.started = w.started

instance : IsPreorder World Spared where
  refl _ := ⟨fun _ _ => rfl, rfl, rfl, rfl⟩
  trans _ _ _ h h' :=
    ⟨fun path hpath => (h'.disk path (h.created ▸ hpath)).trans (h.disk path hpath),
      h'.created.trans h.created, h'.served.trans h.served, h'.started.trans h.started⟩

variable {tempDir : String} {payload : Json}

/-! ### What is started -/

/-- The hash is the one that was asked for, if one was. -/
def Wanted (payload : Json) (bytes : List UInt8) : Prop :=
  ∀ want, expectedSha payload = some want →
    Plugin.eqIgnoreAsciiCase want (hexText (Fips180.sha256 bytes)) = true

/-- One installer more has been started: the whole body, with the right hash. -/
def StartedOne (tempDir : String) (payload : Json) (before : List Started) (bytes : List UInt8)
    (stamp : ℕ) (w : World) : Prop :=
  w.started = before ++ [⟨installerPath tempDir stamp, installerArgs, bytes⟩] ∧
    w.served = some bytes ∧ Wanted payload bytes

/-- What is true at any time. -/
def Safe (tempDir : String) (payload : Json) (before : List Started) (w : World) : Prop :=
  w.started = before ∨ ∃ bytes stamp, StartedOne tempDir payload before bytes stamp w

/-- The result says what has been done. -/
def Reported (tempDir : String) (payload : Json) (before : List Started) (r : ExecutionResult)
    (w : World) : Prop :=
  (r.status = "failed" ∧ w.started = before) ∨
    ∃ url bytes stamp executedAt pid, StartedOne tempDir payload before bytes stamp w ∧
      r = report payload executedAt url (installerPath tempDir stamp)
        (hexText (Fips180.sha256 bytes)) bytes.length pid

/-! ### Each operation -/

section

variable (w : World) (c : Choice) (path : String)

/-- What a call of the first five kinds comes to: an error, with no harm done, or the effect. -/
theorem perform_get (url : String) :
    (∃ e, perform (.get url) w c = (.error e, w)) ∨
      perform (.get url) w c
        = (.ok c.response, { w with served := bodyOf c.response.body }) := by
  rw [perform]
  cases c.fault with
  | some e => exact .inl ⟨e, rfl⟩
  | none => exact .inr rfl

theorem perform_create :
    (∃ e, perform (.create path) w c = (.error e, w)) ∨
      perform (.create path) w c
        = (.ok (), { w with created := some path }.set path (some [])) := by
  rw [perform]
  cases c.fault with
  | some e => exact .inl ⟨e, rfl⟩
  | none => exact .inr rfl

theorem perform_write {held : List UInt8} (bytes : List UInt8) (h : w.disk path = some held) :
    (∃ e content, perform (.write path bytes) w c = (.error e, w.set path content)) ∨
      perform (.write path bytes) w c = (.ok (), w.set path (some (held ++ bytes))) := by
  rw [perform, h]
  cases c.fault with
  | some e => exact .inl ⟨e, _, rfl⟩
  | none => exact .inr rfl

theorem perform_sha256File {bytes : List UInt8} (h : w.disk path = some bytes) :
    (∃ e, perform (.sha256File path) w c = (.error e, w)) ∨
      perform (.sha256File path) w c = (.ok (hexText (Fips180.sha256 bytes)), w) := by
  rw [perform, h]
  cases c.fault with
  | some e => exact .inl ⟨e, rfl⟩
  | none => exact .inr rfl

theorem perform_spawn {bytes : List UInt8} (h : w.disk path = some bytes) (args : List String) :
    (∃ e, perform (.spawn path args) w c = (.error e, w)) ∨
      perform (.spawn path args) w c
        = (.ok c.pid, { w with started := w.started ++ [⟨path, args, bytes⟩] }) := by
  rw [perform, h]
  cases c.fault with
  | some e => exact .inl ⟨e, rfl⟩
  | none => exact .inr rfl

theorem started_removeFile : (perform (.removeFile path) w c).2.started = w.started := by
  rw [perform]
  split <;> rfl

end

/-! ### The run -/

section

variable {before : List Started} {stamp : ℕ} {w : World}

/-- The promise, of a part of the program. -/
abbrev Meets (tempDir : String) (payload : Json) (before : List Started) {α : Type}
    (p : Prog UpdateOp α) (Q : α → World → Prop) (w : World) : Prop :=
  wp perform (fun _ _ _ => True) Spared (Safe tempDir payload before) p Q w

/-- A download is complete. -/
structure Downloaded (tempDir : String) (before : List Started) (stamp : ℕ) (bytes : List UInt8)
    (w : World) : Prop where
  started : w.started = before
  created : w.created = some (installerPath tempDir stamp)
  disk : w.disk (installerPath tempDir stamp) = some bytes
  served : w.served = some bytes

theorem Downloaded.spared {bytes : List UInt8} {w' : World}
    (h : Downloaded tempDir before stamp bytes w) (hr : Spared w w') :
    Downloaded tempDir before stamp bytes w' where
  started := hr.started.trans h.started
  created := hr.created.trans h.created
  disk := (hr.disk _ h.created).trans h.disk
  served := hr.served.trans h.served

/-- The rule for an operation while nothing has been started. -/
theorem meets_op {α β : Type} {o : UpdateOp β} {k : β → Prog UpdateOp α}
    {Q : α → World → Prop} (hw : w.started = before)
    (hk : ∀ v c, v.started = before →
      Meets tempDir payload before (k (perform o v c).1) Q (perform o v c).2) :
    Meets tempDir payload before (.op o k) Q w :=
  wp_op_of_stable (P := fun v => v.started = before) hw
    (fun _ _ hv hr => hr.started.trans hv) (fun _ hv => .inl hv) fun v c hv _ => hk v c hv

/-- And while a download is complete. -/
theorem meets_op_downloaded {α β : Type} {o : UpdateOp β} {k : β → Prog UpdateOp α}
    {Q : α → World → Prop} {bytes : List UInt8}
    (hw : Downloaded tempDir before stamp bytes w)
    (hk : ∀ v c, Downloaded tempDir before stamp bytes v →
      Meets tempDir payload before (k (perform o v c).1) Q (perform o v c).2) :
    Meets tempDir payload before (.op o k) Q w :=
  wp_op_of_stable hw (fun _ _ => Downloaded.spared) (fun _ hv => .inl hv.started)
    fun v c hv _ => hk v c hv

theorem meets_failure (fields : List (String × Json)) (hw : w.started = before) :
    Meets tempDir payload before (.pure (failure fields)) (Reported tempDir payload before) w :=
  fun _ hr => .inl ⟨rfl, hr.started.trans hw⟩

/-- What a download has come to. -/
def Got (tempDir : String) (before : List Started) (stamp : ℕ) (r : Except String ℕ) (w : World) :
    Prop :=
  match r with
  | .ok n => ∃ bytes, Downloaded tempDir before stamp bytes w ∧ bytes.length = n
  | .error _ => w.started = before

theorem meets_error (e : String) (hw : w.started = before) :
    Meets tempDir payload before (.pure (.error e)) (Got tempDir before stamp) w :=
  fun _ hr => hr.started.trans hw

/-- A part of the body has been written, and the rest is to come. -/
structure Copying (tempDir : String) (before : List Started) (stamp : ℕ)
    (rest : List (Except String (List UInt8))) (done : List UInt8) (w : World) : Prop where
  started : w.started = before
  created : w.created = some (installerPath tempDir stamp)
  disk : w.disk (installerPath tempDir stamp) = some done
  served : w.served = (bodyOf rest).map (done ++ ·)

theorem Copying.spared {rest : List (Except String (List UInt8))} {done : List UInt8} {w' : World}
    (h : Copying tempDir before stamp rest done w) (hr : Spared w w') :
    Copying tempDir before stamp rest done w' where
  started := hr.started.trans h.started
  created := hr.created.trans h.created
  disk := (hr.disk _ h.created).trans h.disk
  served := hr.served.trans h.served

/-- At the end of the body, the download is complete. -/
theorem Copying.complete {rest : List (Except String (List UInt8))} {done : List UInt8}
    (h : Copying tempDir before stamp rest done w) (hrest : bodyOf rest = some []) :
    Meets tempDir payload before (.pure (.ok done.length)) (Got tempDir before stamp) w := by
  intro w' hr
  refine ⟨done, ⟨hr.started.trans h.started, hr.created.trans h.created,
    (hr.disk _ h.created).trans h.disk, ?_⟩, rfl⟩
  rw [hr.served, h.served, hrest, Option.map_some, List.append_nil]

theorem meets_copyBody {rest : List (Except String (List UInt8))} {done : List UInt8}
    (h : Copying tempDir before stamp rest done w) :
    Meets tempDir payload before (copyBody (installerPath tempDir stamp) rest done.length)
      (Got tempDir before stamp) w := by
  induction rest generalizing done w with
  | nil => exact h.complete rfl
  | cons piece rest ih =>
    match piece with
    | .error e => exact meets_error e h.started
    | .ok [] => exact h.complete rfl
    | .ok (b :: bytes) =>
      refine wp_op_of_stable h (fun _ _ => Copying.spared) (fun _ hv => .inl hv.started) ?_
      intro v c hv _
      obtain ⟨e, content, hwrite⟩ | hwrite := perform_write v c _ (b :: bytes) hv.disk
      · rw [hwrite]
        exact meets_error e hv.started
      · rw [hwrite]
        have hnext : Copying tempDir before stamp rest (done ++ b :: bytes)
            (v.set (installerPath tempDir stamp) (some (done ++ b :: bytes))) := by
          refine ⟨hv.started, hv.created, Function.update_self _ _ _, hv.served.trans ?_⟩
          rw [bodyOf, Option.map_map]
          refine congrArg (Option.map · _) (funext fun more => ?_)
          exact (List.append_assoc done (b :: bytes) more).symm
        have hrest := ih hnext
        rw [List.length_append] at hrest
        exact hrest

theorem meets_downloadToFile (url : String) (hw : w.started = before) :
    Meets tempDir payload before (downloadToFile url (installerPath tempDir stamp))
      (Got tempDir before stamp) w := by
  rw [downloadToFile, call_bind]
  refine meets_op hw fun v c hv => ?_
  obtain ⟨e, hget⟩ | hget := perform_get v c url
  · rw [hget]
    exact meets_error e hv
  · rw [hget]
    dsimp only
    split_ifs
    · refine wp_op_of_stable (P := fun v => v.started = before ∧
        v.served = bodyOf c.response.body) ⟨hv, rfl⟩
        (fun _ _ h hr => ⟨hr.started.trans h.1, hr.served.trans h.2⟩) (fun _ h => .inl h.1) ?_
      rintro u c' ⟨hu, hserved⟩ -
      obtain ⟨e, hcreate⟩ | hcreate := perform_create u c' (installerPath tempDir stamp)
      · rw [hcreate]
        exact meets_error _ hu
      · rw [hcreate]
        refine @meets_copyBody _ _ _ _ _ _ [] ⟨hu, rfl, Function.update_self _ _ _, hserved.trans ?_⟩
        exact (Option.map_id_apply (x := bodyOf c.response.body)).symm
    · exact meets_error _ hv

theorem meets_launch {bytes : List UInt8} (url : String)
    (h : Downloaded tempDir before stamp bytes w) (hwanted : Wanted payload bytes) :
    Meets tempDir payload before
      (launch payload url (installerPath tempDir stamp) (hexText (Fips180.sha256 bytes))
        bytes.length)
      (Reported tempDir payload before) w := by
  refine meets_op_downloaded h fun v c hv => ?_
  obtain ⟨e, hspawn⟩ | hspawn := perform_spawn v c _ hv.disk installerArgs
  · rw [hspawn]
    exact meets_failure _ hv.started
  · rw [hspawn]
    -- from here on, one has been started
    refine wp_op_of_stable (P := StartedOne tempDir payload before bytes stamp) ?_ ?_ ?_ ?_
    · exact ⟨by rw [hv.started], hv.served, hwanted⟩
    · exact fun _ _ hu hr => ⟨hr.started.trans hu.1, hr.served.trans hu.2.1, hu.2.2⟩
    · exact fun _ hu => .inr ⟨bytes, stamp, hu⟩
    · intro u c' hu _ u' hr
      exact .inr ⟨url, bytes, stamp, c'.time, c.pid,
        ⟨hr.started.trans hu.1, hr.served.trans hu.2.1, hu.2.2⟩, rfl⟩

/-- A file that is not to be started is removed. -/
theorem meets_refusal (path : String) (fields : List (String × Json)) (hw : w.started = before) :
    Meets tempDir payload before
      (do let _ ← call (.removeFile path); return failure fields)
      (Reported tempDir payload before) w :=
  meets_op hw fun v c hv =>
    meets_failure fields ((started_removeFile v c path).trans hv)

theorem meets_install {bytes : List UInt8} (url : String)
    (h : Downloaded tempDir before stamp bytes w) :
    Meets tempDir payload before
      (install payload url (installerPath tempDir stamp) bytes.length)
      (Reported tempDir payload before) w := by
  rw [install, call_bind]
  refine meets_op_downloaded h fun v c hv => ?_
  obtain ⟨e, hsha⟩ | hsha := perform_sha256File v c _ hv.disk
  · rw [hsha]
    exact meets_refusal _ _ hv.started
  · rw [hsha]
    dsimp only
    split
    · next hnone => exact meets_launch url hv fun want hwant => by simp [hnone] at hwant
    · next want hwant =>
      split_ifs with heq
      · refine meets_launch url hv fun want' hwant' => ?_
        obtain rfl := Option.some.inj (hwant.symm.trans hwant')
        exact heq
      · exact meets_refusal _ _ hv.started

theorem meets_executeUpdateAgent (hw : w.started = before) :
    Meets tempDir payload before (executeUpdateAgent tempDir payload)
      (Reported tempDir payload before) w := by
  rw [executeUpdateAgent]
  split
  · exact meets_failure _ hw
  · next url _ =>
    rw [call_bind]
    refine meets_op hw fun v c hv => ?_
    rw [Meets, wp_bind]
    refine wp_mono ?_ (meets_downloadToFile url hv)
    intro r u hgot
    match r, hgot with
    | .error e, hgot => exact meets_failure _ hgot
    | .ok _, ⟨bytes, hdownloaded, rfl⟩ => exact meets_install url hdownloaded

end

/-- **Only a verified installer is started.** The agent may be cut off at any moment, and the other
    processes may do what they like as long as they leave its file alone. Then at most one process
    is started, from the whole body of the answer, and with the hash that was asked for. Success is
    reported if one is, with that hash, and with the number of its bytes; nothing else is. -/
theorem update_verified {w w' : World} {r : Option ExecutionResult}
    (h : Beside perform Spared (executeUpdateAgent tempDir payload) w r w') :
    Safe tempDir payload w.started w' ∧
      ∀ result, r = some result → Reported tempDir payload w.started result w' := by
  have hend := wp_beside (meets_executeUpdateAgent rfl) h
  cases r with
  | none => exact ⟨hend, by simp⟩
  | some result =>
    refine ⟨?_, fun _ hresult => Option.some.inj hresult ▸ hend⟩
    obtain ⟨-, hidle⟩ | ⟨-, bytes, stamp, -, -, hone, -⟩ := hend
    · exact .inl hidle
    · exact .inr ⟨bytes, stamp, hone⟩

/-! ### When nothing fails -/

section

variable {w : World} {c : Choice}

theorem World.set_set (w : World) (path : String) (a b : Option (List UInt8)) :
    (w.set path a).set path b = w.set path b := by
  rw [set, set, set, Function.update_idem]

theorem World.set_self {path : String} {content : Option (List UInt8)} (h : w.disk path = content) :
    w.set path content = w := by
  rw [set, ← h, Function.update_eq_self]

theorem complete_copyBody {path : String} {done more : List UInt8}
    {rest : List (Except String (List UInt8))} (hfault : c.fault = none)
    (hdisk : w.disk path = some done) (hrest : bodyOf rest = some more) (n : ℕ) :
    complete perform (copyBody path rest n) w c
      = (.ok (n + more.length), w.set path (some (done ++ more))) := by
  induction rest generalizing w done more n with
  | nil =>
    obtain rfl := Option.some.inj hrest
    rw [List.append_nil, World.set_self hdisk]
    rfl
  | cons piece rest ih =>
    match piece with
    | .error e => cases hrest
    | .ok [] =>
      obtain rfl := Option.some.inj hrest
      rw [List.append_nil, World.set_self hdisk]
      rfl
    | .ok (b :: bytes) =>
      obtain ⟨more', hmore, rfl⟩ := Option.map_eq_some_iff.mp hrest
      have hwrite : perform (.write path (b :: bytes)) w c
          = (.ok (), w.set path (some (done ++ b :: bytes))) := by
        rw [perform, hfault, hdisk]
        rfl
      rw [copyBody, call_bind, complete_op, hwrite]
      refine (ih (Function.update_self _ _ _) hmore _).trans ?_
      rw [World.set_set, List.append_assoc, Nat.add_assoc, List.length_append]

theorem complete_downloadToFile {path : String} {bytes : List UInt8} (url : String)
    (hfault : c.fault = none) (hstatus : c.response.status / 100 = 2)
    (hbody : bodyOf c.response.body = some bytes) :
    complete perform (downloadToFile url path) w c
      = (.ok bytes.length,
        { w with served := some bytes, created := some path }.set path (some bytes)) := by
  have hget : perform (.get url) w c = (.ok c.response, { w with served := some bytes }) := by
    rw [perform, hfault, ← hbody]
  rw [downloadToFile, call_bind, complete_op, hget]
  dsimp only
  rw [if_pos hstatus, call_bind, complete_op, perform, hfault]
  refine (complete_copyBody hfault (Function.update_self _ _ _) hbody 0).trans ?_
  rw [World.set_set, Nat.zero_add, List.nil_append]

/-- **If no call fails, the update is installed.** -/
theorem update_succeeds {url : String} {bytes : List UInt8} (hurl : downloadUrl payload = some url)
    (hfault : c.fault = none) (hstatus : c.response.status / 100 = 2)
    (hbody : bodyOf c.response.body = some bytes) (hwanted : Wanted payload bytes) :
    let path := installerPath tempDir c.stamp
    complete perform (executeUpdateAgent tempDir payload) w c =
      (report payload c.time url path (hexText (Fips180.sha256 bytes)) bytes.length c.pid,
        { ({ w with served := some bytes, created := some path }.set path (some bytes)) with
          started := w.started ++ [⟨path, installerArgs, bytes⟩] }) := by
  intro path
  have hlaunch (v : World) (hdisk : v.disk path = some bytes) :
      complete perform
          (launch payload url path (hexText (Fips180.sha256 bytes)) bytes.length) v c
        = (report payload c.time url path (hexText (Fips180.sha256 bytes)) bytes.length c.pid,
          { v with started := v.started ++ [⟨path, installerArgs, bytes⟩] }) := by
    rw [launch, call_bind, complete_op, perform, hfault, hdisk]
    rfl
  have hinstall (v : World) (hdisk : v.disk path = some bytes) :
      complete perform (install payload url path bytes.length) v c
        = (report payload c.time url path (hexText (Fips180.sha256 bytes)) bytes.length c.pid,
          { v with started := v.started ++ [⟨path, installerArgs, bytes⟩] }) := by
    rw [install, call_bind, complete_op, perform, hfault, hdisk]
    dsimp only
    split
    · exact hlaunch v hdisk
    · next want hwant => rw [if_pos (hwanted want hwant), hlaunch v hdisk]
  rw [executeUpdateAgent, hurl]
  dsimp only
  rw [call_bind, complete_op, perform, complete_bind,
    complete_downloadToFile url hfault hstatus hbody]
  exact hinstall _ (Function.update_self _ _ _)

end

/-! ### A run -/

/-- An update to a file of one byte. -/
def updatePayload : Json :=
  .object [("download_url", .string "https://edr.example/setup.exe"),
    ("sha256", .string (hexText (Fips180.sha256 [1])))]

/-- A server that answers with one byte. -/
def served : Choice where
  response := ⟨200, "OK", [.ok [1]]⟩

theorem updatePayload_wanted : Wanted updatePayload [1] := by
  intro want hwant
  obtain rfl := Option.some.inj hwant
  simp [Plugin.eqIgnoreAsciiCase]

theorem update_runs :
    let run := complete perform (executeUpdateAgent "C:\\Temp" updatePayload)
      { disk := fun _ => none } served
    run.2.started = [⟨installerPath "C:\\Temp" 0, installerArgs, [1]⟩] ∧
      Safe "C:\\Temp" updatePayload [] run.2 ∧
      ∀ result, some run.1 = some result →
        Reported "C:\\Temp" updatePayload [] result run.2 := by
  refine ⟨?_, update_verified (.of_complete _ _ _)⟩
  rw [update_succeeds rfl rfl rfl rfl updatePayload_wanted]
  rfl

end Update

end Control

end WazabiAgent
