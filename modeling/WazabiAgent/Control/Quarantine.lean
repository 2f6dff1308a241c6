import WazabiAgent.Config.Sections
import WazabiAgent.Control.Isolation
import WazabiAgent.Lib.FileTree
import WazabiAgent.Lib.WinPath
import WazabiAgent.Plugin.Handshake

/-!
# Quarantine

`execute_quarantine_file` (`control/executor.rs`) hashes a file, compares the hash with the one the
administrator may have given, and moves the file to the quarantine directory. A rename does that
within a volume. Where it fails, the file is copied, and then deleted.

Each call can fail. A failed rename or removal changes nothing; a failed copy may leave anything in
the place of the copy, or nothing. Nobody else uses the files meanwhile.

Which file a path names is for the file system to say, so `locate` is a parameter, and two paths may
name one file.

## Main definitions

* `executeQuarantineFile` — the program
* `Faults`, `perform` — which calls fail, and what they do
* `MoveOrNothing` — what a quarantine promises

## Main results

* `moveOrNothing_iff` — the promise is kept unless something is left of a move that failed, or the
  file is its own destination
-/

namespace WazabiAgent

namespace Control

namespace Quarantine

open Config Prog

/-- What the command asks of the file system. -/
inductive QuarantineOp : Type → Type
  | pathExists (path : String) : QuarantineOp Bool
  | isFile (path : String) : QuarantineOp Bool
  | sha256File (path : String) : QuarantineOp (Except String String)
  | createDirAll (path : String) : QuarantineOp (Except String Unit)
  | rename (src dst : String) : QuarantineOp (Except String Unit)
  | copy (src dst : String) : QuarantineOp (Except String Unit)
  | removeFile (path : String) : QuarantineOp (Except String Unit)
  | now : QuarantineOp String

/-! ### The program -/

/-- The file to move, unless it is blank. -/
def requestedPath (payload : Json) : Option String :=
  ((payload.get "path").bind Json.asStr).filter (· ≠ "")

/-- The digest that the file must have. -/
def expectedSha (payload : Json) : Option String := (payload.get "sha256").bind Json.asStr

/-- `quarantine_dir`. -/
def quarantineDir (programData : Option String) : String := join (dataDir programData) "quarantine"

/-- The first digits of the hash keep files of one name apart. -/
def dstName (path actualSha : String) : String :=
  String.ofList (actualSha.toList.take 16) ++ "__" ++ (WinPath.fileName path).getD "unknown" ++
    ".quarantined"

/-- Where the file is moved to. -/
def dstPath (programData : Option String) (path actualSha : String) : String :=
  join (quarantineDir programData) (dstName path actualSha)

/-- A failed command. -/
def failure (fields : List (String × Json)) : ExecutionResult := ⟨"failed", .object fields⟩

/-- The rename, and the copy in its stead. -/
def moveFile (src dst : String) : Prog QuarantineOp (Except String Unit) := do
  match ← call (.rename src dst) with
  | .ok _ => return .ok ()
  | .error e =>
    -- on another volume
    match ← call (.copy src dst) with
    | .error e2 => return .error ("move failed (rename: " ++ e ++ ", copy+rm: " ++ e2 ++ ")")
    | .ok _ =>
      match ← call (.removeFile src) with
      | .error e2 => return .error ("move failed (rename: " ++ e ++ ", copy+rm: " ++ e2 ++ ")")
      | .ok _ => return .ok ()

variable (programData : Option String)

/-- What comes after the checks. -/
def quarantine (payload : Json) (path actualSha : String) : Prog QuarantineOp ExecutionResult := do
  let dst := dstPath programData path actualSha
  match ← call (.createDirAll (quarantineDir programData)) with
  | .error e =>
    return failure [("error", .string ("create quarantine dir failed: " ++ e)),
      ("quarantine_dir", .string (quarantineDir programData))]
  | .ok _ =>
    match ← moveFile path dst with
    | .error e => return failure [("error", .string e), ("src", .string path), ("dst", .string dst)]
    | .ok _ =>
      let executedAt ← call .now
      return {
        status := "success"
        result := .object [("executed_at", .string executedAt),
          ("action", .string "quarantine_file"), ("src", .string path), ("dst", .string dst),
          ("sha256", .string actualSha),
          ("reason", (((payload.get "reason").bind Json.asStr).map .string).getD .null)] }

/-- The comparison of the hashes. -/
def checkHash (payload : Json) (path actualSha : String) : Prog QuarantineOp ExecutionResult :=
  match expectedSha payload with
  | none => quarantine programData payload path actualSha
  | some want =>
    if Plugin.eqIgnoreAsciiCase want actualSha then quarantine programData payload path actualSha
    else
      return failure [("error", .string "sha256 mismatch — refusing to quarantine"),
        ("path", .string path), ("expected", .string want), ("actual", .string actualSha)]

/-- The steps of the command: a copy and a removal where the rename fails. -/
def executeQuarantineFile (payload : Json) : Prog QuarantineOp ExecutionResult :=
  match requestedPath payload with
  | none =>
    return failure [("error", .string "missing or empty 'path' in payload"), ("got", payload)]
  | some path => do
    match ← call (.pathExists path) with
    | false =>
      return failure [("error", .string "source file does not exist"), ("path", .string path)]
    | true =>
      match ← call (.isFile path) with
      | false =>
        return failure [("error", .string "path is not a regular file"), ("path", .string path)]
      | true =>
        match ← call (.sha256File path) with
        | .error e =>
          return failure [("error", .string ("sha256 failed: " ++ e)), ("path", .string path)]
        | .ok actualSha => checkHash programData payload path actualSha

/-! ### Files -/

/-- A path as its components. -/
abbrev Location := List String

/-- The files of the machine. -/
abbrev Files := FileTree String (List UInt8)

/-- How paths name files, and what a digest is. -/
structure FileSystem where
  /-- The file that a path names. -/
  locate : String → Location
  /-- The digest in hex digits. -/
  sha256 : List UInt8 → String
  /-- The text of an error. -/
  refused : String

/-- What a failed copy leaves in the place of the copy. -/
inductive Leftover
  | asBefore
  | nothing
  | wrote (bytes : List UInt8)
  deriving DecidableEq

/-- What a failed copy leaves at its destination. -/
def Leftover.after : Leftover → Option (List UInt8) → Option (List UInt8)
  | .asBefore, held => held
  | .nothing, _ => none
  | .wrote bytes, _ => some bytes

/-- The calls that fail, though what is there does not stand in their way. -/
structure Faults where
  hash : Option String := none
  mkdir : Option String := none
  rename : Option String := none
  copy : Option (String × Leftover) := none
  remove : Option String := none
  time : String := ""

variable (fs : FileSystem)

/-- A call that changes nothing if it fails. -/
def attempt (t : Files) (fault : Option String) (done : Option Files) :
    Except String Unit × Files :=
  match fault, done with
  | none, some t' => (.ok (), t')
  | none, none => (.error fs.refused, t)
  | some e, _ => (.error e, t)

theorem attempt_cases (t : Files) (fault : Option String) (done : Option Files) :
    (∃ t', done = some t' ∧ attempt fs t fault done = (.ok (), t')) ∨
      ∃ e, attempt fs t fault done = (.error e, t) := by
  cases fault with
  | some e => exact .inr ⟨e, rfl⟩
  | none =>
    cases done with
    | none => exact .inr ⟨fs.refused, rfl⟩
    | some t' => exact .inl ⟨t', rfl, rfl⟩

/-- The place of a copy that failed. -/
def leave (t : Files) (dst : Location) : Leftover → Files
  | .asBefore => t
  | .nothing => t.set dst none
  | .wrote bytes => t.set dst (some (.file bytes))

/-- A copy. A file is not copied to itself, nor in the place of a directory. -/
def copyFile (t : Files) (fault : Option (String × Leftover)) (src dst : Location) :
    Except String Unit × Files :=
  match t.content src with
  | none => (.error fs.refused, t)
  | some bytes =>
    if src = dst ∨ t.isDir dst = true then (.error fs.refused, t)
    else
      match fault with
      | none => (.ok (), t.set dst (some (.file bytes)))
      | some (e, left) => (.error e, leave t dst left)

/-- What an operation does to the files, for the faults of the run. -/
def perform {β : Type} : QuarantineOp β → Files → Faults → β × Files
  | .pathExists path, t, _ => ((t (fs.locate path)).isSome, t)
  | .isFile path, t, _ => ((t.content (fs.locate path)).isSome, t)
  | .sha256File path, t, f =>
    match f.hash, t.content (fs.locate path) with
    | none, some bytes => (.ok (fs.sha256 bytes), t)
    | none, none => (.error fs.refused, t)
    | some e, _ => (.error e, t)
  | .createDirAll path, t, f => attempt fs t f.mkdir (t.createDirAll (fs.locate path))
  | .rename src dst, t, f => attempt fs t f.rename (t.rename (fs.locate src) (fs.locate dst))
  | .copy src dst, t, f => copyFile fs t f.copy (fs.locate src) (fs.locate dst)
  | .removeFile path, t, f => attempt fs t f.remove (t.removeFile (fs.locate path))
  | .now, t, f => (f.time, t)

/-! ### The promise -/

/-- The run of a request. -/
def outcome (t : Files) (payload : Json) (f : Faults) : ExecutionResult × Files :=
  complete (perform fs) (executeQuarantineFile programData payload) t f

/-- The files when the agent is cut off after so many calls. -/
def after (t : Files) (payload : Json) (f : Faults) (n : ℕ) : Files :=
  (exec (perform fs) (executeQuarantineFile programData payload) t (List.replicate n f)).2

/-- A request that fails leaves the source and the quarantine directory as they are. One that
succeeds leaves no source, and the bytes whose hash was checked, and is reported, at the
destination. At no time are the bytes in neither place. -/
structure MoveOrNothing (t : Files) (payload : Json) (f : Faults) : Prop where
  failed : ∀ path, requestedPath payload = some path →
    (outcome programData fs t payload f).1.status = "failed" →
      (outcome programData fs t payload f).2.content (fs.locate path)
        = t.content (fs.locate path) ∧
      ∀ name, (outcome programData fs t payload f).2.content
          (fs.locate (join (quarantineDir programData) name))
        = t.content (fs.locate (join (quarantineDir programData) name))
  success : ∀ path, requestedPath payload = some path →
    (outcome programData fs t payload f).1.status = "success" →
      (outcome programData fs t payload f).2 (fs.locate path) = none ∧
      ∃ bytes dst, t.content (fs.locate path) = some bytes ∧
        (∀ want, expectedSha payload = some want →
          Plugin.eqIgnoreAsciiCase want (fs.sha256 bytes) = true) ∧
        (outcome programData fs t payload f).1.result.get "sha256"
          = some (.string (fs.sha256 bytes)) ∧
        (outcome programData fs t payload f).1.result.get "dst" = some (.string dst) ∧
        (outcome programData fs t payload f).2.content (fs.locate dst) = some bytes
  somewhere : ∀ path bytes, requestedPath payload = some path →
    t.content (fs.locate path) = some bytes → ∀ n,
      (after programData fs t payload f n).content (fs.locate path) = some bytes ∨
        (after programData fs t payload f n).content
          (fs.locate (dstPath programData path (fs.sha256 bytes))) = some bytes

/-! ### The move -/

section

variable {fs} {t : Files} {src dst : String} {bytes : List UInt8} {f : Faults}

/-- The rename is possible. -/
def Renames (t : Files) (dst : Location) (f : Faults) : Prop := f.rename = none ∧ t.isDir dst = false

instance (t : Files) (dst : Location) (f : Faults) : Decidable (Renames t dst f) :=
  inferInstanceAs (Decidable (_ ∧ _))

/-- Nothing is left of a move that fails, and a file is not moved to its own place. -/
def Tidy (t : Files) (src dst : Location) (bytes : List UInt8) (f : Faults) : Prop :=
  if Renames t dst f then src ≠ dst
  else
    src = dst ∨ t.isDir dst = true ∨
      match f.copy with
      | none => f.remove = none ∨ t.content dst = some bytes
      | some (_, left) => left.after (t.content dst) = t.content dst

theorem complete_moveFile_of_renames (hsrc : t.content (fs.locate src) = some bytes)
    (h : Renames t (fs.locate dst) f) :
    complete (perform fs) (moveFile src dst) t f
      = (.ok (), (t.set (fs.locate src) none).set (fs.locate dst) (some (.file bytes))) := by
  have hrename := FileTree.rename_eq_some_iff.mpr ⟨bytes, hsrc, h.2, rfl⟩
  simp only [moveFile, call_bind, complete_op, perform, hrename, h.1, attempt]
  rfl

theorem perform_rename_of_not (h : ¬Renames t (fs.locate dst) f) :
    ∃ e, perform fs (.rename src dst) t f = (.error e, t) := by
  rw [perform]
  rcases attempt_cases fs t f.rename (t.rename (fs.locate src) (fs.locate dst)) with
    ⟨t', hdone, hok⟩ | hfailed
  · obtain ⟨-, -, hdir, -⟩ := FileTree.rename_eq_some_iff.mp hdone
    cases hf : f.rename with
    | none => exact absurd ⟨hf, hdir⟩ h
    | some e => exact ⟨e, rfl⟩
  · exact hfailed

/-- After a rename that fails, it is up to the copy and the removal. -/
theorem complete_moveFile_of_not_renames (hsrc : t.content (fs.locate src) = some bytes)
    (h : ¬Renames t (fs.locate dst) f) :
    ∃ e, complete (perform fs) (moveFile src dst) t f =
      if fs.locate src = fs.locate dst ∨ t.isDir (fs.locate dst) = true then (.error e, t)
      else
        match f.copy, f.remove with
        | some (_, left), _ => (.error e, leave t (fs.locate dst) left)
        | none, some _ => (.error e, t.set (fs.locate dst) (some (.file bytes)))
        | none, none =>
          (.ok (), (t.set (fs.locate dst) (some (.file bytes))).set (fs.locate src) none) := by
  obtain ⟨e, he⟩ := perform_rename_of_not h
  rw [moveFile, call_bind, complete_op, he]
  simp only [call_bind, complete_op, perform, copyFile, hsrc]
  split_ifs with hplace
  · exact ⟨_, rfl⟩
  · have hne : fs.locate src ≠ fs.locate dst := fun heq => hplace (.inl heq)
    have hkept : (t.set (fs.locate dst) (some (.file bytes))).content (fs.locate src)
        = some bytes := by rw [FileTree.content_set_of_ne _ _ hne, hsrc]
    have hremove : (t.set (fs.locate dst) (some (.file bytes))).removeFile (fs.locate src)
        = some ((t.set (fs.locate dst) (some (.file bytes))).set (fs.locate src) none) :=
      FileTree.removeFile_eq_some_iff.mpr ⟨by rw [hkept]; rfl, rfl⟩
    cases f.copy with
    | some fault => exact ⟨_, rfl⟩
    | none =>
      simp only [complete_op, perform, hremove]
      cases f.remove with
      | some e2 => exact ⟨_, rfl⟩
      | none => exact ⟨"", rfl⟩

theorem content_leave (t : Files) (dst l : Location) (left : Leftover) :
    (leave t dst left).content l
      = if l = dst then left.after (t.content dst) else t.content l := by
  split_ifs with hl
  · subst hl
    cases left with
    | asBefore => rfl
    | nothing => exact FileTree.content_set_none t l
    | wrote bytes => exact FileTree.content_set_file t l bytes
  · cases left with
    | asBefore => rfl
    | nothing => exact FileTree.content_set_of_ne t none hl
    | wrote bytes => exact FileTree.content_set_of_ne t _ hl

/-- What a move promises, of its result and the files it leaves. -/
def Moved (t : Files) (src dst : Location) (bytes : List UInt8)
    (out : Except String Unit × Files) : Prop :=
  match out.1 with
  | .ok _ => out.2 src = none ∧ out.2.content dst = some bytes
  | .error _ => out.2.content src = t.content src ∧ out.2.content dst = t.content dst

theorem moved_iff_tidy (hsrc : t.content (fs.locate src) = some bytes) :
    Moved t (fs.locate src) (fs.locate dst) bytes
        (complete (perform fs) (moveFile src dst) t f) ↔
      Tidy t (fs.locate src) (fs.locate dst) bytes f := by
  rw [Tidy]
  split_ifs with hrename
  · rw [complete_moveFile_of_renames hsrc hrename]
    constructor
    · rintro ⟨hgone, -⟩ heq
      dsimp only at hgone
      rw [heq, FileTree.set_self] at hgone
      cases hgone
    · intro hne
      refine ⟨?_, FileTree.content_set_file _ _ _⟩
      dsimp only
      rw [FileTree.set_of_ne _ _ hne, FileTree.set_self]
  · obtain ⟨e, he⟩ := complete_moveFile_of_not_renames hsrc hrename
    rw [he]
    by_cases hplace : fs.locate src = fs.locate dst ∨ t.isDir (fs.locate dst) = true
    · rw [if_pos hplace]
      exact iff_of_true ⟨rfl, rfl⟩ (hplace.imp_right .inl)
    · rw [if_neg hplace]
      obtain ⟨hne, hdir⟩ := not_or.mp hplace
      rw [or_iff_right hne, or_iff_right hdir]
      cases f.copy with
      | some fault =>
        dsimp only [Moved]
        rw [content_leave, content_leave, if_neg hne, if_pos rfl]
        exact and_iff_right rfl
      | none =>
        cases f.remove with
        | none =>
          refine iff_of_true ⟨FileTree.set_self _ _ _, ?_⟩ (.inl rfl)
          dsimp only
          rw [FileTree.content_set_of_ne _ _ (Ne.symm hne), FileTree.content_set_file]
        | some e2 =>
          dsimp only [Moved]
          rw [FileTree.content_set_of_ne _ _ hne, FileTree.content_set_file,
            or_iff_right (by simp)]
          exact (and_iff_right rfl).trans eq_comm

/-- Nothing else changes. -/
theorem frame_moveFile (hsrc : t.content (fs.locate src) = some bytes) {l : Location}
    (hs : l ≠ fs.locate src) (hd : l ≠ fs.locate dst) :
    (complete (perform fs) (moveFile src dst) t f).2.content l = t.content l := by
  by_cases hrename : Renames t (fs.locate dst) f
  · rw [complete_moveFile_of_renames hsrc hrename, FileTree.content_set_of_ne _ _ hd,
      FileTree.content_set_of_ne _ _ hs]
  · obtain ⟨e, he⟩ := complete_moveFile_of_not_renames hsrc hrename
    rw [he]
    split_ifs
    · rfl
    · cases f.copy with
      | some fault =>
        dsimp only
        rw [content_leave, if_neg hd]
      | none =>
        cases f.remove with
        | some e2 => exact FileTree.content_set_of_ne _ _ hd
        | none =>
          dsimp only
          rw [FileTree.content_set_of_ne _ _ hs, FileTree.content_set_of_ne _ _ hd]

end

/-! ### The request -/

section

variable {programData fs} {t t₁ : Files} {payload : Json} {f : Faults} {path : String}
  {bytes : List UInt8}

/-- The request gets as far as the move. -/
structure Request (programData : Option String) (fs : FileSystem) (t : Files) (payload : Json)
    (f : Faults) (path : String) (bytes : List UInt8) (t₁ : Files) : Prop where
  requested : requestedPath payload = some path
  content : t.content (fs.locate path) = some bytes
  hash : f.hash = none
  sha : ∀ want, expectedSha payload = some want →
    Plugin.eqIgnoreAsciiCase want (fs.sha256 bytes) = true
  mkdir : f.mkdir = none
  dir : t.createDirAll (fs.locate (quarantineDir programData)) = some t₁

/-- What is reported of a move. -/
def report (payload : Json) (path dst actualSha time : String) :
    Except String Unit → ExecutionResult
  | .error e => failure [("error", .string e), ("src", .string path), ("dst", .string dst)]
  | .ok _ => {
      status := "success"
      result := .object [("executed_at", .string time), ("action", .string "quarantine_file"),
        ("src", .string path), ("dst", .string dst), ("sha256", .string actualSha),
        ("reason", (((payload.get "reason").bind Json.asStr).map .string).getD .null)] }

theorem checkHash_of_matches {actualSha : String} (h : ∀ want, expectedSha payload = some want →
    Plugin.eqIgnoreAsciiCase want actualSha = true) :
    checkHash programData payload path actualSha
      = quarantine programData payload path actualSha := by
  rw [checkHash]
  cases hwant : expectedSha payload with
  | none => rfl
  | some want => exact if_pos (h want hwant)

theorem outcome_of_request (h : Request programData fs t payload f path bytes t₁) :
    outcome programData fs t payload f =
      let dst := dstPath programData path (fs.sha256 bytes)
      let move := complete (perform fs) (moveFile path dst) t₁ f
      (report payload path dst (fs.sha256 bytes) f.time move.1, move.2) := by
  have hfile := FileTree.content_eq_some_iff.mp h.content
  simp only [outcome, executeQuarantineFile, h.requested, call_bind, complete_op, perform, hfile,
    h.content, h.hash, Option.isSome_some]
  rw [checkHash_of_matches h.sha, quarantine]
  simp only [call_bind, complete_op, perform, h.mkdir, h.dir, attempt]
  rw [complete_bind]
  cases (complete (perform fs) (moveFile path (dstPath programData path (fs.sha256 bytes))) t₁ f).1
    with
  | error e => rfl
  | ok u => rfl

/-- A request that does not get there fails, and changes no file. -/
theorem outcome_of_no_request
    (h : ∀ path bytes t₁, ¬Request programData fs t payload f path bytes t₁) :
    (outcome programData fs t payload f).1.status = "failed" ∧
      ∀ l, (outcome programData fs t payload f).2.content l = t.content l := by
  rw [outcome, executeQuarantineFile]
  cases hpath : requestedPath payload with
  | none => exact ⟨rfl, fun l => rfl⟩
  | some path =>
    simp only [call_bind, complete_op, perform]
    cases t (fs.locate path) with
    | none => exact ⟨rfl, fun l => rfl⟩
    | some node =>
      simp only [Option.isSome_some, complete_op, perform]
      cases hcontent : t.content (fs.locate path) with
      | none => exact ⟨rfl, fun l => rfl⟩
      | some bytes =>
        simp only [Option.isSome_some, complete_op, perform, hcontent]
        cases hhash : f.hash with
        | some e => exact ⟨rfl, fun l => rfl⟩
        | none =>
          by_cases hsha : ∀ want, expectedSha payload = some want →
              Plugin.eqIgnoreAsciiCase want (fs.sha256 bytes) = true
          · simp only [checkHash_of_matches hsha, quarantine, call_bind, complete_op, perform]
            cases hmkdir : f.mkdir with
            | some e => exact ⟨rfl, fun l => rfl⟩
            | none =>
              cases hdir : t.createDirAll (fs.locate (quarantineDir programData)) with
              | none => exact ⟨rfl, fun l => rfl⟩
              | some t₁ =>
                exact absurd ⟨hpath, hcontent, hhash, hsha, hmkdir, hdir⟩ (h path bytes t₁)
          · obtain ⟨want, hwant⟩ := not_forall.mp hsha
            obtain ⟨hwant, hne⟩ := Classical.not_imp.mp hwant
            simp only [checkHash, hwant, if_neg hne]
            exact ⟨rfl, fun l => rfl⟩

section

variable (h : Request programData fs t payload f path bytes t₁)

include h

theorem content_of_request (l : Location) : t₁.content l = t.content l :=
  FileTree.content_createDirAll h.dir l

/-- The move that a request comes to. -/
theorem outcome_error {e : String} {t' : Files}
    (hmove : complete (perform fs) (moveFile path (dstPath programData path (fs.sha256 bytes))) t₁ f
      = (.error e, t')) :
    (outcome programData fs t payload f).1.status = "failed" ∧
      (outcome programData fs t payload f).2 = t' := by
  rw [outcome_of_request h]
  dsimp only
  rw [hmove]
  exact ⟨rfl, rfl⟩

theorem outcome_ok {u : Unit} {t' : Files}
    (hmove : complete (perform fs) (moveFile path (dstPath programData path (fs.sha256 bytes))) t₁ f
      = (.ok u, t')) :
    (outcome programData fs t payload f).1.status = "success" ∧
      (outcome programData fs t payload f).1.result.get "sha256"
        = some (.string (fs.sha256 bytes)) ∧
      (outcome programData fs t payload f).1.result.get "dst"
        = some (.string (dstPath programData path (fs.sha256 bytes))) ∧
      (outcome programData fs t payload f).2 = t' := by
  rw [outcome_of_request h]
  dsimp only
  rw [hmove]
  refine ⟨rfl, ?_, ?_, rfl⟩
  all_goals simp [report, Json.get]

end

/-- A request that gets as far as the move, or a run without consequences. -/
theorem request_or_unchanged (hpath : requestedPath payload = some path) :
    (∃ bytes t₁ result t', Request programData fs t payload f path bytes t₁ ∧
      complete (perform fs) (moveFile path (dstPath programData path (fs.sha256 bytes))) t₁ f
        = (result, t')) ∨
    ((outcome programData fs t payload f).1.status = "failed" ∧
      ∀ l, (outcome programData fs t payload f).2.content l = t.content l) := by
  by_cases hrequest : ∃ path bytes t₁, Request programData fs t payload f path bytes t₁
  · obtain ⟨path', bytes, t₁, h⟩ := hrequest
    obtain rfl : path' = path := Option.some.inj (h.requested.symm.trans hpath)
    exact .inl ⟨bytes, t₁, _, _, h, rfl⟩
  · exact .inr (outcome_of_no_request fun path bytes t₁ h => hrequest ⟨path, bytes, t₁, h⟩)

/-- The bytes are at one of the two places. -/
def Somewhere (src dst : Location) (bytes : List UInt8) (t : Files) : Prop :=
  t.content src = some bytes ∨ t.content dst = some bytes

/-- The calls are those that the faults leave. -/
abbrev Choosing (f : Faults) {β : Type} (_ : QuarantineOp β) (_ : Files) (c : Faults) : Prop := c = f

theorem somewhere_moveFile {dst : String} (hsrc : t.content (fs.locate path) = some bytes) :
    wp (perform fs) (Choosing f) Eq (Somewhere (fs.locate path) (fs.locate dst) bytes)
      (moveFile path dst) (fun _ => Somewhere (fs.locate path) (fs.locate dst) bytes) t := by
  rw [moveFile, call_bind, wp_alone_op]
  refine ⟨.inl hsrc, ?_⟩
  rintro c rfl
  by_cases hrename : Renames t (fs.locate dst) c
  · have hdone := FileTree.rename_eq_some_iff.mpr ⟨bytes, hsrc, hrename.2, rfl⟩
    simp only [perform, hdone, hrename.1, attempt]
    exact (wp_alone_pure _ _ _).mpr (.inr (FileTree.content_set_file _ _ _))
  · obtain ⟨e, he⟩ := perform_rename_of_not hrename
    rw [he]
    dsimp only
    rw [call_bind, wp_alone_op]
    refine ⟨.inl hsrc, ?_⟩
    rintro c rfl
    rw [perform, copyFile, hsrc]
    dsimp only
    split_ifs with hplace
    · exact (wp_alone_pure _ _ _).mpr (.inl hsrc)
    · have hne : fs.locate path ≠ fs.locate dst := fun heq => hplace (.inl heq)
      cases c.copy with
      | some fault =>
        refine (wp_alone_pure _ _ _).mpr (.inl ?_)
        rw [content_leave, if_neg hne, hsrc]
      | none =>
        have hcopied : (t.set (fs.locate dst) (some (.file bytes))).content (fs.locate dst)
            = some bytes := FileTree.content_set_file _ _ _
        dsimp only
        rw [call_bind, wp_alone_op]
        refine ⟨.inr hcopied, ?_⟩
        rintro c rfl
        rw [perform]
        rcases attempt_cases fs _ c.remove (FileTree.removeFile _ (fs.locate path)) with
          ⟨t', hremove, hdone⟩ | ⟨e', hfailed⟩
        · obtain ⟨-, rfl⟩ := FileTree.removeFile_eq_some_iff.mp hremove
          rw [hdone]
          refine (wp_alone_pure _ _ _).mpr (.inr ?_)
          rw [FileTree.content_set_of_ne _ _ (Ne.symm hne), hcopied]
        · rw [hfailed]
          exact (wp_alone_pure _ _ _).mpr (.inr hcopied)

theorem somewhere_quarantine {actualSha : String}
    (hsrc : t.content (fs.locate path) = some bytes) :
    wp (perform fs) (Choosing f) Eq
      (Somewhere (fs.locate path) (fs.locate (dstPath programData path actualSha)) bytes)
      (quarantine programData payload path actualSha)
      (fun _ => Somewhere (fs.locate path) (fs.locate (dstPath programData path actualSha)) bytes)
      t := by
  rw [quarantine, call_bind, wp_alone_op]
  refine ⟨.inl hsrc, ?_⟩
  rintro c rfl
  rw [perform]
  rcases attempt_cases fs t c.mkdir (t.createDirAll (fs.locate (quarantineDir programData))) with
    ⟨t₁, hdir, hdone⟩ | ⟨e, hfailed⟩
  · rw [hdone]
    have hsrc₁ : t₁.content (fs.locate path) = some bytes := by
      rw [FileTree.content_createDirAll hdir, hsrc]
    have : IsPreorder Files Eq := {}
    refine wp_bind.mpr (wp_mono (fun moved v hv => ?_) (somewhere_moveFile hsrc₁))
    cases moved with
    | error e => exact (wp_alone_pure _ _ _).mpr hv
    | ok u =>
      refine (wp_alone_op _ _ _ _).mpr ⟨hv, ?_⟩
      rintro c rfl
      exact (wp_alone_pure _ _ _).mpr hv
  · rw [hfailed]
    exact (wp_alone_pure _ _ _).mpr (.inl hsrc)

theorem somewhere_execute (hpath : requestedPath payload = some path)
    (hsrc : t.content (fs.locate path) = some bytes) :
    wp (perform fs) (Choosing f) Eq
      (Somewhere (fs.locate path) (fs.locate (dstPath programData path (fs.sha256 bytes))) bytes)
      (executeQuarantineFile programData payload)
      (fun _ => Somewhere (fs.locate path)
        (fs.locate (dstPath programData path (fs.sha256 bytes))) bytes) t := by
  have hfile := FileTree.content_eq_some_iff.mp hsrc
  simp only [executeQuarantineFile, hpath, call_bind]
  refine (wp_alone_op _ _ _ _).mpr ⟨.inl hsrc, ?_⟩
  rintro c rfl
  simp only [perform, hfile, Option.isSome_some]
  refine (wp_alone_op _ _ _ _).mpr ⟨.inl hsrc, ?_⟩
  rintro c rfl
  simp only [perform, hsrc, Option.isSome_some]
  refine (wp_alone_op _ _ _ _).mpr ⟨.inl hsrc, ?_⟩
  rintro c rfl
  cases hhash : c.hash with
  | some e =>
    simp only [perform, hhash]
    exact (wp_alone_pure _ _ _).mpr (.inl hsrc)
  | none =>
    simp only [perform, hhash, hsrc, checkHash]
    cases expectedSha payload with
    | none => exact somewhere_quarantine hsrc
    | some want =>
      dsimp only
      split_ifs
      · exact somewhere_quarantine hsrc
      · exact (wp_alone_pure _ _ _).mpr (.inl hsrc)

/-- Every call of a run is left to the same faults. -/
theorem allowed_replicate (p : Prog QuarantineOp ExecutionResult) (n : ℕ) :
    Allowed (perform fs) (Choosing f) p t (List.replicate n f) := by
  induction p generalizing t n with
  | pure a => trivial
  | op o k ih =>
    cases n with
    | zero => trivial
    | succ n => exact ⟨rfl, ih _ n⟩

/-- The bytes are never lost. -/
theorem somewhere_after (hpath : requestedPath payload = some path)
    (hsrc : t.content (fs.locate path) = some bytes) (n : ℕ) :
    Somewhere (fs.locate path) (fs.locate (dstPath programData path (fs.sha256 bytes))) bytes
      (after programData fs t payload f n) := by
  obtain ⟨hdone, hcut⟩ := wp_sound (@somewhere_execute programData _ _ _ f _ _ hpath hsrc)
    (allowed_replicate _ n)
  cases hr : (exec (perform fs) (executeQuarantineFile programData payload) t
      (List.replicate n f)).1 with
  | none => exact hcut hr
  | some r => exact hdone r hr

end

/-- **A quarantine is a move or nothing**, unless a rename fails and then either something is left
of a copy that fails, or the file cannot be deleted after the copy, or unless the file is its own
destination. What is left does no harm where the destination held the same before. -/
theorem moveOrNothing_iff {programData : Option String} {fs : FileSystem} {t : Files}
    {payload : Json} {f : Faults} :
    MoveOrNothing programData fs t payload f ↔
      ∀ path bytes t₁, Request programData fs t payload f path bytes t₁ →
        Tidy t₁ (fs.locate path) (fs.locate (dstPath programData path (fs.sha256 bytes))) bytes
          f := by
  constructor
  · intro hkeeps path bytes t₁ h
    have hsrc : t₁.content (fs.locate path) = some bytes := by rw [content_of_request h, h.content]
    rw [← moved_iff_tidy hsrc]
    cases hmove : complete (perform fs)
        (moveFile path (dstPath programData path (fs.sha256 bytes))) t₁ f with
    | mk result t' =>
      cases result with
      | error e =>
        obtain ⟨hstatus, hfiles⟩ := outcome_error h hmove
        obtain ⟨hs, hdir⟩ := hkeeps.failed path h.requested hstatus
        rw [hfiles] at hs hdir
        constructor
        · rw [hs, content_of_request h]
        · rw [content_of_request h]
          exact hdir (dstName path (fs.sha256 bytes))
      | ok u =>
        obtain ⟨hstatus, -, hdst, hfiles⟩ := outcome_ok h hmove
        obtain ⟨hgone, bytes', dst, hbytes, -, -, hdst', hcopy⟩ :=
          hkeeps.success path h.requested hstatus
        rw [hfiles] at hgone hcopy
        rw [h.content] at hbytes
        rw [hdst] at hdst'
        obtain rfl := Option.some.inj hbytes
        obtain rfl := Json.string.inj (Option.some.inj hdst')
        exact ⟨hgone, hcopy⟩
  · intro htidy
    have hmoved {path : String} {bytes : List UInt8} {t₁ : Files}
        (h : Request programData fs t payload f path bytes t₁) :
        Moved t₁ (fs.locate path) (fs.locate (dstPath programData path (fs.sha256 bytes))) bytes
          (complete (perform fs)
            (moveFile path (dstPath programData path (fs.sha256 bytes))) t₁ f) :=
      (moved_iff_tidy (by rw [content_of_request h, h.content])).mpr (htidy path bytes t₁ h)
    constructor
    · intro path hpath hstatus
      rcases request_or_unchanged hpath with ⟨bytes, t₁, result, t', h, hmove⟩ | ⟨-, hfiles⟩
      · cases result with
        | ok u =>
          rw [(outcome_ok h hmove).1] at hstatus
          exact absurd hstatus (by decide)
        | error e =>
          have hkept := hmoved h
          rw [hmove] at hkept
          obtain ⟨hs, hd⟩ := hkept
          rw [(outcome_error h hmove).2]
          refine ⟨by rw [hs, content_of_request h], fun name => ?_⟩
          rw [← content_of_request h]
          by_cases hls : fs.locate (join (quarantineDir programData) name) = fs.locate path
          · rw [hls, hs]
          · by_cases hld : fs.locate (join (quarantineDir programData) name)
                = fs.locate (dstPath programData path (fs.sha256 bytes))
            · rw [hld, hd]
            · have hsrc : t₁.content (fs.locate path) = some bytes := by
                rw [content_of_request h, h.content]
              have hframe := @frame_moveFile fs t₁ _ _ bytes f hsrc _ hls hld
              rwa [hmove] at hframe
      · exact ⟨hfiles _, fun name => hfiles _⟩
    · intro path hpath hstatus
      rcases request_or_unchanged hpath with ⟨bytes, t₁, result, t', h, hmove⟩ | ⟨hfailed, -⟩
      · cases result with
        | error e =>
          rw [(outcome_error h hmove).1] at hstatus
          exact absurd hstatus (by decide)
        | ok u =>
          have hthere := hmoved h
          rw [hmove] at hthere
          obtain ⟨hgone, hcopy⟩ := hthere
          obtain ⟨-, hsha, hdst, hfiles⟩ := outcome_ok h hmove
          rw [hfiles]
          exact ⟨hgone, bytes, _, h.content, h.sha, hsha, hdst, hcopy⟩
      · rw [hfailed] at hstatus
        exact absurd hstatus (by decide)
    · intro path bytes hpath hsrc n
      exact somewhere_after hpath hsrc n

/-! ### A copy that stays -/

/-- A path is looked up name by name. -/
def plainFs : FileSystem where
  locate := fun path => (WinPath.components path.toList).map String.ofList
  sha256 := fun _ => "9f86d081884c7d659a2feaa0c55ad015a3bf4f1b2b0b822cd15d6c15b0f00a08"
  refused := "refused"

/-- A program on another volume. -/
def toolOnly : Files := fun l => if l = ["tool.exe"] then some (.file [0x4D, 0x5A]) else none

/-- A payload that names a file. -/
def quarantineTool : Json := .object [("path", .string "D:\\tool.exe")]

/-- It runs, and cannot be deleted. -/
def running : Faults where
  rename := some "The system cannot move the file to a different disk drive."
  remove := some "Access is denied."

/-- The request fails, and leaves a second copy of the program. -/
theorem running_copied :
    (outcome none plainFs toolOnly quarantineTool running).1.status = "failed" ∧
      toolOnly.content (plainFs.locate (dstPath none "D:\\tool.exe" (plainFs.sha256 []))) = none ∧
      (outcome none plainFs toolOnly quarantineTool running).2.content
        (plainFs.locate (dstPath none "D:\\tool.exe" (plainFs.sha256 []))) = some [0x4D, 0x5A] ∧
      ¬MoveOrNothing none plainFs toolOnly quarantineTool running := by
  have hfailed : (outcome none plainFs toolOnly quarantineTool running).1.status = "failed" := by
    decide +kernel
  have hbefore : toolOnly.content
      (plainFs.locate (dstPath none "D:\\tool.exe" (plainFs.sha256 []))) = none := by
    decide +kernel
  have hafter : (outcome none plainFs toolOnly quarantineTool running).2.content
      (plainFs.locate (dstPath none "D:\\tool.exe" (plainFs.sha256 [])))
        = some [0x4D, 0x5A] := by
    decide +kernel
  refine ⟨hfailed, hbefore, hafter, fun h => ?_⟩
  have hdir := (h.failed "D:\\tool.exe" (by decide) hfailed).2
    (dstName "D:\\tool.exe" (plainFs.sha256 []))
  rw [dstPath] at hbefore hafter
  rw [hafter, hbefore] at hdir
  cases hdir

end Quarantine

end Control

end WazabiAgent
