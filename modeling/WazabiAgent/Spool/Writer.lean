import Mathlib.Data.List.Sort
import Mathlib.Logic.Function.Basic
import WazabiAgent.Lib.Program
import WazabiAgent.Lib.Transition
import WazabiAgent.Spool.File

/-!
# The spool writer

`spool/writer.rs`: a bounded channel with its producers, the thread that empties it into the
active file, rotation, sealing and eviction.

## Layers

The thread is a program over `SpoolOp`, one operation for each call that touches the disk, the
channel, a clock or a counter. Its handler `perform` says what an operation does to the
`SpoolState`, given a `Choice` of the environment: whether it succeeds and what it finds or leaves
behind. The
`System` interleaves the operations of the thread with the producers, the shipper and the clock.

## The record of the run

Five fields of `SpoolState` are not in the code and influence nothing: `accepted`, `refused`,
`dropped` and `batches` remember what happened to every line, and `current` where the file is
whose lines the thread still means to seal. They are what the results speak about.

Errors are only printed, so an operation that fails answers `false` or `none`. The compression
level is not modelled.
-/

namespace WazabiAgent

namespace Spool

/-! ### Configuration and counters -/

/-- `SpoolConfig`, without the compression level. The directory is the one of the `SpoolState`. -/
structure SpoolConfig where
  maxBytesPerFile : ℕ
  /-- In milliseconds. -/
  maxAge : ℕ
  maxTotalBytes : ℕ
  channelCapacity : ℕ
  deriving DecidableEq, Repr

/-- `MIN_RECV_TIMEOUT`, in milliseconds. -/
def minRecvTimeout : ℕ := 100

/-- `SpoolStats`. -/
structure SpoolStats where
  eventsWritten : ℕ
  eventsDropped : ℕ
  batchesSealed : ℕ
  batchesEvicted : ℕ
  deriving DecidableEq, Repr

/-- `ActiveFile`. The buffered handle is the file itself. -/
structure ActiveFile where
  bytesWritten : ℕ
  deriving DecidableEq, Repr

/-! ### The shared state -/

/-- What has become of a sealed batch. -/
inductive Fate
  | present
  /-- Deleted by the shipper. -/
  | acknowledged
  /-- Deleted by the size cap, and about to be counted. -/
  | evicting
  | evicted
  deriving DecidableEq, Repr

/-- A batch that was sealed in this run. -/
structure Batch where
  name : String
  chunks : List Chunk
  fate : Fate
  deriving DecidableEq, Repr

/-- Directory, counters, channel and clock, with the record of the run. -/
structure SpoolState where
  dir : Dir
  stats : SpoolStats
  /-- The lines in the channel, the oldest first. -/
  queue : List NdjsonLine
  /-- The receiver has not been dropped. -/
  receiver : Bool
  /-- The sender of the `SpoolHandle` has not been dropped. -/
  handle : Bool
  /-- The number of live `SpoolSubmitter`s. -/
  submitters : ℕ
  /-- The monotonic clock, in milliseconds. -/
  clock : ℕ
  /-- When the `recv_timeout` in progress gives up. -/
  deadline : Option ℕ
  /-- The line the thread has received and not yet dealt with. -/
  hand : Option NdjsonLine
  /-- The encoder: the file it writes and what it has been given. -/
  encoding : Option (String × List Chunk)
  current : Option String
  accepted : List NdjsonLine
  refused : ℕ
  /-- The accepted lines that were counted under `events_dropped`. -/
  dropped : List NdjsonLine
  /-- The batches sealed in this run, in this order. -/
  batches : List Batch

/-- The result of `recv_timeout`. -/
inductive Received
  | line (l : NdjsonLine)
  | timeout
  | disconnected
  deriving DecidableEq, Repr

/-- The operations of the thread. -/
inductive SpoolOp : Type → Type
  | createDirAll : SpoolOp Bool
  /-- `ActiveFile::create(active_path)`. -/
  | createActive : SpoolOp Bool
  | remove (name : String) : SpoolOp Bool
  | writeLine (l : NdjsonLine) : SpoolOp Bool
  /-- `finish`: flush the active file. -/
  | flush : SpoolOp Bool
  /-- Seconds since 1970, and 0 before that. -/
  | unixTime : SpoolOp ℕ
  /-- `batches_sealed.fetch_add(1)`. -/
  | nextSeq : SpoolOp ℕ
  /-- Rename the active file. -/
  | rename (dst : String) : SpoolOp Bool
  | openFile (name : String) : SpoolOp Bool
  | createFile (name : String) : SpoolOp Bool
  | newEncoder : SpoolOp Bool
  /-- `io::copy` from a file into the encoder. -/
  | copy (src dst : String) : SpoolOp Bool
  | finishEncoder (dst : String) : SpoolOp Bool
  /-- `fs::read_dir`, with the sizes of the entries. -/
  | readDir : SpoolOp (Option (List (String × ℕ)))
  | countWritten : SpoolOp Unit
  | countDropped : SpoolOp Unit
  | countEvicted : SpoolOp Unit
  /-- `Instant::now()`. -/
  | now : SpoolOp ℕ
  /-- The start of `recv_timeout`. -/
  | beginRecv (timeout : ℕ) : SpoolOp Unit
  /-- Its end. -/
  | recv : SpoolOp Received

/-- What the environment decides in one operation. -/
structure Choice where
  ok : Bool := true
  /-- How much a failed write leaves behind, or the size of a compressed file. -/
  size : ℕ := 0
  /-- The reading of the wall clock. -/
  unix : ℕ := 0
  /-- The directory entries that are read, in this order. -/
  listing : List String := []
  /-- The entries whose metadata cannot be read. -/
  noMetadata : List String := []
  deriving DecidableEq, Repr

/-! ### What the operations do -/

/-- Append to an NDJSON file. -/
def Dir.append (d : Dir) (name : String) (c : Chunk) : Dir :=
  match d name with
  | some (.ndjson cs) => Function.update d name (some (.ndjson (cs ++ [c])))
  | _ => d

theorem Dir.append_of_some {d : Dir} {name : String} {cs : List Chunk} {c : Chunk}
    (h : d name = some (.ndjson cs)) :
    d.append name c = Function.update d name (some (.ndjson (cs ++ [c]))) := by
  rw [Dir.append, h]

/-- Write to a compressed file through its handle, which goes nowhere once the file is gone. -/
def Dir.overwrite (d : Dir) (name : String) (f : File) : Dir :=
  if (d name).isSome then Function.update d name (some f) else d

/-- What a directory listing finds. -/
def Dir.list (d : Dir) (c : Choice) : List (String × ℕ) :=
  c.listing.dedup.filterMap fun n =>
    (d n).map fun f => (n, if n ∈ c.noMetadata then 0 else f.size)

/-- A batch that was present goes, for the reason `fate`. -/
def Batch.lose (name : String) (fate : Fate) (b : Batch) : Batch :=
  if b.name = name ∧ b.fate = .present then { b with fate := fate } else b

/-- The eviction of a batch is counted. -/
def Batch.count (b : Batch) : Batch :=
  if b.fate = .evicting then { b with fate := .evicted } else b

/-- Delete a file, recording the fate of the batch it may be. -/
def SpoolState.delete (w : SpoolState) (name : String) (fate : Fate) : SpoolState :=
  { w with
    dir := Function.update w.dir name none
    batches := w.batches.map (.lose name fate) }

/-- No sender is left. -/
def SpoolState.disconnected (w : SpoolState) : Bool := !w.handle && w.submitters == 0

/-- The handler of the operations. -/
def perform {β : Type} (o : SpoolOp β) (w : SpoolState) (c : Choice) : β × SpoolState :=
  match o with
  | .createDirAll => (c.ok, w)
  | .createActive =>
    if c.ok then (true, { w with
      dir := Function.update w.dir activeFileName (some (.ndjson []))
      current := some activeFileName })
    else (false, { w with current := none })
  | .remove name =>
    if c.ok && (w.dir name).isSome then (true, w.delete name .evicting) else (false, w)
  | .writeLine l =>
    if c.ok then (true, { w with dir := w.dir.append activeFileName (.whole l), hand := none })
    else (false, { w with
      dir := w.dir.append activeFileName (.torn (l.bytes.dropLast.take c.size)) })
  | .flush => (c.ok, w)
  | .unixTime => (c.unix, w)
  | .nextSeq => (w.stats.batchesSealed,
      { w with stats := { w.stats with batchesSealed := w.stats.batchesSealed + 1 } })
  | .rename dst =>
    match w.dir activeFileName with
    | some f =>
      if c.ok then (true, { w with
        dir := Function.update (Function.update w.dir activeFileName none) dst (some f)
        current := some dst })
      else (false, w)
    | none => (false, w)
  | .openFile name => (c.ok && (w.dir name).isSome, w)
  | .createFile name =>
    if c.ok then (true, { w with
      dir := Function.update w.dir name (some (.zst [] .empty 0))
      encoding := some (name, []) })
    else (false, w)
  | .newEncoder => (c.ok, w)
  | .copy src dst =>
    match w.dir src with
    | some (.ndjson cs) =>
      (c.ok, { w with
        dir := w.dir.overwrite dst (.zst cs (if c.size = 0 then .empty else .cut) c.size)
        encoding := some (dst, cs) })
    | _ => (false, w)
  | .finishEncoder dst =>
    match w.encoding with
    | some (_, cs) =>
      if c.ok then (true, { w with
        dir := w.dir.overwrite dst (.zst cs .whole c.size)
        encoding := none
        current := none
        batches := w.batches ++ [⟨dst, cs, .present⟩] })
      else (false, w)
    | none => (false, w)
  | .readDir => (if c.ok then some (w.dir.list c) else none, w)
  | .countWritten =>
    ((), { w with stats := { w.stats with eventsWritten := w.stats.eventsWritten + 1 } })
  | .countDropped => ((), { w with
      stats := { w.stats with eventsDropped := w.stats.eventsDropped + 1 }
      dropped := w.dropped ++ w.hand.toList
      hand := none })
  | .countEvicted => ((), { w with
      stats := { w.stats with batchesEvicted := w.stats.batchesEvicted + 1 }
      batches := w.batches.map .count })
  | .now => (w.clock, w)
  | .beginRecv timeout => ((), { w with deadline := some (w.clock + timeout) })
  | .recv =>
    match w.queue with
    | l :: rest => (.line l, { w with queue := rest, hand := some l, deadline := none })
    | [] => (if w.disconnected then .disconnected else .timeout, { w with deadline := none })

/-- A receive returns when there is a line, when nobody can send one any more, or when its time
is over. Every other operation returns at once. -/
def SpoolOp.enabled {β : Type} : SpoolOp β → SpoolState → Bool
  | .recv, w =>
    !w.queue.isEmpty || w.disconnected || w.deadline.all fun deadline => deadline ≤ w.clock
  | _, _ => true

/-! ### The thread -/

open Prog (call)

/-- The loop of `enforce_total_size_cap` over the sorted batches. -/
def evict (cfg : SpoolConfig) : List (String × ℕ) → ℕ → Prog SpoolOp Unit
  | [], _ => pure ()
  | (path, size) :: batches, total =>
    if total ≤ cfg.maxTotalBytes then pure ()
    else do
      if ← call (.remove path) then
        call .countEvicted
        evict cfg batches (total - size)
      else evict cfg batches total

/-- `enforce_total_size_cap`. -/
def enforceTotalSizeCap (cfg : SpoolConfig) : Prog SpoolOp Unit := do
  match ← call .readDir with
  | none => pure ()
  | some entries =>
    let batches := entries.filter fun e => isBatchName e.1
    let total := batches.foldl (fun total e => total + e.2) 0
    if total ≤ cfg.maxTotalBytes then pure ()
    else evict cfg (batches.insertionSort fun a b => a.1 ≤ b.1) total

/-- The operator `?` on operations that only report success. -/
def orFail (p q : Prog SpoolOp Bool) : Prog SpoolOp Bool := do
  if ← p then q else pure false

theorem orFail_call {o : SpoolOp Bool} {p : Prog SpoolOp Bool} :
    orFail (call o) p = .op o fun ok => if ok = true then p else .pure false := rfl

/-- `seal_active_file`. -/
def sealActiveFile (cfg : SpoolConfig) : Prog SpoolOp Bool :=
  orFail (call .flush) do
    let ts ← call .unixTime
    let seq ← call .nextSeq
    let staging := stagingName ts seq
    let finalPath := batchName ts seq
    orFail (call (.rename staging)) <|
    orFail (call (.openFile staging)) <|
    orFail (call (.createFile finalPath)) <|
    orFail (call .newEncoder) <|
    orFail (call (.copy staging finalPath)) <|
    orFail (call (.finishEncoder finalPath)) do
      let _ ← call (.remove staging)
      enforceTotalSizeCap cfg
      pure true

/-- `rotate`, called while there is an active file. -/
def rotate (cfg : SpoolConfig) : Prog SpoolOp (Option ActiveFile) := do
  if ← sealActiveFile cfg then pure () else do
    let _ ← call (.remove activeFileName)
  if ← call .createActive then pure (some ⟨0⟩) else pure none

/-- The variables of `writer_main` that survive an iteration. -/
structure Locals where
  active : Option ActiveFile
  activeStartedAt : ℕ
  deriving DecidableEq, Repr

/-- What the thread does with a line. -/
def onLine (cfg : SpoolConfig) (loc : Locals) (l : NdjsonLine) :
    Prog SpoolOp (Option Locals) := do
  match loc.active with
  | none =>
    call .countDropped
    pure (some loc)
  | some f =>
    if ← call (.writeLine l) then
      call .countWritten
      let f : ActiveFile := ⟨f.bytesWritten + l.bytes.length⟩
      if cfg.maxBytesPerFile ≤ f.bytesWritten then
        let active ← rotate cfg
        let now ← call .now
        pure (some ⟨active, now⟩)
      else pure (some ⟨some f, loc.activeStartedAt⟩)
    else
      call .countDropped
      pure (some loc)

/-- What it does when nothing has come. -/
def onTimeout (cfg : SpoolConfig) (loc : Locals) : Prog SpoolOp (Option Locals) := do
  let active ← match loc.active with
    | some f => if 0 < f.bytesWritten then rotate cfg else pure (some f)
    | none => pure none
  let now ← call .now
  pure (some ⟨active, now⟩)

/-- What it does when nobody can send any more. -/
def onDisconnected (cfg : SpoolConfig) (loc : Locals) : Prog SpoolOp (Option Locals) := do
  match loc.active with
  | some f =>
    if 0 < f.bytesWritten then
      let _ ← sealActiveFile cfg
    else
      let _ ← call .flush
      let _ ← call (.remove activeFileName)
  | none => pure ()
  pure none

/-- The match on the result of the receive. -/
def onReceived (cfg : SpoolConfig) (loc : Locals) : Received → Prog SpoolOp (Option Locals)
  | .line l => onLine cfg loc l
  | .timeout => onTimeout cfg loc
  | .disconnected => onDisconnected cfg loc

/-- One iteration of the loop of `writer_main`; `none` is its `return`. -/
def iteration (cfg : SpoolConfig) (loc : Locals) : Prog SpoolOp (Option Locals) := do
  let now ← call .now
  let elapsed := now - loc.activeStartedAt
  call (.beginRecv (max (cfg.maxAge - elapsed) minRecvTimeout))
  let received ← call .recv
  onReceived cfg loc received

/-- The part of `writer_main` before the loop. -/
def setup : Prog SpoolOp (Option Locals) := do
  if ← call .createDirAll then
    let _ ← call (.remove activeFileName)
    if ← call .createActive then
      let now ← call .now
      pure (some ⟨some ⟨0⟩, now⟩)
    else pure none
  else pure none

/-! ### The system -/

/-- The thread and everything around it. -/
structure System where
  spool : SpoolState
  /-- What the thread still has to do in this iteration; `none` once it has returned. -/
  writer : Option (Prog SpoolOp (Option Locals))

/-- What the others can do. -/
inductive Other
  /-- `try_submit`, on the handle or on a submitter. -/
  | submit (l : NdjsonLine)
  /-- `submitter()`, or the clone of one. -/
  | cloneSender
  | dropSubmitter
  /-- `SpoolHandle::shutdown` drops its sender. -/
  | shutdown
  | tick (d : ℕ)
  /-- The shipper deletes a batch that the server has accepted. -/
  | ship (name : String)

/-- What can happen next. -/
inductive Label
  | other (l : Other)
  /-- The thread performs its next operation. -/
  | op (c : Choice)
  /-- The thread returns, and drops the receiver. -/
  | exit

/-- The next iteration begins where the last one ended. -/
def resume (cfg : SpoolConfig) : Prog SpoolOp (Option Locals) → Prog SpoolOp (Option Locals)
  | .pure (some loc) => iteration cfg loc
  | p => p

/-- `try_send` finds room. A channel without a buffer takes a line only from hand to hand. -/
def SpoolState.hasRoom (cfg : SpoolConfig) (w : SpoolState) : Bool :=
  w.queue.length < cfg.channelCapacity ||
    (cfg.channelCapacity == 0 && w.deadline.isSome && w.queue.isEmpty)

/-- `try_submit`. -/
def SpoolState.trySubmit (cfg : SpoolConfig) (w : SpoolState) (l : NdjsonLine) : SpoolState :=
  if w.receiver && w.hasRoom cfg then
    { w with queue := w.queue ++ [l], accepted := w.accepted ++ [l] }
  else { w with
    stats := { w.stats with eventsDropped := w.stats.eventsDropped + 1 }
    refused := w.refused + 1 }

/-- What the others do to the spool. -/
def SpoolState.other (cfg : SpoolConfig) (w : SpoolState) : Other → Option SpoolState
  | .submit l => if w.disconnected then none else some (w.trySubmit cfg l)
  | .cloneSender =>
    if w.disconnected then none else some { w with submitters := w.submitters + 1 }
  | .dropSubmitter =>
    if w.submitters = 0 then none else some { w with submitters := w.submitters - 1 }
  | .shutdown => if w.handle then some { w with handle := false } else none
  | .tick d => some { w with clock := w.clock + d }
  | .ship name =>
    match w.dir name with
    | some (.zst _ _ _) =>
      if isBatchName name then some (w.delete name .acknowledged) else none
    | _ => none

/-- The transition function. -/
def System.step (cfg : SpoolConfig) (s : System) : Label → Option System
  | .other l => (s.spool.other cfg l).map fun w => ⟨w, s.writer⟩
  | .op c =>
    match s.writer with
    | some (.op o k) =>
      if o.enabled s.spool then
        let r := perform o s.spool c
        some ⟨r.2, some (resume cfg (k r.1))⟩
      else none
    | _ => none
  | .exit =>
    match s.writer with
    | some (.pure none) => some ⟨{ s.spool with receiver := false, queue := [] }, none⟩
    | _ => none

/-- `spawn_writer` in a directory that earlier runs have left. -/
def System.start (dir : Dir) : System where
  spool := {
    dir := dir
    stats := ⟨0, 0, 0, 0⟩
    queue := []
    receiver := true
    handle := true
    submitters := 0
    clock := 0
    deadline := none
    hand := none
    encoding := none
    current := none
    accepted := []
    refused := 0
    dropped := []
    batches := [] }
  writer := some setup

/-- A small spool, for concrete runs. -/
def smallSpool : SpoolConfig where
  maxBytesPerFile := 3
  maxAge := 10000
  maxTotalBytes := 1000
  channelCapacity := 8

/-- The line `{}`, for concrete runs. -/
def emptyEvent : NdjsonLine := ⟨[123, 125, 10], rfl⟩

/-- All that a step of the others can do: submit a line, move the senders or the clock, or delete
a batch. -/
theorem SpoolState.other_cases {cfg : SpoolConfig} {w w' : SpoolState} {l : Other}
    (h : w.other cfg l = some w') :
    (∃ x, l = .submit x ∧ w' = w.trySubmit cfg x) ∨
    (∃ handle submitters clock,
      w' = { w with handle := handle, submitters := submitters, clock := clock }) ∨
    ∃ name, l = .ship name ∧ isBatchName name = true ∧ w' = w.delete name .acknowledged := by
  cases l with
  | submit x =>
    simp only [SpoolState.other] at h
    split_ifs at h
    exact Or.inl ⟨x, rfl, (Option.some.inj h).symm⟩
  | cloneSender | dropSubmitter | shutdown =>
    simp only [SpoolState.other] at h
    split_ifs at h
    exact Or.inr (Or.inl ⟨_, _, _, (Option.some.inj h).symm⟩)
  | tick d => exact Or.inr (Or.inl ⟨_, _, _, (Option.some.inj h).symm⟩)
  | ship name =>
    simp only [SpoolState.other] at h
    split at h
    · split_ifs at h with hname
      exact Or.inr (Or.inr ⟨name, rfl, hname, (Option.some.inj h).symm⟩)
    · cases h

/-- All that a step of the system can be. -/
theorem System.step_cases {cfg : SpoolConfig} {s t : System} {l : Label}
    (h : s.step cfg l = some t) :
    (∃ x, l = .other x ∧ s.spool.other cfg x = some t.spool ∧ t.writer = s.writer) ∨
    (∃ (c : Choice) (β : Type) (o : SpoolOp β) (k : β → Prog SpoolOp (Option Locals)),
      l = .op c ∧ s.writer = some (.op o k) ∧ o.enabled s.spool = true ∧
        t = ⟨(perform o s.spool c).2, some (resume cfg (k (perform o s.spool c).1))⟩) ∨
    (l = .exit ∧ s.writer = some (.pure none) ∧
      t = ⟨{ s.spool with receiver := false, queue := [] }, none⟩) := by
  obtain ⟨w, writer⟩ := s
  cases l with
  | other x =>
    obtain ⟨w', hw, rfl⟩ := Option.map_eq_some_iff.mp h
    exact .inl ⟨x, rfl, hw, rfl⟩
  | op c =>
    cases writer with
    | none => simp [System.step] at h
    | some p =>
      cases p with
      | pure r => simp [System.step] at h
      | op o k =>
        simp only [System.step] at h
        split_ifs at h with hen
        exact .inr (.inl ⟨c, _, o, k, rfl, rfl, hen, (Option.some.inj h).symm⟩)
  | exit =>
    cases writer with
    | none => simp [System.step] at h
    | some p =>
      cases p with
      | op o k => simp [System.step] at h
      | pure r =>
        cases r with
        | some loc => simp [System.step] at h
        | none => exact .inr (.inr ⟨rfl, rfl, (Option.some.inj h).symm⟩)

/-- A step of the thread performs its next operation. -/
theorem System.op_eq_some {cfg : SpoolConfig} {s t : System} {c : Choice}
    (h : s.step cfg (.op c) = some t) :
    ∃ (β : Type) (o : SpoolOp β) (k : β → Prog SpoolOp (Option Locals)),
      s.writer = some (.op o k) ∧ o.enabled s.spool = true ∧
        t = ⟨(perform o s.spool c).2, some (resume cfg (k (perform o s.spool c).1))⟩ := by
  rcases System.step_cases h with ⟨_, hl, -⟩ | ⟨_, β, o, k, hl, hstep⟩ | ⟨hl, -⟩
  · cases hl
  · obtain rfl := Label.op.inj hl
    exact ⟨β, o, k, hstep⟩
  · cases hl

/-- The thread exits only where it has returned. -/
theorem System.exit_eq_some {cfg : SpoolConfig} {s t : System} (h : s.step cfg .exit = some t) :
    s.writer = some (.pure none) ∧ t = ⟨{ s.spool with receiver := false, queue := [] }, none⟩ := by
  rcases System.step_cases h with ⟨_, hl, -⟩ | ⟨_, _, _, _, hl, -⟩ | ⟨-, hexit⟩
  · cases hl
  · cases hl
  · exact hexit

end Spool

end WazabiAgent
