import Mathlib.Data.List.Basic

/-!
# Files of a spool directory

What a spool directory holds: the active file, the staging files between a rename and the end of
the compression, and the sealed batches (`spool/file.rs`, and the names of `spool/writer.rs`).

## Content

An NDJSON file is kept as the list of its writes: whole lines, and the torn beginning of a line
whose write failed half way. `contentBytes` is the byte string of it. What a `BufWriter` still
holds back belongs to the content: every reader of the file comes after a flush.

A compressed file is kept as what it was compressed from and how much of the frame is there, so
that decompression is lossless and rejects a strict prefix by construction, also the one of length
zero. That one is its own case, since it is what a crash right behind the creation of the file leaves.
-/

namespace WazabiAgent

namespace Spool

/-! ### Lines -/

/-- One serialised event. The trailing newline belongs to it: the writer adds none. -/
structure NdjsonLine where
  bytes : List UInt8
  terminated : bytes.getLast? = some 10
  deriving DecidableEq, Repr

/-- Hence no line is empty. -/
theorem NdjsonLine.length_pos (l : NdjsonLine) : 0 < l.bytes.length := by
  have h := l.terminated
  cases hb : l.bytes with
  | nil => simp [hb] at h
  | cons b bs => simp

/-- One write to an NDJSON file. -/
inductive Chunk
  | whole (l : NdjsonLine)
  /-- What a failed write has left. -/
  | torn (bytes : List UInt8)
  deriving DecidableEq, Repr

/-- The bytes of one write. -/
def Chunk.bytes : Chunk → List UInt8
  | .whole l => l.bytes
  | .torn bs => bs

/-- The line of one write, if it was completed. -/
def Chunk.line? : Chunk → Option NdjsonLine
  | .whole l => some l
  | .torn _ => none

/-- The content as bytes. -/
def contentBytes (cs : List Chunk) : List UInt8 := cs.flatMap Chunk.bytes

/-- The lines that were written whole. -/
def wholeLines (cs : List Chunk) : List NdjsonLine := cs.filterMap Chunk.line?

@[simp] theorem wholeLines_nil : wholeLines [] = [] := rfl

@[simp] theorem wholeLines_append (cs ds : List Chunk) :
    wholeLines (cs ++ ds) = wholeLines cs ++ wholeLines ds := List.filterMap_append

@[simp] theorem wholeLines_whole (l : NdjsonLine) : wholeLines [.whole l] = [l] := rfl

@[simp] theorem wholeLines_torn (bs : List UInt8) : wholeLines [.torn bs] = [] := rfl

/-- The size of some lines together. -/
def linesSize (ls : List NdjsonLine) : ℕ := (ls.flatMap NdjsonLine.bytes).length

@[simp] theorem linesSize_nil : linesSize [] = 0 := rfl

@[simp] theorem linesSize_cons (l : NdjsonLine) (ls : List NdjsonLine) :
    linesSize (l :: ls) = l.bytes.length + linesSize ls := by
  simp [linesSize]

@[simp] theorem linesSize_append (ls ms : List NdjsonLine) :
    linesSize (ls ++ ms) = linesSize ls + linesSize ms := by
  simp [linesSize]

/-! ### Files -/

/-- How much of a compressed file has been written. -/
inductive Frame
  /-- Nothing yet. -/
  | empty
  /-- A strict, nonempty prefix. -/
  | cut
  /-- The encoder has finished. -/
  | whole
  deriving DecidableEq, Repr

/-- A file of the spool directory. -/
inductive File
  | ndjson (chunks : List Chunk)
  | zst (source : List Chunk) (frame : Frame) (size : ℕ)
  deriving DecidableEq, Repr

/-- What `metadata().len()` says. -/
def File.size : File → ℕ
  | .ndjson cs => (contentBytes cs).length
  | .zst _ _ size => size

/-- The lines of a file that is not compressed. -/
def File.lines : File → List NdjsonLine
  | .ndjson cs => wholeLines cs
  | .zst _ _ _ => []

/-- The spool directory: file names and what they hold. -/
abbrev Dir := String → Option File

/-! ### Names -/

/-- `ACTIVE_FILE_NAME`. -/
def activeFileName : String := "active.ndjson"

/-- The staging name of a batch. -/
def stagingName (ts seq : ℕ) : String := s!"batch-{ts}-{seq}.ndjson"

/-- The final name of a batch. -/
def batchName (ts seq : ℕ) : String := s!"batch-{ts}-{seq}.zst"

/-- The test that both the eviction and the shipper put to a file name. -/
def isBatchName (name : String) : Bool :=
  "batch-".toList.isPrefixOf name.toList && ".zst".toList.isSuffixOf name.toList

theorem toList_batchName (ts seq : ℕ) : (batchName ts seq).toList =
    "batch-".toList ++ (ts.repr.toList ++ '-' :: (seq.repr.toList ++ ".zst".toList)) := by
  simp [batchName, String.toList_append, ToString.toString]

theorem toList_stagingName (ts seq : ℕ) : (stagingName ts seq).toList =
    "batch-".toList ++ (ts.repr.toList ++ '-' :: (seq.repr.toList ++ ".ndjson".toList)) := by
  simp [stagingName, String.toList_append, ToString.toString]

/-- A decimal number is made of digits. -/
theorem dash_notMem_repr (n : ℕ) : '-' ∉ n.repr.toList := by
  intro h
  rw [Nat.toList_repr] at h
  have hd := Nat.isDigit_of_mem_toDigits (by decide) (by decide) h
  exact absurd hd (by decide)

/-- Two numbers with the same digits are the same. -/
theorem eq_of_toList_repr_eq {m n : ℕ} (h : m.repr.toList = n.repr.toList) : m = n := by
  rw [Nat.toList_repr, Nat.toList_repr] at h
  simpa using congrArg (fun ds => Nat.ofDigitChars 10 ds 0) h

/-- **A batch name determines the clock reading and the number it was made from.** -/
theorem batchName_inj {ts seq ts' seq' : ℕ} :
    batchName ts seq = batchName ts' seq' ↔ ts = ts' ∧ seq = seq' := by
  constructor
  · intro h
    have hl := congrArg String.toList h
    rw [toList_batchName, toList_batchName, List.append_cancel_left_eq] at hl
    have hzst : '-' ∉ ".zst".toList := by decide
    have hmem : ∀ n : ℕ, '-' ∉ n.repr.toList ++ ".zst".toList := fun n hm =>
      (List.mem_append.mp hm).elim (dash_notMem_repr n) hzst
    obtain ⟨hts, -, hseq⟩ :=
      (List.append_cons_inj_of_notMem (dash_notMem_repr ts) (hmem seq)).mp hl
    exact ⟨eq_of_toList_repr_eq hts, eq_of_toList_repr_eq (List.append_cancel_right hseq)⟩
  · rintro ⟨rfl, rfl⟩
    rfl

theorem isBatchName_batchName (ts seq : ℕ) : isBatchName (batchName ts seq) = true := by
  rw [isBatchName, Bool.and_eq_true, List.isPrefixOf_iff_prefix, List.isSuffixOf_iff_suffix,
    toList_batchName]
  refine ⟨List.prefix_append _ _, ?_⟩
  exact ⟨"batch-".toList ++ (ts.repr.toList ++ '-' :: seq.repr.toList), by simp⟩

/-- Two suffixes of one list are comparable, and `.zst` is no suffix of `.ndjson`. -/
theorem isBatchName_of_ndjson {name : String} (h : ".ndjson".toList <:+ name.toList) :
    isBatchName name = false := by
  rw [isBatchName, Bool.and_eq_false_iff]
  refine Or.inr (Bool.eq_false_iff.mpr fun hz => ?_)
  rw [List.isSuffixOf_iff_suffix] at hz
  have := List.suffix_of_suffix_length_le hz h (by decide)
  exact absurd this (by decide)

theorem isBatchName_activeFileName : isBatchName activeFileName = false := by decide

theorem isBatchName_stagingName (ts seq : ℕ) : isBatchName (stagingName ts seq) = false := by
  apply isBatchName_of_ndjson
  rw [toList_stagingName]
  exact ⟨"batch-".toList ++ (ts.repr.toList ++ '-' :: seq.repr.toList), by simp⟩

theorem ne_of_isBatchName {m n : String} (hm : isBatchName m = false) (hn : isBatchName n = true) :
    n ≠ m := by
  rintro rfl
  exact absurd (hn.symm.trans hm) (by decide)

theorem batchName_ne_of_not_isBatchName {name : String} (h : isBatchName name = false)
    (ts seq : ℕ) : batchName ts seq ≠ name :=
  ne_of_isBatchName h (isBatchName_batchName ts seq)

end Spool

end WazabiAgent
