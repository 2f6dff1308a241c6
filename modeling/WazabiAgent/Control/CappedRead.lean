import WazabiAgent.Control.Children
import WazabiAgent.Lib.Checked

/-!
# Reading up to a cap

`read_capped` (`control/executor.rs`) with all that `readCapped` takes for granted. The reader is
any, finite or not; every call overwrites the same chunk; the slices of it and the difference
`cap - buf.len()` are checked, and a check that fails is a panic.

The sum `buf.len() + n` is not checked: a `Vec` holds less than `2 ^ 63` bytes, and a chunk 8192.

## Main definitions

* `CappedRead.readCapped` — the function
* `CappedRead.Reading.Inv` — what holds between two calls of `read`

## Main results

* `CappedRead.readTurns_of_inv` — the loop, whatever the reads are
* `CappedRead.readCapped_ofAnswers` — the function of the same name in the model of `run_shell`
* `CappedRead.read_capped_exact` — what is returned, and that it is
-/

namespace WazabiAgent

namespace Control

namespace CappedRead

open Utf8

variable {ε σ : Type}

/-! ### The loop -/

/-- `[0u8; 8192]`. -/
def emptyChunk : List UInt8 := List.replicate 8192 0

/-- Between two calls of `read`. -/
structure Reading (σ : Type) where
  source : σ
  chunk : List UInt8
  buf : List UInt8

/-- How a turn ends. -/
inductive Turn (σ : Type)
  | next (r : Reading σ)
  | done (buf : List UInt8) (truncated : Bool)

/-- One turn of the loop, or nothing if it panics. -/
def turn (R : Reader ε UInt8 σ) (cap : ℕ) (r : Reading σ) : Option (Turn σ) :=
  match R.read r.source r.chunk with
  | (.ok 0, _, _) => some (.done r.buf false)
  | (.ok n, chunk, source) =>
    if cap < r.buf.length + n then
      (Checked.sub cap r.buf.length).bind fun take =>
      (Checked.slice chunk 0 take).map fun bytes => .done (r.buf ++ bytes) true
    else (Checked.slice chunk 0 n).map fun bytes => .next ⟨source, chunk, r.buf ++ bytes⟩
  | (.error _, _, _) => some (.done r.buf false)

/-- Why there is no result. -/
inductive Stuck
  | panicked
  | stillReading
  deriving DecidableEq

/-- As many turns as the number says. -/
def readTurns (R : Reader ε UInt8 σ) (cap : ℕ) : ℕ → Reading σ → Except Stuck (List UInt8 × Bool)
  | 0, _ => .error .stillReading
  | turns + 1, r =>
    match turn R cap r with
    | none => .error .panicked
    | some (.done buf truncated) => .ok (buf, truncated)
    | some (.next r) => readTurns R cap turns r

/-- `read_capped`, with so many calls of `read` at most. -/
def readCapped (R : Reader ε UInt8 σ) (turns : ℕ) (reader : Option σ) (cap : ℕ) :
    Except Stuck (String × Bool) :=
  match reader with
  | none => .ok ("", false)
  | some source =>
    (readTurns R cap turns ⟨source, emptyChunk, []⟩).map fun (buf, truncated) =>
      (fromUtf8Lossy buf, truncated)

/-! ### One turn -/

/-- The buffer has the beginning of the stream, within the cap, and the rest is still to be read. -/
structure Reading.Inv (R : Reader ε UInt8 σ) (cap : ℕ) (bytes : Stream'.Seq UInt8)
    (r : Reading σ) : Prop where
  within : r.buf.length ≤ cap
  kept : r.buf = bytes.take r.buf.length
  rest : R.Yields r.source r.chunk (bytes.drop r.buf.length)

variable {R : Reader ε UInt8 σ} {cap : ℕ} {bytes : Stream'.Seq UInt8} {r : Reading σ}

/-- What is returned of the stream. -/
def capped (bytes : Stream'.Seq UInt8) (cap : ℕ) : List UInt8 × Bool :=
  (bytes.take cap, (bytes.get? cap).isSome)

/-- A stream that ends within the cap is kept. -/
theorem Reading.Inv.eq_capped_of_nil (h : r.Inv R cap bytes)
    (hend : bytes.drop r.buf.length = .nil) : (r.buf, false) = capped bytes cap := by
  obtain ⟨room, hroom⟩ := Nat.exists_eq_add_of_le h.within
  have htake : bytes.take cap = r.buf := by
    rw [hroom, Reader.take_add, hend, Stream'.Seq.take_nil, List.append_nil, ← h.kept]
  have hget : bytes.get? cap = none := by
    rw [hroom, ← Stream'.Seq.drop_get?, hend, Stream'.Seq.get?_nil]
  rw [capped, htake, hget]
  rfl

section

variable {chunk : List UInt8} {source : σ}

theorem turn_error {e : ε} (h : R.read r.source r.chunk = (.error e, chunk, source)) :
    turn R cap r = some (.done r.buf false) := by
  rw [turn, h]

theorem turn_ended (h : R.read r.source r.chunk = (.ok 0, chunk, source)) :
    turn R cap r = some (.done r.buf false) := by
  rw [turn, h]
  rfl

/-- No check fails as long as the buffer is within the cap. -/
theorem turn_read {n : ℕ} (h : R.read r.source r.chunk = (.ok n, chunk, source)) (hn : n ≠ 0)
    (hwithin : r.buf.length ≤ cap) :
    turn R cap r = some (if cap < r.buf.length + n then
      .done (r.buf ++ chunk.take (cap - r.buf.length)) true
    else .next ⟨source, chunk, r.buf ++ chunk.take n⟩) := by
  have hlen := Reader.le_length_of_read h
  obtain ⟨m, rfl⟩ := Nat.exists_eq_succ_of_ne_zero hn
  rw [turn, h]
  show (if cap < r.buf.length + m.succ then _ else _) = _
  split_ifs with hover
  · rw [Checked.sub_of_le hwithin, Option.bind_some,
      Checked.slice_of_le (Nat.zero_le _) (by omega)]
    rfl
  · rw [Checked.slice_of_le (Nat.zero_le _) hlen]
    rfl

end

section

variable {n : ℕ} {chunk : List UInt8} {source : σ}

/-- What a call reads comes behind what is kept. -/
theorem Reading.Inv.of_read (h : r.Inv R cap bytes)
    (hread : R.read r.source r.chunk = (.ok n, chunk, source)) (hn : n ≠ 0) :
    (bytes.drop r.buf.length).take n = chunk.take n ∧
      R.Yields source chunk (bytes.drop (r.buf.length + n)) := by
  have hcall (k : ℕ) := (Reader.yieldsFor_ok hread hn k).mp (h.rest (k + 1))
  refine ⟨(hcall 0).1, fun k => ?_⟩
  rw [Stream'.Seq.dropn_add]
  exact (hcall k).2

theorem Reading.Inv.take_eq (h : r.Inv R cap bytes)
    (hitems : (bytes.drop r.buf.length).take n = chunk.take n) {m : ℕ} (hm : m ≤ n) :
    bytes.take (r.buf.length + m) = r.buf ++ chunk.take m := by
  rw [Reader.take_add, ← Reader.take_take _ hm, hitems, List.take_take, Nat.min_eq_left hm,
    ← h.kept]

/-- What is read beyond the cap is left out, and the stream is longer. -/
theorem Reading.Inv.eq_capped_of_over (h : r.Inv R cap bytes)
    (hitems : (bytes.drop r.buf.length).take n = chunk.take n) (hlen : (chunk.take n).length = n)
    (hover : cap < r.buf.length + n) :
    (r.buf ++ chunk.take (cap - r.buf.length), true) = capped bytes cap := by
  obtain ⟨room, rfl⟩ := Nat.exists_eq_add_of_le h.within
  have hget : (bytes.get? (r.buf.length + room)).isSome = true := by
    have hitem := Stream'.Seq.getElem?_take (r.buf.length + room) (r.buf.length + n) bytes
    rw [if_pos hover, h.take_eq hitems le_rfl] at hitem
    rw [← hitem, isSome_getElem?, List.length_append, hlen]
    exact hover
  rw [capped, hget, Nat.add_sub_cancel_left, h.take_eq hitems (by omega)]

end

/-- What a turn does: it ends with the result, or it keeps the invariant and has read something. -/
theorem turn_inv (h : r.Inv R cap bytes) :
    (∃ buf truncated, turn R cap r = some (.done buf truncated) ∧
        (buf, truncated) = capped bytes cap) ∨
      ∃ r', turn R cap r = some (.next r') ∧ r'.Inv R cap bytes ∧
        r.buf.length < r'.buf.length := by
  obtain ⟨e, chunk, source, hread⟩ | ⟨chunk, source, hread⟩ | ⟨n, chunk, source, hn, hread⟩ :=
    R.read_cases r.source r.chunk
  · have hend := (Reader.yieldsFor_error hread 0).mp (h.rest 1)
    exact .inl ⟨_, _, turn_error hread, h.eq_capped_of_nil hend⟩
  · have hend := (Reader.yieldsFor_ended hread 0).mp (h.rest 1)
    exact .inl ⟨_, _, turn_ended hread, h.eq_capped_of_nil hend⟩
  · obtain ⟨hitems, hrest⟩ := h.of_read hread hn
    have hlen := Reader.length_take_of_read hread
    rw [turn_read hread hn h.within]
    split_ifs with hover
    · exact .inl ⟨_, _, rfl, h.eq_capped_of_over hitems hlen hover⟩
    · have hbuf : (r.buf ++ chunk.take n).length = r.buf.length + n := by
        rw [List.length_append, hlen]
      refine .inr ⟨_, rfl, ⟨?_, ?_, ?_⟩, ?_⟩
      · show (r.buf ++ chunk.take n).length ≤ cap
        omega
      · show r.buf ++ chunk.take n = bytes.take (r.buf ++ chunk.take n).length
        rw [hbuf, h.take_eq hitems le_rfl]
      · show R.Yields source chunk (bytes.drop (r.buf ++ chunk.take n).length)
        rw [hbuf]
        exact hrest
      · show r.buf.length < (r.buf ++ chunk.take n).length
        omega

/-! ### All turns -/

/-- **The loop** takes one turn for each byte there is room for, and one more, at most. -/
theorem readTurns_of_inv (h : r.Inv R cap bytes) {turns : ℕ} (hturns : cap < r.buf.length + turns) :
    readTurns R cap turns r = .ok (capped bytes cap) := by
  induction turns generalizing r with
  | zero => exact absurd hturns (Nat.not_lt.mpr h.within)
  | succ turns ih =>
    rw [readTurns]
    obtain ⟨buf, truncated, hturn, hresult⟩ | ⟨r', hturn, hr', hlonger⟩ := turn_inv h
    · rw [hturn, ← hresult]
    · rw [hturn]
      exact ih hr' (by omega)

theorem readCapped_of_yields {source : σ} (h : R.Yields source emptyChunk bytes) {turns : ℕ}
    (hturns : cap < turns) :
    readCapped R turns (some source) cap
      = .ok (fromUtf8Lossy (bytes.take cap), (bytes.get? cap).isSome) := by
  have hinv : Reading.Inv R cap bytes ⟨source, emptyChunk, []⟩ :=
    ⟨Nat.zero_le cap, Stream'.Seq.take_zero.symm, h⟩
  rw [readCapped, readTurns_of_inv hinv (by rw [List.length_nil]; omega)]
  rfl

/-- The model of `run_shell` has the same function. -/
theorem readCapped_ofAnswers (answers : List (Except String (List UInt8))) {turns : ℕ}
    (hturns : cap < turns) :
    readCapped Reader.ofAnswers turns (some answers) cap
      = .ok (Control.readCapped (some answers) cap) := by
  have hchunk : emptyChunk ≠ [] := List.cons_ne_nil _ _
  rw [readCapped_of_yields (Reader.yields_ofAnswers answers hchunk) hturns, readCapped_eq,
    Reader.take_ofList, Stream'.Seq.ofList_get?]
  have hlonger : (Reader.yielded answers)[cap]?.isSome
      = decide (cap < (Reader.yielded answers).length) := by
    rw [Bool.eq_iff_iff, isSome_getElem?, decide_eq_true_iff]
  rw [hlonger]

/-- **Capped reading is exact.** Every reader is read in no more calls than the cap and one, and no
check fails. What is returned is the beginning of the stream up to the cap, and whether the stream
goes on behind it. -/
theorem read_capped_exact (R : Reader ε UInt8 σ) (source : σ) (cap : ℕ) :
    ∃ text truncated,
      (∀ turns, cap < turns →
        readCapped R turns (some source) cap = .ok (text, truncated)) ∧
      ∀ bytes, R.Yields source emptyChunk bytes →
        text = fromUtf8Lossy (bytes.take cap) ∧
          (truncated = true ↔ (cap : ℕ∞) < bytes.length') := by
  have hstream := R.yields_streamFrom source emptyChunk
  refine ⟨_, _, fun turns hturns => readCapped_of_yields hstream hturns, fun bytes hbytes => ?_⟩
  have hsame := (readCapped_of_yields hbytes cap.lt_succ_self).symm.trans
    (readCapped_of_yields hstream cap.lt_succ_self)
  obtain ⟨htext, htruncated⟩ := Prod.mk.inj (Except.ok.inj hsame)
  rw [← htext, ← htruncated]
  exact ⟨rfl, Reader.isSome_get?_iff⟩

/-- `whoami` in two pieces. -/
def whoami : List (Except String (List UInt8)) :=
  [.ok [119, 104, 111], .ok [97, 109, 105], .ok []]

/-- The cap falls into the second one. -/
theorem whoami_capped :
    readCapped Reader.ofAnswers 5 (some whoami) 4 = .ok ("whoa", true) := by
  obtain ⟨text, truncated, hrun, hexact⟩ := read_capped_exact Reader.ofAnswers whoami 4
  obtain ⟨htext, htruncated⟩ :=
    hexact _ (Reader.yields_ofAnswers whoami (List.cons_ne_nil _ _))
  have hlonger : truncated = true := htruncated.mpr (Reader.isSome_get?_iff.mp rfl)
  have hwhoa : text = "whoa" := by
    rw [htext, Reader.take_ofList]
    decide
  rw [hrun 5 (by decide), hlonger, hwhoa]

/-- The end of the stream is no truncation. -/
example : readCapped Reader.ofAnswers 7 (some whoami) 6 = .ok ("whoami", false) := by
  decide +kernel

end CappedRead

end Control

end WazabiAgent
