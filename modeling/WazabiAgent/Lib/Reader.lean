import Mathlib.Data.Seq.Basic

/-!
# Readers of streams

A call of `read` puts items at the beginning of a buffer and says how many. It may put fewer there
than there is room for, and leave behind them what it likes. None means that the stream has ended.

A stream may be infinite, so that a reader yields one is said call by call, as far as one asks. What
a reader does after the end or after an error plays no part.

## Main definitions

* `Reader` — what `read` does, with the promise that it keeps to the buffer
* `Reader.Yields` — a reader yields a stream
* `Reader.ofAnswers` — the reader that gives these answers

## Main results

* `Reader.take_add` — a stream is read in parts
* `Reader.yields_streamFrom` — every reader yields one
* `Reader.yields_ofAnswers` — the stream of a reader with given answers
-/

/-- What `read` returns, the buffer afterwards, and the source afterwards. -/
structure Reader (ε α σ : Type) where
  read : σ → List α → Except ε ℕ × List α × σ
  length_read : ∀ s chunk, (read s chunk).2.1.length = chunk.length
  read_le : ∀ s chunk n, (read s chunk).1 = .ok n → n ≤ chunk.length

namespace Reader

variable {α ε σ : Type}

/-! ### Streams in parts -/

theorem take_add (bytes : Stream'.Seq α) (m n : ℕ) :
    bytes.take (m + n) = bytes.take m ++ (bytes.drop m).take n := by
  induction m generalizing bytes with
  | zero => rw [Nat.zero_add, Stream'.Seq.take_zero, List.nil_append, Stream'.Seq.drop_zero]
  | succ m ih =>
    cases bytes using Stream'.Seq.recOn with
    | nil => simp
    | cons b bytes =>
      rw [Nat.add_right_comm, Stream'.Seq.take_succ_cons, Stream'.Seq.take_succ_cons,
        Stream'.Seq.drop_succ_cons, ih, List.cons_append]

theorem take_take (bytes : Stream'.Seq α) {m n : ℕ} (h : m ≤ n) :
    (bytes.take n).take m = bytes.take m := by
  refine List.ext_getElem? fun i => ?_
  rw [List.getElem?_take, Stream'.Seq.getElem?_take, Stream'.Seq.getElem?_take]
  split_ifs with hm hn
  · rfl
  · omega
  · rfl

theorem take_ofList (bytes : List α) (n : ℕ) :
    (Stream'.Seq.ofList bytes).take n = bytes.take n := by
  induction n generalizing bytes with
  | zero => rw [Stream'.Seq.take_zero, List.take_zero]
  | succ n ih =>
    cases bytes with
    | nil => rw [Stream'.Seq.ofList_nil, Stream'.Seq.take_nil, List.take_nil]
    | cons b bytes =>
      rw [Stream'.Seq.ofList_cons, Stream'.Seq.take_succ_cons, List.take_succ_cons, ih]

theorem drop_ofList (bytes : List α) (n : ℕ) :
    (Stream'.Seq.ofList bytes).drop n = Stream'.Seq.ofList (bytes.drop n) := by
  ext m
  rw [Stream'.Seq.drop_get?, Stream'.Seq.ofList_get?, Stream'.Seq.ofList_get?, List.getElem?_drop]

/-- How long a stream is shows at its item of that number. -/
theorem isSome_get?_iff {bytes : Stream'.Seq α} {n : ℕ} :
    (bytes.get? n).isSome = true ↔ (n : ℕ∞) < bytes.length' := by
  rw [Option.isSome_iff_exists]
  exact Stream'.Seq.lt_length'_iff.symm

/-! ### What is yielded -/

/-- The first calls, as many as the number says, yield this stream or its beginning. -/
def YieldsFor (R : Reader ε α σ) : ℕ → σ → List α → Stream'.Seq α → Prop
  | 0, _, _, _ => True
  | k + 1, s, chunk, bytes =>
    match R.read s chunk with
    | (.ok 0, _, _) | (.error _, _, _) => bytes = .nil
    | (.ok n, chunk, s) =>
      bytes.take n = chunk.take n ∧ R.YieldsFor k s chunk (bytes.drop n)

/-- All calls with this buffer yield the stream, up to its end or an error. -/
def Yields (R : Reader ε α σ) (s : σ) (chunk : List α) (bytes : Stream'.Seq α) : Prop :=
  ∀ k, R.YieldsFor k s chunk bytes

variable {R : Reader ε α σ} {s s' : σ} {chunk chunk' : List α} {bytes : Stream'.Seq α}

theorem yieldsFor_ended (h : R.read s chunk = (.ok 0, chunk', s')) (k : ℕ) :
    R.YieldsFor (k + 1) s chunk bytes ↔ bytes = .nil := by
  rw [YieldsFor, h]
  exact Iff.rfl

theorem yieldsFor_error {e : ε} (h : R.read s chunk = (.error e, chunk', s')) (k : ℕ) :
    R.YieldsFor (k + 1) s chunk bytes ↔ bytes = .nil := by
  rw [YieldsFor, h]

theorem yieldsFor_ok {n : ℕ} (h : R.read s chunk = (.ok n, chunk', s')) (hn : n ≠ 0) (k : ℕ) :
    R.YieldsFor (k + 1) s chunk bytes ↔
      bytes.take n = chunk'.take n ∧ R.YieldsFor k s' chunk' (bytes.drop n) := by
  obtain ⟨m, rfl⟩ := Nat.exists_eq_succ_of_ne_zero hn
  rw [YieldsFor, h]
  exact Iff.rfl

/-- How a call ends. -/
theorem read_cases (R : Reader ε α σ) (s : σ) (chunk : List α) :
    (∃ e chunk' s', R.read s chunk = (.error e, chunk', s')) ∨
      (∃ chunk' s', R.read s chunk = (.ok 0, chunk', s')) ∨
        ∃ n chunk' s', n ≠ 0 ∧ R.read s chunk = (.ok n, chunk', s') := by
  obtain ⟨e | n, chunk', s'⟩ := R.read s chunk
  · exact .inl ⟨e, chunk', s', rfl⟩
  · by_cases hn : n = 0
    · exact .inr (.inl ⟨chunk', s', by rw [hn]⟩)
    · exact .inr (.inr ⟨n, chunk', s', hn, rfl⟩)

/-- The items are in the buffer. -/
theorem le_length_of_read {n : ℕ} (h : R.read s chunk = (.ok n, chunk', s')) :
    n ≤ chunk'.length := by
  have hle := R.read_le s chunk n (congrArg Prod.fst h)
  have hlen := R.length_read s chunk
  rw [h] at hlen
  exact hle.trans hlen.ge

/-! ### The stream of a reader -/

/-- The next item, where those of the last call that are left come first. -/
def nextItem (R : Reader ε α σ) : List α × σ × List α → Option (α × List α × σ × List α)
  | (a :: left, s, chunk) => some (a, left, s, chunk)
  | ([], s, chunk) =>
    match R.read s chunk with
    | (.error _, _, _) => none
    | (.ok n, chunk, s) =>
      match chunk.take n with
      | [] => none
      | a :: left => some (a, left, s, chunk)

/-- The items that a reader gives, from what is left and its state. -/
def streamFrom (R : Reader ε α σ) (left : List α) (s : σ) (chunk : List α) : Stream'.Seq α :=
  Stream'.Seq.corec R.nextItem (left, s, chunk)

theorem streamFrom_cons (R : Reader ε α σ) (a : α) (left : List α) (s : σ) (chunk : List α) :
    R.streamFrom (a :: left) s chunk = .cons a (R.streamFrom left s chunk) :=
  Stream'.Seq.corec_cons rfl

theorem streamFrom_left (R : Reader ε α σ) (left : List α) (s : σ) (chunk : List α) :
    (R.streamFrom left s chunk).take left.length = left ∧
      (R.streamFrom left s chunk).drop left.length = R.streamFrom [] s chunk := by
  induction left with
  | nil => exact ⟨Stream'.Seq.take_zero, Stream'.Seq.drop_zero⟩
  | cons a left ih =>
    obtain ⟨htake, hdrop⟩ := ih
    rw [streamFrom_cons, List.length_cons, Stream'.Seq.take_succ_cons, Stream'.Seq.drop_succ_cons]
    exact ⟨congrArg _ htake, hdrop⟩

theorem length_take_of_read {n : ℕ} (h : R.read s chunk = (.ok n, chunk', s')) :
    (chunk'.take n).length = n := by
  rw [List.length_take, Nat.min_eq_left (le_length_of_read h)]

/-- What a call puts into the buffer comes next. -/
theorem streamFrom_read {n : ℕ} (h : R.read s chunk = (.ok n, chunk', s')) (hn : n ≠ 0) :
    R.streamFrom [] s chunk = R.streamFrom (chunk'.take n) s' chunk' := by
  cases hitems : chunk'.take n with
  | nil =>
    have hlen := length_take_of_read h
    rw [hitems] at hlen
    exact absurd hlen.symm hn
  | cons a left =>
    rw [streamFrom_cons]
    refine Stream'.Seq.corec_cons ?_
    rw [nextItem, h]
    dsimp only
    rw [hitems]

/-- Every reader yields a stream. -/
theorem yields_streamFrom (R : Reader ε α σ) (s : σ) (chunk : List α) :
    R.Yields s chunk (R.streamFrom [] s chunk) := by
  intro k
  induction k generalizing s chunk with
  | zero => trivial
  | succ k ih =>
    obtain ⟨e, chunk', s', h⟩ | ⟨chunk', s', h⟩ | ⟨n, chunk', s', hn, h⟩ := R.read_cases s chunk
    · refine (yieldsFor_error h k).mpr (Stream'.Seq.corec_nil _ _ ?_)
      rw [nextItem, h]
    · refine (yieldsFor_ended h k).mpr (Stream'.Seq.corec_nil _ _ ?_)
      rw [nextItem, h]
      rfl
    · rw [streamFrom_read h hn, yieldsFor_ok h hn]
      obtain ⟨htake, hdrop⟩ := R.streamFrom_left (chunk'.take n) s' chunk'
      rw [length_take_of_read h] at htake hdrop
      rw [htake, hdrop]
      exact ⟨rfl, ih s' chunk'⟩

/-! ### Given answers -/

/-- The reader that gives these answers one after the other, and has ended then. What does not fit
into the buffer is left for the next call. -/
def ofAnswers : Reader ε α (List (Except ε (List α))) where
  read answers chunk :=
    match answers with
    | [] => (.ok 0, chunk, [])
    | .error e :: answers => (.error e, chunk, answers)
    | .ok piece :: answers =>
      if piece.length ≤ chunk.length then
        (.ok piece.length, piece ++ chunk.drop piece.length, answers)
      else (.ok chunk.length, piece.take chunk.length, .ok (piece.drop chunk.length) :: answers)
  length_read answers chunk := by
    rcases answers with _ | ⟨_ | piece, answers⟩
    · rfl
    · rfl
    · dsimp only
      split_ifs with hfit
      · rw [List.length_append, List.length_drop]
        omega
      · rw [List.length_take]
        omega
  read_le answers chunk n h := by
    rcases answers with _ | ⟨_ | piece, answers⟩
    · cases h
      exact Nat.zero_le _
    · cases h
    · dsimp only at h
      split_ifs at h with hfit
      · cases h
        exact hfit
      · cases h
        exact le_rfl

/-- The items of the answers before the end or an error. -/
def yielded : List (Except ε (List α)) → List α
  | [] | .error _ :: _ | .ok [] :: _ => []
  | .ok (a :: piece) :: answers => a :: piece ++ yielded answers

theorem yielded_piece {piece : List α} (h : piece ≠ []) (answers : List (Except ε (List α))) :
    yielded (.ok piece :: answers) = piece ++ yielded answers := by
  cases piece with
  | nil => exact absurd rfl h
  | cons a piece => rfl

/-- Whatever the answers are, what is read are their items. -/
theorem yields_ofAnswers (answers : List (Except ε (List α))) {chunk : List α} (h : chunk ≠ []) :
    ofAnswers.Yields answers chunk (Stream'.Seq.ofList (yielded answers)) := by
  intro k
  induction k generalizing answers chunk with
  | zero => trivial
  | succ k ih =>
    have hchunk : 0 < chunk.length := List.length_pos_iff.mpr h
    rcases answers with _ | ⟨e | piece, answers⟩
    · exact (yieldsFor_ended rfl k).mpr rfl
    · exact (yieldsFor_error rfl k).mpr rfl
    · by_cases hpiece : piece = []
      · subst hpiece
        have hread : ofAnswers.read (.ok [] :: answers) chunk = (.ok 0, chunk, answers) := rfl
        exact (yieldsFor_ended hread k).mpr rfl
      rw [yielded_piece hpiece]
      by_cases hfit : piece.length ≤ chunk.length
      · have hread : ofAnswers.read (.ok piece :: answers) chunk
            = (.ok piece.length, piece ++ chunk.drop piece.length, answers) := if_pos hfit
        refine (yieldsFor_ok hread (mt List.length_eq_zero_iff.mp hpiece) k).mpr ⟨?_, ?_⟩
        · rw [take_ofList, List.take_left, List.take_left]
        · rw [drop_ofList, List.drop_left]
          exact ih answers (List.append_ne_nil_of_left_ne_nil hpiece _)
      · have hread : ofAnswers.read (.ok piece :: answers) chunk = (.ok chunk.length,
            piece.take chunk.length, .ok (piece.drop chunk.length) :: answers) := if_neg hfit
        have hlt : chunk.length < piece.length := Nat.not_le.mp hfit
        refine (yieldsFor_ok hread hchunk.ne' k).mpr ⟨?_, ?_⟩
        · rw [take_ofList, List.take_append_of_le_length hlt.le, List.take_take, Nat.min_self]
        · have hleft : piece.drop chunk.length ≠ [] := by
            rw [Ne, List.drop_eq_nil_iff]
            exact hfit
          rw [drop_ofList, List.drop_append_of_le_length hlt.le, ← yielded_piece hleft]
          refine ih _ fun hnil => ?_
          rw [List.take_eq_nil_iff] at hnil
          exact hnil.elim hchunk.ne' hpiece

end Reader
