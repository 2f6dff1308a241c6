import WazabiAgent.Plugin.Protocol

/-!
# Frames, whatever the pieces they come in

A pipe in byte mode delivers a stream in pieces of any size. What `read_frame` returns, call after
call, is a matter of the bytes alone: `nextFrame` says what it is, with no reads in it.

## Main definitions

* `Splits` — the reads of a stream, in any pieces and with interruptions
* `nextFrame` — one frame off the front of a stream
* `frameResults` — the results of calls of `read_frame`, of those after an error too
* `readFrameAllocs` — `read_frame` with the lengths of the buffers it allocates
* `frame`, `writeFrame` — the bytes of a frame

## Main results

* `readFrame_of_splits` — `readFrame` takes `nextFrame` off a split stream
* `frame_reading` — chunks do not matter, frames are read back, and what breaks off or is too large
  is told apart
-/

namespace WazabiAgent

namespace Plugin

open Binary (fromLeBytes toLeBytes fromLeBytes_toLeBytes length_toLeBytes)

variable {parse : List UInt8 → Except String ClientFrame} {s s' : Inbound} {bs : List UInt8}

/-! ### Streams -/

/-- The reads deliver these bytes, and find none only where the stream ends. -/
inductive Splits : Inbound → List UInt8 → Prop
  | ended : Splits [] []
  | read {s : Inbound} {piece bs : List UInt8} (hpiece : piece ≠ []) (h : Splits s bs) :
    Splits (.ok piece :: s) (piece ++ bs)
  | interrupted {s : Inbound} {bs : List UInt8} (h : Splits s bs) : Splits (.interrupted :: s) bs

/-- One frame off the front of a stream that ends where the bytes do. -/
def nextFrame (parse : List UInt8 → Except String ClientFrame) (bs : List UInt8) :
    FrameRead × List UInt8 :=
  if bs.length < 4 then (if bs = [] then .ok none else .error .truncated, [])
  else
    let len := fromLeBytes (bs.take 4)
    let rest := bs.drop 4
    if len > maxFrameBytes then (.error (.tooLarge len), rest)
    else if rest.length < len then (.error .truncated, [])
    else
      match parse (rest.take len) with
      | .ok frame => (.ok (some frame), rest.drop len)
      | .error text => (.error (.json text), rest.drop len)

/-- A buffer that the stream can fill takes what it has room for. -/
theorem fill_full_of_splits (n : ℕ) (got : List UInt8) (h : Splits s bs) (hgot : got.length ≤ n)
    (hn : n ≤ got.length + bs.length) :
    ∃ s', fill n got s = (.full (got ++ bs.take (n - got.length)), s') ∧
      Splits s' (bs.drop (n - got.length)) := by
  induction h generalizing got with
  | ended =>
    rw [List.length_nil, Nat.add_zero] at hn
    refine ⟨[], by simp [fill, hn], ?_⟩
    rw [List.drop_nil]
    exact .ended
  | @read s piece bs hpiece h ih =>
    by_cases hfull : n ≤ got.length
    · have hroom : n - got.length = 0 := by omega
      refine ⟨.ok piece :: s, by simp [fill, hfull, hroom], ?_⟩
      rw [hroom, List.drop_zero]
      exact .read hpiece h
    · by_cases hfit : piece.length ≤ n - got.length
      · rw [List.length_append] at hn
        obtain ⟨s', hfill, hrest⟩ := ih (got ++ piece)
          (by rw [List.length_append]; omega) (by rw [List.length_append]; omega)
        have hroom : n - (got ++ piece).length = n - got.length - piece.length := by
          rw [List.length_append]
          omega
        rw [hroom] at hfill hrest
        refine ⟨s', ?_, ?_⟩
        · rw [List.take_append, List.take_of_length_le hfit, ← List.append_assoc, ← hfill]
          simp [fill, hfull, hpiece, hfit]
        · rwa [List.drop_append, List.drop_eq_nil_of_le hfit, List.nil_append]
      · have hlt : n - got.length ≤ piece.length := by omega
        refine ⟨.ok (piece.drop (n - got.length)) :: s, ?_, ?_⟩
        · rw [List.take_append_of_le_length hlt]
          simp [fill, hfull, hpiece, hfit]
        · rw [List.drop_append_of_le_length hlt]
          refine .read (fun hdrop => hfit ?_) h
          exact List.drop_eq_nil_iff.mp hdrop
  | @interrupted s bs h ih =>
    by_cases hfull : n ≤ got.length
    · have hroom : n - got.length = 0 := by omega
      refine ⟨.interrupted :: s, by simp [fill, hfull, hroom], ?_⟩
      rw [hroom, List.drop_zero]
      exact .interrupted h
    · obtain ⟨s', hfill, hrest⟩ := ih got hgot hn
      refine ⟨s', ?_, hrest⟩
      rw [← hfill]
      simp [fill, hfull]

/-- A buffer that it cannot fill takes all. -/
theorem fill_ended_of_splits (n : ℕ) (got : List UInt8) (h : Splits s bs)
    (hn : got.length + bs.length < n) : fill n got s = (.ended (got ++ bs), []) := by
  induction h generalizing got with
  | ended =>
    rw [List.length_nil, Nat.add_zero] at hn
    simp [fill, Nat.not_le.mpr hn]
  | @read s piece bs hpiece h ih =>
    rw [List.length_append] at hn
    have hrest := ih (got ++ piece) (by rw [List.length_append]; omega)
    rw [← List.append_assoc, ← hrest]
    have hopen : ¬n ≤ got.length := by omega
    have hfit : piece.length ≤ n - got.length := by omega
    simp [fill, hopen, hpiece, hfit]
  | @interrupted s bs h ih =>
    have hopen : ¬n ≤ got.length := by omega
    rw [← ih got hn]
    simp [fill, hopen]

/-- **The pieces do not matter**: one frame off a split stream is one frame off its bytes. -/
theorem readFrame_of_splits (parse : List UInt8 → Except String ClientFrame) (h : Splits s bs) :
    ∃ s', readFrame parse s = ((nextFrame parse bs).1, s') ∧ Splits s' (nextFrame parse bs).2 := by
  rw [readFrame, nextFrame]
  by_cases hshort : bs.length < 4
  · rw [fill_ended_of_splits 4 [] h (by simpa using hshort), if_pos hshort]
    exact ⟨[], rfl, .ended⟩
  · rw [if_neg hshort]
    obtain ⟨s₁, hlen, hs₁⟩ := fill_full_of_splits 4 [] h (Nat.zero_le 4)
      (by simpa using hshort)
    rw [hlen]
    simp only [List.nil_append, List.length_nil, Nat.sub_zero] at hs₁ ⊢
    split_ifs with hlarge hbody
    · exact ⟨s₁, rfl, hs₁⟩
    · rw [fill_ended_of_splits _ [] hs₁ (by simpa using hbody)]
      exact ⟨[], rfl, .ended⟩
    · obtain ⟨s₂, hfill, hs₂⟩ := fill_full_of_splits (fromLeBytes (bs.take 4)) [] hs₁
        (Nat.zero_le _) (by simpa using hbody)
      rw [hfill]
      simp only [List.nil_append, List.length_nil, Nat.sub_zero] at hs₂ ⊢
      cases parse ((bs.drop 4).take (fromLeBytes (bs.take 4))) with
      | ok frame => exact ⟨s₂, rfl, hs₂⟩
      | error text => exact ⟨s₂, rfl, hs₂⟩

/-! ### Call after call -/

/-- The results of so many calls of `read_frame`. Nothing keeps a caller from calling again after
an error. -/
def frameResults (parse : List UInt8 → Except String ClientFrame) : ℕ → Inbound → List FrameRead
  | 0, _ => []
  | n + 1, s => (readFrame parse s).1 :: frameResults parse n (readFrame parse s).2

/-- The same of the bytes alone. -/
def byteResults (parse : List UInt8 → Except String ClientFrame) : ℕ → List UInt8 → List FrameRead
  | 0, _ => []
  | n + 1, bs => (nextFrame parse bs).1 :: byteResults parse n (nextFrame parse bs).2

theorem frameResults_of_splits (h : Splits s bs) (n : ℕ) :
    frameResults parse n s = byteResults parse n bs := by
  induction n generalizing s bs with
  | zero => rfl
  | succ n ih =>
    obtain ⟨s', hread, hs'⟩ := readFrame_of_splits parse h
    rw [frameResults, byteResults, hread, ih hs']

/-! ### Frames -/

/-- A length and as many bytes. -/
def frame (body : List UInt8) : List UInt8 := toLeBytes 4 body.length ++ body

/-- What the body of a frame is read as. -/
def decodeBody (parse : List UInt8 → Except String ClientFrame) (body : List UInt8) : FrameRead :=
  match parse body with
  | .ok frame => .ok (some frame)
  | .error text => .error (.json text)

/-- `write_frame`, for what `serde_json::to_vec` makes of the frame and a pipe that takes it. -/
def writeFrame (toVec : ServerFrame → Except String (List UInt8)) (f : ServerFrame) :
    Except FrameError (List UInt8) :=
  match toVec f with
  | .error text => .error (.json text)
  | .ok body =>
    if body.length ≥ UInt32.size then .error (.tooLarge (UInt32.size - 1))
    else if body.length > maxFrameBytes then .error (.tooLarge body.length)
    else .ok (toLeBytes 4 body.length ++ body)

/-- What is written is a frame that may be read. -/
theorem writeFrame_eq_ok {toVec : ServerFrame → Except String (List UInt8)} {f : ServerFrame}
    (h : writeFrame toVec f = .ok bs) :
    ∃ body, toVec f = .ok body ∧ body.length ≤ maxFrameBytes ∧ bs = frame body := by
  rw [writeFrame] at h
  cases hbody : toVec f with
  | error text => simp [hbody] at h
  | ok body =>
    simp only [hbody] at h
    split_ifs at h with hwide hlarge
    exact ⟨body, rfl, Nat.not_lt.mp hlarge, (Except.ok.inj h).symm⟩

theorem length_frame (body : List UInt8) : (frame body).length = 4 + body.length := by
  rw [frame, List.length_append, length_toLeBytes]

theorem fromLeBytes_length_of_le {body : List UInt8} (h : body.length ≤ maxFrameBytes) :
    fromLeBytes (toLeBytes 4 body.length) = body.length :=
  fromLeBytes_toLeBytes (h.trans_lt (by decide))

/-- A frame is taken off whole. -/
theorem nextFrame_frame {body : List UInt8} (h : body.length ≤ maxFrameBytes)
    (rest : List UInt8) : nextFrame parse (frame body ++ rest) = (decodeBody parse body, rest) := by
  have hlen := length_toLeBytes 4 body.length
  have htake : (frame body ++ rest).take 4 = toLeBytes 4 body.length := by
    rw [frame, List.append_assoc, List.take_left' hlen]
  have hdrop : (frame body ++ rest).drop 4 = body ++ rest := by
    rw [frame, List.append_assoc, List.drop_left' hlen]
  have hlong : ¬(frame body ++ rest).length < 4 := by
    rw [List.length_append, length_frame]
    omega
  rw [nextFrame, decodeBody]
  rw [if_neg hlong, htake, hdrop, fromLeBytes_length_of_le h, if_neg (Nat.not_lt.mpr h),
    if_neg (by simp), List.take_left, List.drop_left]
  cases parse body <;> rfl

/-- What breaks off within a frame is truncated. -/
theorem nextFrame_of_prefix {body part missing : List UInt8} (h : body.length ≤ maxFrameBytes)
    (hframe : part ++ missing = frame body) (hpart : part ≠ []) (hmissing : missing ≠ []) :
    nextFrame parse part = (.error .truncated, []) := by
  have hlen : part.length + missing.length = 4 + body.length := by
    rw [← List.length_append, hframe, length_frame]
  have hpos : 0 < missing.length := List.length_pos_iff.mpr hmissing
  rw [nextFrame]
  by_cases hshort : part.length < 4
  · rw [if_pos hshort, if_neg hpart]
  · have htake : part.take 4 = toLeBytes 4 body.length := by
      rw [← List.take_append_of_le_length (by omega : 4 ≤ part.length), hframe, frame,
        List.take_left' (length_toLeBytes 4 body.length)]
    have hrest : (part.drop 4).length < body.length := by
      rw [List.length_drop]
      omega
    rw [if_neg hshort, htake, fromLeBytes_length_of_le h, if_neg (Nat.not_lt.mpr h), if_pos hrest]

/-- Of what is too large only the length is taken off. -/
theorem nextFrame_of_tooLarge {len : ℕ} (hlarge : maxFrameBytes < len) (hwidth : len < UInt32.size)
    (rest : List UInt8) :
    nextFrame parse (toLeBytes 4 len ++ rest) = (.error (.tooLarge len), rest) := by
  have hlen := length_toLeBytes 4 len
  have hlong : ¬(toLeBytes 4 len ++ rest).length < 4 := by
    rw [List.length_append, hlen]
    omega
  rw [nextFrame]
  rw [if_neg hlong, List.take_left' hlen, List.drop_left' hlen, fromLeBytes_toLeBytes hwidth,
    if_pos hlarge]

@[simp] theorem nextFrame_nil : nextFrame parse [] = (.ok none, []) := rfl

theorem byteResults_nil (k : ℕ) : byteResults parse k [] = List.replicate k (.ok none) := by
  induction k with
  | zero => rfl
  | succ k ih => rw [byteResults, nextFrame_nil, ih, List.replicate_succ]

/-- Frame after frame is read, and then what follows. -/
theorem byteResults_frames (parse : List UInt8 → Except String ClientFrame)
    {bodies : List (List UInt8)} (h : ∀ body ∈ bodies, body.length ≤ maxFrameBytes) (k : ℕ)
    (rest : List UInt8) :
    byteResults parse (bodies.length + k) (bodies.flatMap frame ++ rest)
      = bodies.map (decodeBody parse) ++ byteResults parse k rest := by
  induction bodies with
  | nil => simp
  | cons body bodies ih =>
    obtain ⟨hbody, hbodies⟩ := List.forall_mem_cons.mp h
    rw [List.flatMap_cons, List.append_assoc, List.length_cons, Nat.add_right_comm, byteResults,
      nextFrame_frame hbody, ih hbodies, List.map_cons, List.cons_append]

/-! ### Allocation -/

/-- `read_frame`, with the lengths of the buffers it allocates. -/
def readFrameAllocs (parse : List UInt8 → Except String ClientFrame) (s : Inbound) :
    (FrameRead × Inbound) × List ℕ :=
  match fill 4 [] s with
  | (.ended got, s) => ((if got = [] then .ok none else .error .truncated, s), [])
  | (.failed text, s) => ((.error (.io text), s), [])
  | (.full lenBuf, s) =>
    let len := fromLeBytes lenBuf
    if len > maxFrameBytes then ((.error (.tooLarge len), s), [])
    else
      match fill len [] s with
      | (.ended _, s) => ((.error .truncated, s), [len])
      | (.failed text, s) => ((.error (.io text), s), [len])
      | (.full body, s) =>
        match parse body with
        | .ok frame => ((.ok (some frame), s), [len])
        | .error text => ((.error (.json text), s), [len])

theorem readFrameAllocs_fst (parse : List UInt8 → Except String ClientFrame) (s : Inbound) :
    (readFrameAllocs parse s).1 = readFrame parse s := by
  rw [readFrameAllocs, readFrame]
  rcases fill 4 [] s with ⟨lenBuf | got | text, s₁⟩
  · dsimp only
    split_ifs with hlarge
    · rfl
    · rcases fill (fromLeBytes lenBuf) [] s₁ with ⟨body | got | text, s₂⟩
      · dsimp only
        cases parse body <;> rfl
      · rfl
      · rfl
  · rfl
  · rfl

/-- What is announced is not allocated before it has been compared with the limit. -/
theorem readFrameAllocs_of_tooLarge {len : ℕ} {rest : List UInt8}
    (h : Splits s (toLeBytes 4 len ++ rest)) (hlarge : maxFrameBytes < len)
    (hwidth : len < UInt32.size) :
    ∃ s', readFrameAllocs parse s = ((.error (.tooLarge len), s'), []) ∧ Splits s' rest := by
  have hlen := length_toLeBytes 4 len
  obtain ⟨s', hfill, hs'⟩ := fill_full_of_splits 4 [] h (Nat.zero_le 4) (by simp [hlen])
  rw [List.length_nil, List.nil_append, List.take_left' hlen] at hfill
  rw [List.length_nil, List.drop_left' hlen] at hs'
  refine ⟨s', ?_, hs'⟩
  rw [readFrameAllocs]
  rw [hfill]
  dsimp only
  rw [fromLeBytes_toLeBytes hwidth, if_pos hlarge]

/-- **Reading frames.** However a stream is split into reads, the results are those of its bytes.
Frames that are not too large are read back in order, and then the stream has ended; one that breaks
off is truncated; and of one that announces too much, nothing is read after its length and nothing
allocated. -/
theorem frame_reading (parse : List UInt8 → Except String ClientFrame) :
    (∀ bs s s', Splits s bs → Splits s' bs →
      ∀ n, frameResults parse n s = frameResults parse n s') ∧
    ∀ bodies : List (List UInt8), (∀ body ∈ bodies, body.length ≤ maxFrameBytes) →
      (∀ s, Splits s (bodies.flatMap frame) →
        ∀ k, frameResults parse (bodies.length + k) s
          = bodies.map (decodeBody parse) ++ List.replicate k (.ok none)) ∧
      (∀ body part missing s, body.length ≤ maxFrameBytes → part ++ missing = frame body →
        part ≠ [] → missing ≠ [] → Splits s (bodies.flatMap frame ++ part) →
          frameResults parse (bodies.length + 1) s
            = bodies.map (decodeBody parse) ++ [.error .truncated]) ∧
      ∀ len rest, maxFrameBytes < len → len < UInt32.size →
        (∀ s, Splits s (bodies.flatMap frame ++ (toLeBytes 4 len ++ rest)) →
          frameResults parse (bodies.length + 1) s
            = bodies.map (decodeBody parse) ++ [.error (.tooLarge len)]) ∧
        ∀ s, Splits s (toLeBytes 4 len ++ rest) → ∃ s',
          readFrameAllocs parse s = ((.error (.tooLarge len), s'), []) ∧ Splits s' rest := by
  refine ⟨fun bs s s' hs hs' n => ?_, fun bodies hbodies => ⟨fun s hs k => ?_,
    fun body part missing s hbody hframe hpart hmissing hs => ?_,
    fun len rest hlarge hwidth => ⟨fun s hs => ?_, fun s hs => ?_⟩⟩⟩
  · rw [frameResults_of_splits hs, frameResults_of_splits hs']
  · have hresults := byteResults_frames parse hbodies k []
    rw [List.append_nil] at hresults
    rw [frameResults_of_splits hs, hresults, byteResults_nil]
  · rw [frameResults_of_splits hs, byteResults_frames parse hbodies 1, byteResults,
      nextFrame_of_prefix hbody hframe hpart hmissing, byteResults]
  · rw [frameResults_of_splits hs, byteResults_frames parse hbodies 1, byteResults,
      nextFrame_of_tooLarge hlarge hwidth, byteResults]
  · exact readFrameAllocs_of_tooLarge hs hlarge hwidth

end Plugin

end WazabiAgent
