import WazabiAgent.Lib.Binary
import WazabiAgent.Lib.JsonText
import WazabiAgent.Plugin.Handshake

/-!
# The plugin wire format

A frame is a length (32 bits, little endian) and a JSON document of that many bytes. `readFrame`
reads one frame off a pipe that delivers its bytes in whatever pieces it likes.

The inbound side of a connection is the list of what its reads will find. A read with room for
fewer bytes than there are takes as many as fit, and the next one continues. After the list the
pipe is broken, which `PipeStream::read` reports as zero bytes; a read may find zero bytes earlier
as well, since a peer can write an empty message.

What `serde_json` makes of the body of a frame is the parameter `parse`.

## Main definitions

* `Plugin.ClientFrame`, `ServerFrame` — the frames
* `Plugin.fill`, `readFrame` — reading
* `Plugin.frameReads` — the results of reading frames until the first that is not one
-/

namespace WazabiAgent

namespace Plugin

open Binary (fromLeBytes)

/-! ### Frames -/

/-- A telemetry record. -/
structure Event where
  seq : UInt64
  /-- The plugin's claim, which the agent does not use for ordering. -/
  tsUnixNs : UInt64
  kind : String
  payload : Json.Value

/-- What a plugin sends. -/
inductive ClientFrame
  | hello (h : Hello)
  | event (ev : Event)
  | heartbeat (seq : UInt64)
  | goodbye

/-- `MAX_FRAME_BYTES`. -/
def maxFrameBytes : ℕ := 1 * 1024 * 1024

/-- The answer to a Hello that is accepted. -/
structure HelloAck where
  sessionId : String
  serverVersion : String
  maxPayloadBytes : ℕ
  heartbeatSec : ℕ
  deriving DecidableEq

/-- What the agent sends. -/
inductive ServerFrame
  | helloAck (ack : HelloAck)
  | reject (reason : String)
  deriving DecidableEq

/-! ### Reading -/

/-- What one `read` on the pipe returns. -/
inductive ReadResult
  /-- The bytes that are there; none of them is `Ok(0)`. -/
  | ok (bytes : List UInt8)
  /-- `ErrorKind::Interrupted`. -/
  | interrupted
  | error (text : String)

/-- What the reads of the pipe answer, one after the other. -/
abbrev Inbound := List ReadResult

/-- How many bytes are still to come. -/
def Inbound.size : Inbound → ℕ
  | [] => 0
  | .ok bytes :: s => bytes.length + Inbound.size s
  | .interrupted :: s | .error _ :: s => Inbound.size s

/-- How an attempt to fill a buffer ends. -/
inductive Filled
  | full (buf : List UInt8)
  /-- A read of zero bytes. -/
  | ended (got : List UInt8)
  | failed (text : String)

/-- `while got < n { r.read(..) }`, the loop of `read_exact_or_truncated` and of the length in
`read_frame`. -/
def fill (n : ℕ) (got : List UInt8) : Inbound → Filled × Inbound
  | [] => if n ≤ got.length then (.full got, []) else (.ended got, [])
  | r :: s =>
    if n ≤ got.length then (.full got, r :: s)
    else
      match r with
      | .ok bytes =>
        let room := n - got.length
        if bytes = [] then (.ended got, s)
        else if bytes.length ≤ room then fill n (got ++ bytes) s
        else (.full (got ++ bytes.take room), .ok (bytes.drop room) :: s)
      | .interrupted => fill n got s
      | .error text => (.failed text, s)

/-- Why a frame could not be read. -/
inductive FrameError
  | io (text : String)
  | tooLarge (len : ℕ)
  | json (text : String)
  | truncated
  deriving DecidableEq

/-- What `read_frame` returns: a frame, `Ok(None)`, or an error. -/
abbrev FrameRead := Except FrameError (Option ClientFrame)

/-- `read_frame`. -/
def readFrame (parse : List UInt8 → Except String ClientFrame) (s : Inbound) :
    FrameRead × Inbound :=
  match fill 4 [] s with
  | (.ended got, s) => (if got = [] then .ok none else .error .truncated, s)
  | (.failed text, s) => (.error (.io text), s)
  | (.full lenBuf, s) =>
    let len := fromLeBytes lenBuf
    if len > maxFrameBytes then (.error (.tooLarge len), s)
    else
      match fill len [] s with
      | (.ended _, s) => (.error .truncated, s)
      | (.failed text, s) => (.error (.io text), s)
      | (.full body, s) =>
        match parse body with
        | .ok frame => (.ok (some frame), s)
        | .error text => (.error (.json text), s)

/-! ### Progress -/

/-- A filled buffer holds what it was asked for, and its bytes are gone from the pipe. -/
theorem fill_full {n : ℕ} {got buf : List UInt8} {s s' : Inbound}
    (h : fill n got s = (.full buf, s')) :
    n ≤ buf.length ∧ buf.length + Inbound.size s' = got.length + Inbound.size s := by
  induction s generalizing got with
  | nil =>
    simp only [fill] at h
    split_ifs at h with hn
    · obtain ⟨rfl, rfl⟩ := Prod.mk.inj h |>.imp Filled.full.inj id
      exact ⟨hn, rfl⟩
    · simp at h
  | cons r s ih =>
    simp only [fill] at h
    split_ifs at h with hn
    · obtain ⟨rfl, rfl⟩ := Prod.mk.inj h |>.imp Filled.full.inj id
      exact ⟨hn, rfl⟩
    · cases r with
      | error text => simp at h
      | interrupted => exact ih h
      | ok bytes =>
        dsimp only at h
        split_ifs at h with hempty hfit
        · simp at h
        · obtain ⟨hlen, hsize⟩ := ih h
          simp only [List.length_append, Inbound.size] at hsize ⊢
          exact ⟨hlen, by omega⟩
        · obtain ⟨rfl, rfl⟩ := Prod.mk.inj h |>.imp Filled.full.inj id
          simp only [List.length_append, List.length_take, Inbound.size, List.length_drop]
          omega

/-- The second buffer only takes bytes away. -/
theorem size_fill_le (n : ℕ) (got : List UInt8) (s : Inbound) (hgot : got.length ≤ n) :
    Inbound.size (fill n got s).2 ≤ Inbound.size s := by
  induction s generalizing got with
  | nil => simp only [fill]; split_ifs <;> rfl
  | cons r s ih =>
    simp only [fill]
    split_ifs with hn
    · rfl
    · cases r with
      | error text => exact le_of_eq rfl
      | interrupted => exact ih got hgot
      | ok bytes =>
        dsimp only
        split_ifs with hempty hfit
        · simp [Inbound.size]
        · have := ih (got ++ bytes) (by simp only [List.length_append]; omega)
          simp only [Inbound.size]
          omega
        · simp only [Inbound.size, List.length_drop]
          omega

/-- Every frame takes its length off the pipe. -/
theorem size_lt_of_readFrame {parse : List UInt8 → Except String ClientFrame} {s s' : Inbound}
    {frame : ClientFrame} (h : readFrame parse s = (.ok (some frame), s')) :
    Inbound.size s' < Inbound.size s := by
  unfold readFrame at h
  cases hfill : fill 4 [] s with
  | mk filled rest =>
    cases filled with
    | ended got => simp only [hfill] at h; split_ifs at h <;> simp at h
    | failed text => simp [hfill] at h
    | full lenBuf =>
      obtain ⟨hlen, hsize⟩ := fill_full hfill
      have hbody := size_fill_le (fromLeBytes lenBuf) [] rest (Nat.zero_le _)
      simp only [hfill] at h
      split_ifs at h with hlarge
      · simp at h
      · cases hfill' : fill (fromLeBytes lenBuf) [] rest with
        | mk filled' rest' =>
          rw [hfill'] at hbody
          simp only [List.length_nil, Nat.zero_add] at hsize hbody
          cases filled' with
          | ended got => simp [hfill'] at h
          | failed text => simp [hfill'] at h
          | full body =>
            simp only [hfill'] at h
            cases hparse : parse body with
            | error text => simp [hparse] at h
            | ok f =>
              simp only [hparse, Prod.mk.injEq] at h
              rw [← h.2]
              omega

/-- The results of successive calls of `read_frame`, up to and including the first that is not a
frame. -/
def frameReads (parse : List UInt8 → Except String ClientFrame) (s : Inbound) : List FrameRead :=
  match _h : readFrame parse s with
  | (.ok (some frame), s') => .ok (some frame) :: frameReads parse s'
  | (r, _) => [r]
termination_by Inbound.size s
decreasing_by exact size_lt_of_readFrame _h

variable {parse : List UInt8 → Except String ClientFrame} {s s' : Inbound}

theorem frameReads_of_frame {frame : ClientFrame}
    (h : readFrame parse s = (.ok (some frame), s')) :
    frameReads parse s = .ok (some frame) :: frameReads parse s' := by
  rw [frameReads, h]

theorem frameReads_of_closed (h : readFrame parse s = (.ok none, s')) :
    frameReads parse s = [.ok none] := by
  rw [frameReads, h]

theorem frameReads_of_error {e : FrameError} (h : readFrame parse s = (.error e, s')) :
    frameReads parse s = [.error e] := by
  rw [frameReads, h]

end Plugin

end WazabiAgent
