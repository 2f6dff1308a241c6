import Mathlib.Tactic.SplitIfs
import WazabiAgent.Lib.Checked
import WazabiAgent.Lib.Fips180

/-!
# The hash of a quarantined file

`control/executor.rs` has a SHA-256 of its own, so as not to depend on a library for it. A hash is
fed with `update`, in pieces of any length, and read with `finalize`.

An index out of range, a slice that is none, a length that does not fit in 64 bits, or a loop that
does not come to its end, is `none`.

## Main definitions

* `Sha256`, `Sha256.update`, `Sha256.finalize` — the hash
* `Sha256.Represents` — what a hash that was fed with a message holds
* `sha256File` — the hash of a file

## Main results

* `digest_of_updates` — it is the digest of FIPS 180-4, however the message was cut
-/

namespace WazabiAgent

namespace Control

open Fips180 (Words8 word)

/-- The state of a digest that takes its input in pieces. -/
structure Sha256 where
  state : List UInt32
  buf : List UInt8
  bufLen : ℕ
  totalLen : UInt64

namespace Sha256

/-! ### The program -/

/-- The round constants. -/
def K : List UInt32 := [
  0x428a2f98, 0x71374491, 0xb5c0fbcf, 0xe9b5dba5, 0x3956c25b, 0x59f111f1, 0x923f82a4, 0xab1c5ed5,
  0xd807aa98, 0x12835b01, 0x243185be, 0x550c7dc3, 0x72be5d74, 0x80deb1fe, 0x9bdc06a7, 0xc19bf174,
  0xe49b69c1, 0xefbe4786, 0x0fc19dc6, 0x240ca1cc, 0x2de92c6f, 0x4a7484aa, 0x5cb0a9dc, 0x76f988da,
  0x983e5152, 0xa831c66d, 0xb00327c8, 0xbf597fc7, 0xc6e00bf3, 0xd5a79147, 0x06ca6351, 0x14292967,
  0x27b70a85, 0x2e1b2138, 0x4d2c6dfc, 0x53380d13, 0x650a7354, 0x766a0abb, 0x81c2c92e, 0x92722c85,
  0xa2bfe8a1, 0xa81a664b, 0xc24b8b70, 0xc76c51a3, 0xd192e819, 0xd6990624, 0xf40e3585, 0x106aa070,
  0x19a4c116, 0x1e376c08, 0x2748774c, 0x34b0bcb5, 0x391c0cb3, 0x4ed8aa4a, 0x5b9cca4f, 0x682e6ff3,
  0x748f82ee, 0x78a5636f, 0x84c87814, 0x8cc70208, 0x90befffa, 0xa4506ceb, 0xbef9a3f7, 0xc67178f2]

/-- The state before any input. -/
def new : Sha256 where
  state := [0x6a09e667, 0xbb67ae85, 0x3c6ef372, 0xa54ff53a, 0x510e527f, 0x9b05688c, 0x1f83d9ab,
    0x5be0cd19]
  buf := List.replicate 64 0
  bufLen := 0
  totalLen := 0

/-- `rotate_right`. -/
def rotateRight (x : UInt32) (n : ℕ) : UInt32 := ⟨x.toBitVec.rotateRight n⟩

/-- `w[i - n]`. -/
def back (w : List UInt32) (i n : ℕ) : Option UInt32 := (Checked.sub i n).bind fun j => w[j]?

/-- `state[i] = state[i].wrapping_add(x)`. -/
def addTo (i : ℕ) (x : UInt32) (state : List UInt32) : Option (List UInt32) :=
  state[i]?.bind fun y => Checked.set state i (y + x)

/-- One turn of the loop that fills `w` with the words of the block. -/
def loadWord (block : List UInt8) (i : ℕ) (w : List UInt32) : Option (List UInt32) := do
  let b0 ← block[i * 4]?
  let b1 ← block[i * 4 + 1]?
  let b2 ← block[i * 4 + 2]?
  let b3 ← block[i * 4 + 3]?
  Checked.set w i (word [b0, b1, b2, b3])

/-- One turn of the loop that goes on with `w`. -/
def extendWord (i : ℕ) (w : List UInt32) : Option (List UInt32) := do
  let w15 ← back w i 15
  let w2 ← back w i 2
  let s0 := rotateRight w15 7 ^^^ rotateRight w15 18 ^^^ (w15 >>> 3)
  let s1 := rotateRight w2 17 ^^^ rotateRight w2 19 ^^^ (w2 >>> 10)
  let w16 ← back w i 16
  let w7 ← back w i 7
  Checked.set w i (w16 + s0 + w7 + s1)

/-- One round. -/
def turn (w : List UInt32) (i : ℕ) (v : Words8) : Option Words8 := do
  let ki ← K[i]?
  let wi ← w[i]?
  let s1 := rotateRight v.e 6 ^^^ rotateRight v.e 11 ^^^ rotateRight v.e 25
  let ch := (v.e &&& v.f) ^^^ (~~~v.e &&& v.g)
  let t1 := v.h + s1 + ch + ki + wi
  let s0 := rotateRight v.a 2 ^^^ rotateRight v.a 13 ^^^ rotateRight v.a 22
  let mj := (v.a &&& v.b) ^^^ (v.a &&& v.c) ^^^ (v.b &&& v.c)
  let t2 := s0 + mj
  some ⟨t1 + t2, v.a, v.b, v.c, v.d + t1, v.e, v.f, v.g⟩

/-- The eight variables, as the state has them. -/
def readState (state : List UInt32) : Option Words8 := do
  let a ← state[0]?
  let b ← state[1]?
  let c ← state[2]?
  let d ← state[3]?
  let e ← state[4]?
  let f ← state[5]?
  let g ← state[6]?
  let h ← state[7]?
  some ⟨a, b, c, d, e, f, g, h⟩

/-- One block; `none` is an index out of bounds. -/
def compress (state : List UInt32) (block : List UInt8) : Option (List UInt32) := do
  let w ← Checked.forRange 0 16 (List.replicate 64 0) (loadWord block)
  let w ← Checked.forRange 16 64 w extendWord
  let v ← readState state
  let v ← Checked.forRange 0 64 v (turn w)
  let state ← addTo 0 v.a state
  let state ← addTo 1 v.b state
  let state ← addTo 2 v.c state
  let state ← addTo 3 v.d state
  let state ← addTo 4 v.e state
  let state ← addTo 5 v.f state
  let state ← addTo 6 v.g state
  addTo 7 v.h state

/-- A buffer that is full is compressed, and begun again. -/
def flush (s : Sha256) : Option Sha256 := do
  let state ← compress s.state s.buf
  some { s with
    state
    bufLen := 0 }

/-- One turn of the loop of `update`: the next index, and the hash. -/
def absorb (data : List UInt8) (i : ℕ) (s : Sha256) : Option (ℕ × Sha256) := do
  let room ← Checked.sub 64 s.bufLen
  let left ← Checked.sub data.length i
  let take := min room left
  let piece ← Checked.slice data i (i + take)
  let buf ← Checked.copyFromSlice s.buf s.bufLen (s.bufLen + take) piece
  let s' := { s with
    buf
    bufLen := s.bufLen + take }
  let s' ← if s'.bufLen = 64 then flush s' else some s'
  some (i + take, s')

/-- The first argument bounds the number of turns. -/
def updateLoop (data : List UInt8) : ℕ → ℕ → Sha256 → Option Sha256
  | 0, _, _ => none
  | fuel + 1, i, s =>
    if i < data.length then do
      let (i, s) ← absorb data i s
      updateLoop data fuel i s
    else some s

/-- `total_len += n as u64`. -/
def addLen (total : UInt64) (n : ℕ) : Option UInt64 :=
  if total.toNat + n < UInt64.size then some (total + UInt64.ofNat n) else none

/-- Takes a piece of the input. -/
def update (s : Sha256) (data : List UInt8) : Option Sha256 := do
  let totalLen ← addLen s.totalLen data.length
  updateLoop data (data.length + 1) 0 { s with totalLen }

/-- Where the length does not fit in the block any more, it goes to one of its own. -/
def makeRoom (s : Sha256) : Option Sha256 :=
  if 56 < s.bufLen then do
    let buf ← Checked.fill s.buf s.bufLen 64 0
    flush { s with buf }
  else some s

/-- The bytes of a length, the highest first. -/
def toBeBytes (n : UInt64) : List UInt8 := (Binary.toLeBytes 8 n.toNat).reverse

/-- One turn of the loop that writes the digest. -/
def writeWord (state : List UInt32) (i : ℕ) (out : List UInt8) : Option (List UInt8) := do
  let w ← state[i]?
  Checked.copyFromSlice out (i * 4) (i * 4 + 4) (Fips180.wordBytes w)

/-- Pads, compresses the last blocks and gives the digest. -/
def finalize (s : Sha256) : Option (List UInt8) := do
  let bitLen := s.totalLen * 8
  let buf ← Checked.set s.buf s.bufLen 0x80
  let s ← makeRoom { s with
    buf
    bufLen := s.bufLen + 1 }
  let buf ← Checked.fill s.buf s.bufLen 56 0
  let buf ← Checked.copyFromSlice buf 56 64 (toBeBytes bitLen)
  let state ← compress s.state buf
  Checked.forRange 0 state.length (List.replicate 32 0) (writeWord state)

/-- The successive calls of `update`. -/
def updates (chunks : List (List UInt8)) : Option Sha256 := chunks.foldlM update new

end Sha256

/-- The digits of `hex`. -/
def hexDigits : List Char := "0123456789abcdef".toList

/-- One turn of the loop of `hex`. -/
def pushHex (s : String) (b : UInt8) : Option String := do
  let high ← hexDigits[(b >>> 4).toNat]?
  let low ← hexDigits[(b &&& 0xf).toNat]?
  some ((s.push high).push low)

/-- The digest in hex digits. -/
def hex (bytes : List UInt8) : Option String := bytes.foldlM pushHex ""

/-- `sha256_file`, given what opening the file yields and the calls of `read` one after the other.
The inner result is that of the function; there is none if a call panics or the file never ends. -/
def hashReads {ε : Type} (s : Sha256) : List (Except ε (List UInt8)) → Option (Except ε String)
  | [] => none
  | .error e :: _ => some (.error e)
  | .ok [] :: _ => s.finalize.bind fun digest => (hex digest).map .ok
  | .ok (b :: bytes) :: reads => (s.update (b :: bytes)).bind fun s' => hashReads s' reads

/-- The digest of a file, from what the opening and the reads answer. -/
def sha256File {ε : Type} (opened : Except ε Unit) (reads : List (Except ε (List UInt8))) :
    Option (Except ε String) :=
  match opened with
  | .error e => some (.error e)
  | .ok () => hashReads Sha256.new reads

namespace Sha256

/-! ### Blocks -/

theorem rotateRight_eq {n : ℕ} (h : n < 32) (x : UInt32) : rotateRight x n = Fips180.rotr n x := by
  rw [rotateRight, Fips180.rotr, BitVec.rotateRight_def, Nat.mod_eq_of_lt h]

/-- The first `n` words of the schedule have been written. -/
def Scheduled (m : List UInt32) (n : ℕ) (w : List UInt32) : Prop :=
  w.length = 64 ∧ ∀ t < n, w[t]? = some (Fips180.schedule m t)

theorem Scheduled.set {m w : List UInt32} {n : ℕ} (h : Scheduled m n w) (hn : n < 64) :
    ∃ w', Checked.set w n (Fips180.schedule m n) = some w' ∧ Scheduled m (n + 1) w' := by
  refine ⟨_, Checked.set_of_lt (by rw [h.1]; exact hn) _, ?_, fun t ht => ?_⟩
  · rw [List.length_set, h.1]
  · rcases Nat.lt_succ_iff_lt_or_eq.mp ht with hlt | rfl
    · rw [List.getElem?_set_ne (by omega), h.2 t hlt]
    · rw [List.getElem?_set_self (by rw [h.1]; exact hn)]

theorem Scheduled.back {m w : List UInt32} {i : ℕ} (h : Scheduled m i w) {n : ℕ} (hpos : 0 < n)
    (hle : n ≤ i) : back w i n = some (Fips180.schedule m (i - n)) := by
  rw [Sha256.back, Checked.sub_of_le hle]
  exact h.2 (i - n) (by omega)

theorem loadWord_spec {bytes : List UInt8} (hbytes : bytes.length = 64) {i : ℕ} (hi : i < 16)
    {w : List UInt32} (h : Scheduled (Fips180.words bytes) i w) :
    ∃ w', loadWord bytes i w = some w' ∧ Scheduled (Fips180.words bytes) (i + 1) w' := by
  have hget (j : ℕ) (hj : j < 4) : ∃ b, bytes[i * 4 + j]? = some b :=
    ⟨_, List.getElem?_eq_getElem (by omega)⟩
  obtain ⟨b0, h0⟩ := hget 0 (by omega)
  obtain ⟨b1, h1⟩ := hget 1 (by omega)
  obtain ⟨b2, h2⟩ := hget 2 (by omega)
  obtain ⟨b3, h3⟩ := hget 3 (by omega)
  have hfour : (bytes.drop (4 * i)).take 4 = [b0, b1, b2, b3] := by
    refine List.ext_getElem? fun j => ?_
    rw [List.getElem?_take, List.getElem?_drop]
    match j with
    | 0 => simpa [Nat.mul_comm] using h0
    | 1 => simpa [Nat.mul_comm] using h1
    | 2 => simpa [Nat.mul_comm] using h2
    | 3 => simpa [Nat.mul_comm] using h3
    | j + 4 => simp
  have hword : Fips180.schedule (Fips180.words bytes) i = Fips180.word [b0, b1, b2, b3] := by
    rw [Fips180.schedule_of_lt hi, ← hfour, Fips180.words]
    simp [List.getD, hi]
  have hload : loadWord bytes i w
      = Checked.set w i (Fips180.schedule (Fips180.words bytes) i) := by
    rw [hword, loadWord, h1, h2, h3, show i * 4 = i * 4 + 0 by omega, h0]
    rfl
  rw [hload]
  exact h.set (by omega)

theorem extendWord_spec {m w : List UInt32} {i : ℕ} (hlo : 16 ≤ i) (hi : i < 64)
    (h : Scheduled m i w) : ∃ w', extendWord i w = some w' ∧ Scheduled m (i + 1) w' := by
  have hnext : extendWord i w = Checked.set w i (Fips180.schedule m i) := by
    rw [extendWord, h.back (n := 15) (by omega) (by omega), h.back (n := 2) (by omega) (by omega),
      h.back (n := 16) (by omega) (by omega), h.back (n := 7) (by omega) (by omega),
      Fips180.schedule_of_ge hlo]
    show Checked.set w i (_ + (_ ^^^ _ ^^^ _) + _ + (_ ^^^ _ ^^^ _)) = _
    simp only [rotateRight_eq, Nat.reduceLT]
    show Checked.set w i (_ + Fips180.sigma0 _ + _ + Fips180.sigma1 _) = _
    congr 1
    ac_rfl
  rw [hnext]
  exact h.set hi

theorem K_eq_constants : K = Fips180.constants := by
  rw [Fips180.constants, Fips180.primes_eq]
  decide +kernel

theorem new_state : new.state = Fips180.initial.toList := by decide +kernel

theorem turn_spec {m w : List UInt32} (h : Scheduled m 64 w) {i : ℕ} (hi : i < 64) (v : Words8) :
    turn w i v = some (Fips180.round (Fips180.constants.getD i 0) (Fips180.schedule m i) v) := by
  have hk : K[i]? = some (Fips180.constants.getD i 0) := by
    have hlen : i < Fips180.constants.length := by rw [← K_eq_constants]; exact hi
    rw [K_eq_constants, List.getD_eq_getElem?_getD, List.getElem?_eq_getElem hlen]
    rfl
  rw [turn, hk, h.2 i hi]
  simp only [rotateRight_eq, Nat.reduceLT]
  rfl

theorem readState_toList (v : Words8) : readState v.toList = some v := rfl

theorem addTo_toList (v x : Words8) :
    (do
      let state ← addTo 0 x.a v.toList
      let state ← addTo 1 x.b state
      let state ← addTo 2 x.c state
      let state ← addTo 3 x.d state
      let state ← addTo 4 x.e state
      let state ← addTo 5 x.f state
      let state ← addTo 6 x.g state
      addTo 7 x.h state) = some (v.add x).toList := rfl

theorem rounds_spec {m w : List UInt32} (h : Scheduled m 64 w) (v : Words8) :
    Checked.forRange 0 64 v (turn w) = some (Fips180.rounds m v 64) := by
  obtain ⟨x, hrun, hx⟩ : ∃ x, Checked.forRange 0 64 v (turn w) = some x ∧
      x = Fips180.rounds m v 64 :=
    Checked.forRange_some (fun i x => x = Fips180.rounds m v i) (by omega) rfl
      fun i x _ hi hx => ⟨_, turn_spec h hi x, by rw [hx, Fips180.rounds]⟩
  rw [hrun, hx]

theorem schedule_spec {bytes : List UInt8} (hbytes : bytes.length = 64) :
    ∃ w₁ w, Checked.forRange 0 16 (List.replicate 64 0) (loadWord bytes) = some w₁ ∧
      Checked.forRange 16 64 w₁ extendWord = some w ∧
        Scheduled (Fips180.words bytes) 64 w := by
  have hempty : Scheduled (Fips180.words bytes) 0 (List.replicate 64 0) :=
    ⟨List.length_replicate, fun t ht => absurd ht (by omega)⟩
  obtain ⟨w₁, hload, h₁⟩ := Checked.forRange_some (Scheduled (Fips180.words bytes))
    (show 0 ≤ 16 by omega) hempty fun i w _ hi h => loadWord_spec hbytes hi h
  obtain ⟨w, hextend, h⟩ := Checked.forRange_some (Scheduled (Fips180.words bytes))
    (show 16 ≤ 64 by omega) h₁ fun i w hlo hi h => extendWord_spec hlo hi h
  exact ⟨w₁, w, hload, hextend, h⟩

theorem compress_eq (v : Words8) {bytes : List UInt8} (hbytes : bytes.length = 64) :
    compress v.toList bytes = some (Fips180.compress (Fips180.words bytes) v).toList := by
  obtain ⟨w₁, w, hload, hextend, h⟩ := schedule_spec hbytes
  simp only [compress, hload, hextend, readState_toList, rounds_spec h, Option.bind_eq_bind,
    Option.bind_some]
  rw [Fips180.compress, Fips180.Words8.add_comm]
  exact addTo_toList v _

/-! ### Messages -/

/-- The buffer holds what follows the blocks that have been compressed. -/
structure Holds (s : Sha256) (n : ℕ) (done pending : List UInt8) : Prop where
  whole : done.length = 64 * n
  state : s.state = (Fips180.hashValue done n).toList
  buf : ∃ free, s.buf = pending ++ free ∧ pending.length + free.length = 64
  bufLen : s.bufLen = pending.length

/-- The state of a hash that was fed with a message. -/
def Fed (s : Sha256) (msg : List UInt8) : Prop :=
  ∃ n done pending, done ++ pending = msg ∧ pending.length < 64 ∧ Holds s n done pending

/-- **What a hash that was fed with a message holds.** -/
def Represents (s : Sha256) (msg : List UInt8) : Prop :=
  Fed s msg ∧ s.totalLen.toNat = msg.length

variable {s : Sha256} {n : ℕ} {done pending msg data : List UInt8}

theorem bufLen_lt_of_fed (h : Fed s msg) : s.bufLen < 64 := by
  obtain ⟨n, done, pending, -, hlt, hs⟩ := h
  rw [hs.bufLen]
  exact hlt

theorem represents_new : Represents new [] := by
  refine ⟨⟨0, [], [], rfl, by decide, rfl, ?_, ⟨_, rfl, by decide⟩, rfl⟩, rfl⟩
  rw [new_state, Fips180.hashValue]

theorem Holds.buf_eq (h : Holds s n done pending) (hfull : pending.length = 64) :
    s.buf = pending := by
  obtain ⟨free, hbuf, hlen⟩ := h.buf
  obtain rfl : free = [] := List.eq_nil_of_length_eq_zero (by omega)
  rw [hbuf, List.append_nil]

/-- How full the buffer is said to be does not matter here. -/
theorem flush_spec (hwhole : done.length = 64 * n)
    (hstate : s.state = (Fips180.hashValue done n).toList) (hfull : s.buf.length = 64) :
    ∃ s', flush s = some s' ∧ Holds s' (n + 1) (done ++ s.buf) [] ∧ s'.totalLen = s.totalLen := by
  have hnext := Fips180.hashValue_block hwhole hfull []
  rw [List.append_nil] at hnext
  rw [flush, hstate, compress_eq _ hfull]
  refine ⟨_, rfl, ⟨?_, ?_, ⟨s.buf, rfl, ?_⟩, rfl⟩, rfl⟩
  · rw [List.length_append, hwhole, hfull]
    omega
  · rw [hnext]
  · rw [hfull]
    rfl

/-- Writing to the buffer where it is free. -/
theorem holds_write (h : Holds s n done pending) {piece : List UInt8}
    (hle : pending.length + piece.length ≤ 64) :
    ∃ buf, Checked.copyFromSlice s.buf s.bufLen (s.bufLen + piece.length) piece = some buf ∧
      Holds { s with
        buf
        bufLen := s.bufLen + piece.length } n done (pending ++ piece) := by
  obtain ⟨free, hbuf, hlen⟩ := h.buf
  refine ⟨pending ++ piece ++ free.drop piece.length, ?_, h.whole, h.state, ⟨_, rfl, ?_⟩, ?_⟩
  · rw [hbuf, h.bufLen, Checked.copyFromSlice_append rfl rfl (by omega)]
  · rw [List.length_append, List.length_drop]
    omega
  · show s.bufLen + piece.length = _
    rw [h.bufLen, List.length_append]

theorem absorb_spec (h : Fed s msg) {i : ℕ} (hi : i < data.length) :
    ∃ take s', absorb data i s = some (i + take, s') ∧ 0 < take ∧ i + take ≤ data.length ∧
      Fed s' (msg ++ (data.drop i).take take) ∧ s'.totalLen = s.totalLen := by
  obtain ⟨n, done, pending, hmsg, hlt, hs⟩ := h
  have hroom : Checked.sub 64 s.bufLen = some (64 - pending.length) := by
    rw [hs.bufLen, Checked.sub_of_le (by omega)]
  have hleft : Checked.sub data.length i = some (data.length - i) := Checked.sub_of_le (by omega)
  obtain ⟨take, htake⟩ : ∃ take, take = min (64 - pending.length) (data.length - i) := ⟨_, rfl⟩
  have hpiece : Checked.slice data i (i + take) = some ((data.drop i).take take) := by
    rw [Checked.slice_of_le (by omega) (by omega), Nat.add_sub_cancel_left]
  have hlen : ((data.drop i).take take).length = take := by
    rw [List.length_take, List.length_drop]
    omega
  obtain ⟨buf, hcopy, hw⟩ := holds_write hs (by rw [hlen]; omega)
  rw [hlen] at hcopy hw
  have hfed : done ++ (pending ++ (data.drop i).take take) = msg ++ (data.drop i).take take := by
    rw [← List.append_assoc, hmsg]
  have hsum : (pending ++ (data.drop i).take take).length = pending.length + take := by
    rw [List.length_append, hlen]
  simp only [absorb, hroom, hleft, ← htake, hpiece, hcopy, Option.bind_eq_bind, Option.bind_some]
  by_cases hfull : s.bufLen + take = 64
  · have hbuf : buf = pending ++ (data.drop i).take take :=
      hw.buf_eq (by rw [hsum, ← hs.bufLen, hfull])
    have hbufLen : buf.length = 64 := by
      rw [hbuf, hsum, ← hs.bufLen, hfull]
    obtain ⟨s', hflush, hs', htotal⟩ := flush_spec hw.whole hw.state hbufLen
    rw [if_pos hfull, hflush]
    refine ⟨take, s', rfl, by omega, by omega, ⟨_, _, _, ?_, by decide, hs'⟩, htotal⟩
    rw [List.append_nil, ← hfed, ← hbuf]
  · rw [if_neg hfull]
    have hbufLen := hs.bufLen
    exact ⟨take, _, rfl, by omega, by omega, ⟨n, done, _, hfed, by omega, hw⟩, rfl⟩

theorem updateLoop_spec {fuel i : ℕ} (hi : i ≤ data.length) (hfuel : data.length - i < fuel)
    (h : Fed s msg) :
    ∃ s', updateLoop data fuel i s = some s' ∧ Fed s' (msg ++ data.drop i) ∧
      s'.totalLen = s.totalLen := by
  induction fuel generalizing i s msg with
  | zero => exact absurd hfuel (by omega)
  | succ fuel ih =>
    rw [updateLoop]
    by_cases hlt : i < data.length
    · obtain ⟨take, s₁, habsorb, hpos, hle, h₁, htotal₁⟩ := absorb_spec h hlt
      obtain ⟨s', hloop, h', htotal⟩ := ih hle (by omega) h₁
      rw [if_pos hlt, habsorb]
      refine ⟨s', hloop, ?_, htotal.trans htotal₁⟩
      rwa [List.append_assoc, ← List.drop_drop, List.take_append_drop] at h'
    · rw [if_neg hlt]
      refine ⟨s, rfl, ?_, rfl⟩
      rwa [List.drop_of_length_le (by omega), List.append_nil]

/-- **An update feeds the hash with its data.** -/
theorem update_spec (h : Represents s msg) (hlen : (msg ++ data).length < 2 ^ 61) :
    ∃ s', update s data = some s' ∧ Represents s' (msg ++ data) := by
  obtain ⟨hfed, htotal⟩ := h
  rw [List.length_append] at hlen
  have hfits : s.totalLen.toNat + data.length < UInt64.size := by
    rw [htotal, UInt64.size]
    omega
  have hstart : Fed { s with totalLen := s.totalLen + UInt64.ofNat data.length } msg := by
    obtain ⟨n, done, pending, hmsg, hlt, hs⟩ := hfed
    exact ⟨n, done, pending, hmsg, hlt, hs.whole, hs.state, hs.buf, hs.bufLen⟩
  obtain ⟨s', hloop, h', htotal'⟩ :=
    updateLoop_spec (Nat.zero_le data.length) (Nat.lt_succ_self _) hstart
  refine ⟨s', ?_, h', ?_⟩
  · rw [update, addLen, if_pos hfits]
    exact hloop
  · rw [htotal', UInt64.toNat_add, UInt64.toNat_ofNat', htotal, List.length_append]
    omega

/-! ### The end of a message -/

/-- Room for the length: either the bytes so far leave it, or zeros fill the block. -/
theorem makeRoom_spec (h : Holds s n done pending) :
    ∃ s' n' done' pending', makeRoom s = some s' ∧ Holds s' n' done' pending' ∧
      pending'.length ≤ 56 ∧
      done' ++ pending' = done ++ pending
        ++ List.replicate (if 56 < pending.length then 64 - pending.length else 0) 0 := by
  rw [makeRoom, h.bufLen]
  split_ifs with hroom
  · obtain ⟨free, hbuf, hlen⟩ := h.buf
    have hfill : Checked.fill s.buf pending.length 64 0
        = some (pending ++ List.replicate (64 - pending.length) 0) := by
      rw [hbuf, Checked.fill_append rfl (show 64 = pending.length + (64 - pending.length) by omega)
        (by omega), List.drop_of_length_le (by omega), List.append_nil]
    have hfull : (pending ++ List.replicate (64 - pending.length) (0 : UInt8)).length = 64 := by
      rw [List.length_append, List.length_replicate]
      omega
    obtain ⟨s', hflush, hs', -⟩ := flush_spec
      (s := { s with buf := pending ++ List.replicate (64 - pending.length) 0 })
      h.whole h.state hfull
    refine ⟨s', _, _, [], ?_, hs', Nat.zero_le _, ?_⟩
    · rw [hfill]
      exact hflush
    · rw [List.append_nil, List.append_assoc]
  · refine ⟨s, n, done, pending, rfl, h, by omega, ?_⟩
    rw [List.replicate_zero, List.append_nil]

theorem finalize_state (h : Holds s n done pending) (hle : pending.length ≤ 56)
    {length : List UInt8} (hlength : length.length = 8) :
    ∃ buf full, Checked.fill s.buf s.bufLen 56 0 = some buf ∧
      Checked.copyFromSlice buf 56 64 length = some full ∧
      compress s.state full
        = some (Fips180.hashValue (done ++ (pending
            ++ List.replicate (56 - pending.length) 0 ++ length)) (n + 1)).toList := by
  obtain ⟨free, hbuf, hlen⟩ := h.buf
  let kept := pending ++ List.replicate (56 - pending.length) (0 : UInt8)
  have hkept : kept.length = 56 := by
    rw [List.length_append, List.length_replicate]
    omega
  have hfill : Checked.fill s.buf s.bufLen 56 0
      = some (kept ++ free.drop (56 - pending.length)) := by
    rw [hbuf, Checked.fill_append h.bufLen
      (show 56 = pending.length + (56 - pending.length) by omega) (by omega)]
  have hrest : (free.drop (56 - pending.length)).length = length.length := by
    rw [List.length_drop]
    omega
  have hcopy : Checked.copyFromSlice (kept ++ free.drop (56 - pending.length)) 56 64 length
      = some (kept ++ length) := by
    rw [Checked.copyFromSlice_append hkept.symm (by omega) (by omega), ← hrest, List.drop_length,
      List.append_nil]
  have hfull : (kept ++ length).length = 64 := by
    rw [List.length_append]
    omega
  have hnext := Fips180.hashValue_block h.whole hfull []
  rw [List.append_nil] at hnext
  exact ⟨_, _, hfill, hcopy, by rw [h.state, compress_eq _ hfull, hnext]⟩

theorem writeWord_spec {v : Words8} {i : ℕ} (hi : i < 8) {out : List UInt8}
    (h : out = (v.toList.take i).flatMap Fips180.wordBytes ++ List.replicate (32 - i * 4) 0) :
    ∃ out', writeWord v.toList i out = some out' ∧
      out' = (v.toList.take (i + 1)).flatMap Fips180.wordBytes
        ++ List.replicate (32 - (i + 1) * 4) 0 := by
  have hlt : i < v.toList.length := hi
  have hbytes (w : UInt32) : (Fips180.wordBytes w).length = 4 := by
    rw [Fips180.wordBytes, List.length_reverse, Binary.length_toLeBytes]
  have hkept : i * 4 = ((v.toList.take i).flatMap Fips180.wordBytes).length := by
    rw [List.length_flatMap, List.map_congr_left fun w _ => hbytes w, List.map_const',
      List.sum_replicate_nat, List.length_take, Nat.min_eq_left (by omega)]
  have hread : v.toList[i]? = some v.toList[i] := List.getElem?_eq_getElem hlt
  refine ⟨_, ?_, rfl⟩
  rw [writeWord, hread]
  show Checked.copyFromSlice out (i * 4) (i * 4 + 4) _ = _
  rw [h, Checked.copyFromSlice_append hkept (by rw [hbytes, ← hkept])
    (by rw [hbytes, List.length_replicate]; omega), hbytes, List.drop_replicate,
    List.take_add_one, hread, List.flatMap_append, show 32 - i * 4 - 4 = 32 - (i + 1) * 4 by omega]
  rfl

theorem digest_spec (v : Words8) :
    Checked.forRange 0 v.toList.length (List.replicate 32 0) (writeWord v.toList)
      = some (v.toList.flatMap Fips180.wordBytes) := by
  obtain ⟨out, hrun, hout⟩ : ∃ out, Checked.forRange 0 8 (List.replicate 32 0)
      (writeWord v.toList) = some out ∧
        out = (v.toList.take 8).flatMap Fips180.wordBytes ++ List.replicate (32 - 8 * 4) 0 :=
    Checked.forRange_some (fun i out => out = (v.toList.take i).flatMap Fips180.wordBytes
      ++ List.replicate (32 - i * 4) 0) (by omega) rfl fun i out _ hi h => writeWord_spec hi h
  rw [hout] at hrun
  exact hrun.trans (congrArg some (List.append_nil _))

/-- The zeros that fill the block, and those before the length. -/
theorem zeros_eq {n' : ℕ} {done' pending' : List UInt8} (hwhole : done.length = 64 * n)
    (hwhole' : done'.length = 64 * n') (hlt : pending.length < 64) (hle : pending'.length ≤ 56)
    (hpadded : done' ++ pending' = done ++ (pending ++ [0x80]) ++ List.replicate
      (if 56 < (pending ++ [(0x80 : UInt8)]).length then 64 - (pending ++ [(0x80 : UInt8)]).length
        else 0) 0) :
    (if 56 < (pending ++ [(0x80 : UInt8)]).length then 64 - (pending ++ [(0x80 : UInt8)]).length
        else 0) + (56 - pending'.length) = Fips180.zeros (done ++ pending).length := by
  have hlen := congrArg List.length hpadded
  simp only [List.length_append, List.length_replicate, List.length_singleton] at hlen ⊢
  rw [Fips180.zeros]
  split_ifs at hlen ⊢ <;> omega

/-- **The digest of the message.** -/
theorem finalize_spec (h : Represents s msg) (hlen : msg.length < 2 ^ 61) :
    finalize s = some (Fips180.sha256 msg) := by
  obtain ⟨⟨n, done, pending, rfl, hlt, hs⟩, htotal⟩ := h
  obtain ⟨free, hbuf, hfree⟩ := hs.buf
  obtain ⟨y, free, rfl⟩ : ∃ y free', free = y :: free' := by
    refine List.exists_cons_of_ne_nil fun hnil => ?_
    rw [hnil, List.length_nil] at hfree
    omega
  have hset : Checked.set s.buf s.bufLen 0x80 = some (pending ++ 0x80 :: free) := by
    rw [hbuf, hs.bufLen, Checked.set_append]
  have hmarked : Holds { s with
      buf := pending ++ 0x80 :: free
      bufLen := s.bufLen + 1 } n done (pending ++ [0x80]) := by
    refine ⟨hs.whole, hs.state, ⟨free, ?_, ?_⟩, ?_⟩
    · rw [List.append_assoc, List.singleton_append]
    · rw [List.length_append, List.length_singleton]
      rw [List.length_cons] at hfree
      omega
    · show s.bufLen + 1 = _
      rw [hs.bufLen, List.length_append, List.length_singleton]
  obtain ⟨s', n', done', pending', hroom, hs', hle, hpadded⟩ := makeRoom_spec hmarked
  have hbytes : (toBeBytes (s.totalLen * 8)).length = 8 := by
    rw [toBeBytes, List.length_reverse, Binary.length_toLeBytes]
  obtain ⟨buf, full, hfill, hcopy, hcompress⟩ := finalize_state hs' hle hbytes
  have hbits : (s.totalLen * 8).toNat = 8 * (done ++ pending).length := by
    rw [UInt64.toNat_mul, htotal]
    show _ * 8 % 2 ^ 64 = _
    omega
  have hpad : done' ++ (pending' ++ List.replicate (56 - pending'.length) 0
      ++ toBeBytes (s.totalLen * 8)) = Fips180.pad (done ++ pending) := by
    rw [Fips180.pad, ← zeros_eq hs.whole hs'.whole hlt hle hpadded, List.replicate_add,
      List.append_assoc, ← List.append_assoc done', hpadded, toBeBytes, hbits]
    simp only [List.append_assoc, List.cons_append, List.nil_append]
  have hblocks : (Fips180.pad (done ++ pending)).length / 64 = n' + 1 := by
    rw [← hpad]
    simp only [List.length_append, List.length_replicate, hs'.whole, hbytes]
    omega
  simp only [finalize, hset, hroom, hfill, hcopy, hcompress, Option.bind_eq_bind,
    Option.bind_some, digest_spec]
  rw [hpad, Fips180.sha256, hblocks]

/-! ### Every message, cut in any way -/

theorem updates_spec {chunks : List (List UInt8)} (h : Represents s msg)
    (hlen : (msg ++ chunks.flatten).length < 2 ^ 61) :
    ∃ s', chunks.foldlM update s = some s' ∧ Represents s' (msg ++ chunks.flatten) := by
  induction chunks generalizing s msg with
  | nil => exact ⟨s, rfl, by rwa [List.flatten_nil, List.append_nil]⟩
  | cons data chunks ih =>
    rw [List.flatten_cons, ← List.append_assoc] at hlen ⊢
    have hshort : (msg ++ data).length < 2 ^ 61 := by
      rw [List.length_append] at hlen
      omega
    obtain ⟨s₁, hupdate, h₁⟩ := update_spec h hshort
    obtain ⟨s', hrun, h'⟩ := ih h₁ hlen
    exact ⟨s', by rw [List.foldlM_cons, hupdate]; exact hrun, h'⟩

theorem length_flatten_take_le (chunks : List (List UInt8)) (n : ℕ) :
    (chunks.take n).flatten.length ≤ chunks.flatten.length := by
  have happend : chunks.flatten = (chunks.take n).flatten ++ (chunks.drop n).flatten := by
    rw [← List.flatten_append, List.take_append_drop]
  rw [happend, List.length_append]
  omega

/-- **The hash of a message is its digest, however it was cut.** No call panics, and between two of
them the buffer is never full. -/
theorem digest_of_updates {chunks : List (List UInt8)} (hlen : chunks.flatten.length < 2 ^ 61) :
    (∀ n, ∃ s, updates (chunks.take n) = some s ∧ s.bufLen < 64) ∧
      (updates chunks).bind finalize = some (Fips180.sha256 chunks.flatten) := by
  constructor
  · intro n
    have hshort := Nat.lt_of_le_of_lt (length_flatten_take_le chunks n) hlen
    obtain ⟨s, hrun, h⟩ := updates_spec represents_new hshort
    exact ⟨s, hrun, bufLen_lt_of_fed h.1⟩
  · obtain ⟨s, hrun, h⟩ := updates_spec represents_new hlen
    rw [updates, hrun]
    exact finalize_spec h hlen

theorem digest_of_abc :
    (updates [[0x61], [], [0x62, 0x63]]).bind finalize
      = some (Fips180.sha256 [0x61, 0x62, 0x63]) :=
  (digest_of_updates
    (by decide : ([[0x61], [], [0x62, 0x63]] : List (List UInt8)).flatten.length < 2 ^ 61)).2

example : ((updates [[0x61], [], [0x62, 0x63]]).bind finalize).bind hex
    = some "ba7816bf8f01cfea414140de5dae2223b00361a396177a9cb410ff61f20015ad" := by
  decide +kernel

end Sha256

/-! ### Files -/

/-- The two digits of a byte. -/
def hexByte (b : UInt8) : List Char := [(b.toNat / 16).digitChar, (b.toNat % 16).digitChar]

/-- What `hex` computes, as a function. -/
def hexText (bytes : List UInt8) : String := String.ofList (bytes.flatMap hexByte)

theorem hexDigits_of_lt {n : ℕ} (h : n < 16) : hexDigits[n]? = some n.digitChar :=
  (by decide +kernel : ∀ n < 16, hexDigits[n]? = some n.digitChar) n h

theorem pushHex_spec (s : String) (b : UInt8) :
    pushHex s b = some (s ++ String.ofList (hexByte b)) := by
  have hhigh : (b >>> 4).toNat = b.toNat / 16 := by
    rw [UInt8.toNat_shiftRight, Nat.shiftRight_eq_div_pow]
    rfl
  have hlow : (b &&& 0xf).toNat = b.toNat % 16 := by
    rw [UInt8.toNat_and]
    exact Nat.and_two_pow_sub_one_eq_mod b.toNat 4
  have hlt : b.toNat / 16 < 16 := by
    have := b.toNat_lt
    omega
  rw [pushHex, hhigh, hlow, hexDigits_of_lt hlt, hexDigits_of_lt (by omega)]
  refine congrArg some (String.toList_inj.mp ?_)
  simp [hexByte, String.toList_append, String.toList_push]

theorem hex_spec (bytes : List UInt8) : hex bytes = some (hexText bytes) := by
  have hrun (s : String) : bytes.foldlM pushHex s = some (s ++ hexText bytes) := by
    induction bytes generalizing s with
    | nil => simp [hexText]
    | cons b bytes ih =>
      rw [List.foldlM_cons, pushHex_spec]
      refine (ih _).trans (congrArg some (String.toList_inj.mp ?_))
      simp [hexText, String.toList_append]
  rw [hex, hrun]
  simp

theorem hashReads_spec {ε : Type} {s : Sha256} {msg : List UInt8} {chunks : List (List UInt8)}
    (h : s.Represents msg) (hchunks : ∀ c ∈ chunks, c ≠ [])
    (hlen : (msg ++ chunks.flatten).length < 2 ^ 61) (later : List (Except ε (List UInt8))) :
    hashReads s (chunks.map Except.ok ++ .ok [] :: later)
      = some (.ok (hexText (Fips180.sha256 (msg ++ chunks.flatten)))) := by
  induction chunks generalizing s msg with
  | nil =>
    rw [List.flatten_nil, List.append_nil] at hlen ⊢
    show (s.finalize.bind fun digest => (hex digest).map Except.ok) = _
    rw [Sha256.finalize_spec h hlen, Option.bind_some, hex_spec]
    rfl
  | cons c chunks ih =>
    rw [List.flatten_cons, ← List.append_assoc] at hlen ⊢
    have hshort : (msg ++ c).length < 2 ^ 61 := by
      rw [List.length_append] at hlen
      omega
    obtain ⟨s', hupdate, h'⟩ := Sha256.update_spec h hshort
    have hrest := ih h' (fun d hd => hchunks d (List.mem_cons_of_mem _ hd)) hlen
    obtain ⟨b, bytes, rfl⟩ := List.exists_cons_of_ne_nil (hchunks c List.mem_cons_self)
    show (s.update (b :: bytes)).bind _ = _
    rw [hupdate]
    exact hrest

/-- The hash of a file that is read to its end is the digest of its bytes. -/
theorem sha256File_spec {ε : Type} {chunks : List (List UInt8)} (hchunks : ∀ c ∈ chunks, c ≠ [])
    (hlen : chunks.flatten.length < 2 ^ 61) (later : List (Except ε (List UInt8))) :
    sha256File (.ok ()) (chunks.map Except.ok ++ .ok [] :: later)
      = some (.ok (hexText (Fips180.sha256 chunks.flatten))) :=
  hashReads_spec Sha256.represents_new hchunks hlen later

end Control

end WazabiAgent
