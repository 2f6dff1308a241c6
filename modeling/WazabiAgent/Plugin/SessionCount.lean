import Mathlib.Data.List.Count
import WazabiAgent.Lib.Transition

/-!
# Counting the sessions

`accept_loop` (`plugin/server.rs`) starts a worker thread for each client that connects, and at
most `MAX_CONCURRENT_SESSIONS` of them at a time. It keeps count in `active_sessions`: the acceptor
adds one before it knows what will become of the connection. The one is given back in three places,
by the acceptor when it refuses the client, by the acceptor when the thread cannot be spawned, and
by the worker as the last thing it does.

The acceptor and the workers are interleaved at their accesses to the counter. A worker is *live*
from its spawn until it has given its one back. A worker that panics takes the agent with it, since
the release build aborts. The counter is a machine word, so a decrement at zero would wrap; what the
counter is compared with is therefore its value as a number.

## Ghost state

`clients` records of each connection the value that `fetch_add` returned, how often the reject was
written or tried, and how many workers were started for it.

## Main definitions

* `Sessions`, `Sessions.step` — acceptor, workers and counter
* `Sessions.Accounts` — what the counter and the records have to say of each other

## Main results

* `accounts_of_run` — they do, in every reachable state
-/

namespace WazabiAgent

namespace Plugin

open LabelledStep

/-- `MAX_CONCURRENT_SESSIONS`. -/
def maxConcurrentSessions : UInt64 := 64

/-- Where the acceptor is. A pipe instance is named by a number of its own. -/
inductive AcceptPlace
  /-- At the head of the loop, or asleep after a pipe that could not be created. -/
  | head
  /-- In `wait_for_client`. -/
  | listening (pipe : ℕ)
  /-- Before the `fetch_add`. -/
  | accepted (pipe : ℕ)
  /-- After it, with the value it returned. -/
  | counted (pipe : ℕ) (count : UInt64)
  /-- The count is given back; before `write_reject`. -/
  | refusing (pipe : ℕ)
  | spawning (pipe : ℕ)
  /-- Before the count is given back. -/
  | spawnFailed (pipe : ℕ)
  /-- Before the pipe is disconnected and closed. -/
  | closing (pipe : ℕ)
  | exited
  deriving DecidableEq

namespace AcceptPlace

/-- What the counter has of the acceptor. -/
def held : AcceptPlace → ℕ
  | .counted _ _ | .spawning _ | .spawnFailed _ => 1
  | _ => 0

/-- What will be a worker's if the spawn succeeds. -/
def reserved : AcceptPlace → ℕ
  | .spawning _ | .spawnFailed _ => 1
  | _ => 0

/-- The pipe in hand, with a client that has neither its reject nor its worker yet. -/
def hand : AcceptPlace → Option ℕ
  | .listening pipe | .accepted pipe | .counted pipe _ | .refusing pipe
  | .spawning pipe => some pipe
  | _ => none

/-- The pipe of a client that may still be rejected. -/
def deciding : AcceptPlace → Option ℕ
  | .counted pipe _ | .refusing pipe => some pipe
  | _ => none

end AcceptPlace

/-- A worker; `closed` says that its session is over and its pipe closed. -/
structure Worker where
  pipe : ℕ
  closed : Bool
  deriving DecidableEq

/-- What is recorded of a connection. -/
structure Client where
  found : Option UInt64 := none
  rejects : ℕ := 0
  workers : ℕ := 0
  deriving DecidableEq

/-- A record that is complete: nothing, a reject, or what followed a count below the limit. -/
def Client.Settled (c : Client) : Prop :=
  c = {} ∨ (∃ n : UInt64, 64 ≤ n.toNat ∧ c = { found := some n, rejects := 1 }) ∨
    ∃ (n : UInt64) (k : ℕ), n.toNat < 64 ∧ c = { found := some n, workers := k }

/-- The record of the client in hand. -/
def AcceptPlace.Expects : AcceptPlace → Client → Prop
  | .listening _, c | .accepted _, c => c = {}
  | .counted _ n, c => c = { found := some n }
  | .refusing _, c => ∃ n : UInt64, 64 ≤ n.toNat ∧ c = { found := some n }
  | .spawning _, c => ∃ n : UInt64, n.toNat < 64 ∧ c = { found := some n }
  | _, _ => True

/-- The acceptor, the workers and the counters they share. -/
structure Sessions where
  place : AcceptPlace := .head
  activeSessions : UInt64 := 0
  sessionsAccepted : ℕ := 0
  sessionsRejected : ℕ := 0
  shutdown : Bool := false
  nextPipe : ℕ := 0
  /-- The live workers. -/
  workers : List Worker := []
  /-- By pipe. -/
  clients : ℕ → Client := fun _ => {}

namespace Sessions

/-- A record changes. -/
def note (s : Sessions) (pipe : ℕ) (c : Client) : ℕ → Client := Function.update s.clients pipe c

/-- What `wait_for_client` returns. -/
inductive ClientWait
  | connected
  /-- `Ok(false)`. -/
  | shutdown
  | failed
  deriving DecidableEq

/-- What happens next. -/
inductive Label
  /-- The acceptor, at the head of its loop. -/
  | create (ok : Bool)
  | client (o : ClientWait)
  /-- The acceptor, with a client. `spawned` is the operating system's part. -/
  | accept (spawned : Bool)
  /-- `handle_session` returns, and the worker closes its pipe. -/
  | sessionEnds (pipe : ℕ)
  /-- A worker gives its count back. -/
  | leave (pipe : ℕ)
  | raiseShutdown
  deriving DecidableEq

/-- The acceptor's steps with a client in hand. -/
def accept (s : Sessions) (spawned : Bool) : AcceptPlace → Option Sessions
  | .accepted pipe =>
    some { s with
      place := .counted pipe s.activeSessions
      activeSessions := s.activeSessions + 1
      clients := s.note pipe { s.clients pipe with found := some s.activeSessions } }
  | .counted pipe count =>
    if maxConcurrentSessions ≤ count then
      some { s with
        place := .refusing pipe
        activeSessions := s.activeSessions - 1
        sessionsRejected := s.sessionsRejected + 1 }
    else some { s with place := .spawning pipe }
  | .refusing pipe =>
    some { s with
      place := .closing pipe
      clients := s.note pipe { s.clients pipe with rejects := (s.clients pipe).rejects + 1 } }
  | .spawning pipe =>
    if spawned then
      some { s with
        place := .head
        workers := ⟨pipe, false⟩ :: s.workers
        clients := s.note pipe { s.clients pipe with workers := (s.clients pipe).workers + 1 } }
    else some { s with place := .spawnFailed pipe }
  | .spawnFailed pipe =>
    some { s with place := .closing pipe, activeSessions := s.activeSessions - 1 }
  | .closing _ => some { s with place := .head }
  | .head | .listening _ | .exited => none

/-- One step of the acceptor or of a worker. -/
def step (s : Sessions) : Label → Option Sessions
  | .create ok =>
    match s.place with
    | .head =>
      if s.shutdown then some { s with place := .exited }
      else if ok then
        some { s with place := .listening s.nextPipe, nextPipe := s.nextPipe + 1 }
      else some s
    | _ => none
  | .client o =>
    match s.place, o with
    | .listening pipe, .connected =>
      some { s with place := .accepted pipe, sessionsAccepted := s.sessionsAccepted + 1 }
    | .listening _, .shutdown => if s.shutdown then some { s with place := .head } else none
    | .listening _, .failed => some { s with place := .head }
    | _, _ => none
  | .accept spawned => s.accept spawned s.place
  | .sessionEnds pipe =>
    if ⟨pipe, false⟩ ∈ s.workers then
      some { s with workers := ⟨pipe, true⟩ :: s.workers.erase ⟨pipe, false⟩ }
    else none
  | .leave pipe =>
    if ⟨pipe, true⟩ ∈ s.workers then
      some { s with
        workers := s.workers.erase ⟨pipe, true⟩
        activeSessions := s.activeSessions - 1 }
    else none
  | .raiseShutdown => some { s with shutdown := true }

/-- The server comes up. -/
def start : Sessions := {}

/-! ### What has to hold -/

/-- The accounts are in order. -/
structure Accounts (s : Sessions) : Prop where
  /-- The counter has the live workers, and one more where the acceptor is amid an accept. -/
  active : s.activeSessions.toNat = s.workers.length + s.place.held
  held_le : s.place.held ≤ 1
  limit : s.workers.length ≤ 64
  /-- It has never wrapped. -/
  bounded : s.activeSessions.toNat ≤ 65
  /-- A client that came at the limit gets no worker and, once the acceptor is past it, exactly
  one reject. -/
  refused : ∀ pipe count, (s.clients pipe).found = some count → 64 ≤ count.toNat →
    (s.clients pipe).workers = 0 ∧
      (s.clients pipe).rejects = if s.place.deciding = some pipe then 0 else 1
  /-- Nobody else gets one. -/
  rejected : ∀ pipe, (s.clients pipe).rejects ≠ 0 →
    ∃ count, (s.clients pipe).found = some count ∧ 64 ≤ count.toNat
  /-- Without workers the counter is back at zero. -/
  idle : s.workers = [] → s.place.held = 0 → s.activeSessions = 0

variable {s t : Sessions} {l : Label}

/-! ### Moves -/

/-- All that a step can be. -/
inductive Does (s : Sessions) : Label → Sessions → Prop
  | exit {ok : Bool} (hplace : s.place = .head) : s.Does (.create ok) { s with place := .exited }
  | create (hplace : s.place = .head) :
    s.Does (.create true) { s with place := .listening s.nextPipe, nextPipe := s.nextPipe + 1 }
  | retry : s.Does (.create false) s
  | connect {pipe : ℕ} (hplace : s.place = .listening pipe) :
    s.Does (.client .connected) { s with
      place := .accepted pipe, sessionsAccepted := s.sessionsAccepted + 1 }
  | giveUp {o : ClientWait} {pipe : ℕ} (hplace : s.place = .listening pipe) :
    s.Does (.client o) { s with place := .head }
  | count {spawned : Bool} {pipe : ℕ} (hplace : s.place = .accepted pipe) :
    s.Does (.accept spawned) { s with
      place := .counted pipe s.activeSessions
      activeSessions := s.activeSessions + 1
      clients := s.note pipe { s.clients pipe with found := some s.activeSessions } }
  | refuse {spawned : Bool} {pipe : ℕ} {count : UInt64} (hplace : s.place = .counted pipe count)
    (hlimit : 64 ≤ count.toNat) :
    s.Does (.accept spawned) { s with
      place := .refusing pipe
      activeSessions := s.activeSessions - 1
      sessionsRejected := s.sessionsRejected + 1 }
  | reserve {spawned : Bool} {pipe : ℕ} {count : UInt64} (hplace : s.place = .counted pipe count)
    (hroom : count.toNat < 64) : s.Does (.accept spawned) { s with place := .spawning pipe }
  | reject {spawned : Bool} {pipe : ℕ} (hplace : s.place = .refusing pipe) :
    s.Does (.accept spawned) { s with
      place := .closing pipe
      clients := s.note pipe { s.clients pipe with rejects := (s.clients pipe).rejects + 1 } }
  | spawn {pipe : ℕ} (hplace : s.place = .spawning pipe) :
    s.Does (.accept true) { s with
      place := .head
      workers := ⟨pipe, false⟩ :: s.workers
      clients := s.note pipe { s.clients pipe with workers := (s.clients pipe).workers + 1 } }
  | spawnFails {pipe : ℕ} (hplace : s.place = .spawning pipe) :
    s.Does (.accept false) { s with place := .spawnFailed pipe }
  | giveBack {spawned : Bool} {pipe : ℕ} (hplace : s.place = .spawnFailed pipe) :
    s.Does (.accept spawned) { s with
      place := .closing pipe, activeSessions := s.activeSessions - 1 }
  | close {spawned : Bool} {pipe : ℕ} (hplace : s.place = .closing pipe) :
    s.Does (.accept spawned) { s with place := .head }
  | sessionEnds {pipe : ℕ} (hmem : ⟨pipe, false⟩ ∈ s.workers) :
    s.Does (.sessionEnds pipe) { s with
      workers := ⟨pipe, true⟩ :: s.workers.erase ⟨pipe, false⟩ }
  | leave {pipe : ℕ} (hmem : ⟨pipe, true⟩ ∈ s.workers) :
    s.Does (.leave pipe) { s with
      workers := s.workers.erase ⟨pipe, true⟩
      activeSessions := s.activeSessions - 1 }
  | raiseShutdown : s.Does .raiseShutdown { s with shutdown := true }

theorem does_of_accept {spawned : Bool} {place : AcceptPlace} (hplace : s.place = place)
    (hst : s.accept spawned place = some t) : s.Does (.accept spawned) t := by
  cases place with
  | accepted pipe =>
    obtain rfl := Option.some.inj hst
    exact .count hplace
  | counted pipe count =>
    simp only [Sessions.accept] at hst
    split_ifs at hst with hlimit
    · obtain rfl := Option.some.inj hst
      exact .refuse hplace (UInt64.le_iff_toNat_le.mp hlimit)
    · obtain rfl := Option.some.inj hst
      exact .reserve hplace (UInt64.lt_iff_toNat_lt.mp (UInt64.not_le.mp hlimit))
  | refusing pipe =>
    obtain rfl := Option.some.inj hst
    exact .reject hplace
  | spawning pipe =>
    cases spawned with
    | true =>
      obtain rfl := Option.some.inj hst
      exact .spawn hplace
    | false =>
      obtain rfl := Option.some.inj hst
      exact .spawnFails hplace
  | spawnFailed pipe =>
    obtain rfl := Option.some.inj hst
    exact .giveBack hplace
  | closing pipe =>
    obtain rfl := Option.some.inj hst
    exact .close hplace
  | head | listening pipe | exited => cases hst

theorem does_of_step (hst : s.step l = some t) : s.Does l t := by
  cases l with
  | accept spawned => exact does_of_accept rfl hst
  | create ok =>
    simp only [Sessions.step] at hst
    split at hst
    · next hplace =>
      split_ifs at hst with hshutdown hok
      · obtain rfl := Option.some.inj hst
        exact .exit hplace
      · obtain rfl := Option.some.inj hst
        exact hok ▸ .create hplace
      · obtain rfl := Option.some.inj hst
        exact (Bool.not_eq_true ok).mp hok ▸ .retry
    · cases hst
  | client o =>
    simp only [Sessions.step] at hst
    split at hst
    · next hplace =>
      obtain rfl := Option.some.inj hst
      exact .connect hplace
    · next hplace =>
      split_ifs at hst
      obtain rfl := Option.some.inj hst
      exact .giveUp hplace
    · next hplace =>
      obtain rfl := Option.some.inj hst
      exact .giveUp hplace
    · cases hst
  | sessionEnds pipe =>
    simp only [Sessions.step] at hst
    split_ifs at hst with hmem
    obtain rfl := Option.some.inj hst
    exact .sessionEnds hmem
  | leave pipe =>
    simp only [Sessions.step] at hst
    split_ifs at hst with hmem
    obtain rfl := Option.some.inj hst
    exact .leave hmem
  | raiseShutdown =>
    obtain rfl := Option.some.inj hst
    exact .raiseShutdown

/-! ### The counter -/

/-- The counter is the number of workers and of the client in hand. -/
structure CountInv (s : Sessions) : Prop where
  active : s.activeSessions.toNat = s.workers.length + s.place.held
  /-- There is room for what the acceptor has decided to spawn. -/
  room : s.workers.length + s.place.reserved ≤ 64
  /-- The workers that were counted when the acceptor looked may be gone, but there are no new
  ones. -/
  counted : ∀ pipe count, s.place = .counted pipe count →
    s.workers.length ≤ count.toNat ∧ count.toNat ≤ 64

theorem toNat_add_one {n : UInt64} (h : n.toNat ≤ 64) : (n + 1).toNat = n.toNat + 1 := by
  rw [UInt64.toNat_add]
  exact Nat.mod_eq_of_lt (by simp; omega)

theorem toNat_sub_one {n : UInt64} (h : 0 < n.toNat) : (n - 1).toNat = n.toNat - 1 :=
  UInt64.toNat_sub_of_le n 1 (UInt64.le_iff_toNat_le.mpr h)

theorem countInv_start : start.CountInv := ⟨rfl, by decide, by simp [start]⟩

/-- The acceptor goes to a place that the counter does not see. -/
theorem CountInv.move (h : s.CountInv) {place : AcceptPlace} (hheld : place.held = s.place.held)
    (hreserved : place.reserved = s.place.reserved)
    (hplace : ∀ pipe count, place ≠ .counted pipe count) :
    t.place = place → t.activeSessions = s.activeSessions → t.workers = s.workers → t.CountInv := by
  intro htplace hactive hworkers
  refine ⟨?_, ?_, fun pipe count hp => absurd (htplace.symm.trans hp) (hplace pipe count)⟩
  · rw [hactive, hworkers, htplace, hheld]
    exact h.active
  · rw [hworkers, htplace, hreserved]
    exact h.room

theorem CountInv.step (h : s.CountInv) (hst : s.step l = some t) : t.CountInv := by
  have hactive := h.active
  have hroom := h.room
  cases does_of_step hst with
  | exit hplace | create hplace | connect hplace | giveUp hplace | reject hplace
  | spawnFails hplace | close hplace =>
    exact h.move (by rw [hplace]; rfl) (by rw [hplace]; rfl) (by simp) rfl rfl rfl
  | retry => exact h
  | count hplace =>
    replace hactive : s.activeSessions.toNat = s.workers.length := by
      rw [hplace] at hactive
      exact hactive
    refine ⟨?_, by show s.workers.length ≤ 64; omega, fun p c hp => ?_⟩
    · show (s.activeSessions + 1).toNat = s.workers.length + 1
      rw [toNat_add_one (by omega), hactive]
    · obtain ⟨-, rfl⟩ := AcceptPlace.counted.inj hp
      show s.workers.length ≤ s.activeSessions.toNat ∧ _
      omega
  | refuse hplace hlimit =>
    rw [hplace, AcceptPlace.held] at hactive
    refine ⟨?_, by rw [hplace] at hroom; exact hroom, fun p c hp => by cases hp⟩
    show (s.activeSessions - 1).toNat = s.workers.length
    rw [toNat_sub_one (by omega)]
    omega
  | @reserve _ pipe count hplace hlt =>
    obtain ⟨hle, -⟩ := h.counted pipe count hplace
    refine ⟨by rw [hplace] at hactive; exact hactive, ?_, fun p c hp => by cases hp⟩
    show s.workers.length + 1 ≤ 64
    omega
  | spawn hplace =>
    rw [hplace] at hactive hroom
    exact ⟨hactive, hroom, fun p c hp => by cases hp⟩
  | giveBack hplace =>
    rw [hplace, AcceptPlace.held] at hactive
    rw [hplace, AcceptPlace.reserved] at hroom
    refine ⟨?_, by show s.workers.length ≤ 64; omega, fun p c hp => by cases hp⟩
    show (s.activeSessions - 1).toNat = s.workers.length
    rw [toNat_sub_one (by omega)]
    omega
  | @sessionEnds pipe hmem =>
    have hlen : (⟨pipe, true⟩ :: s.workers.erase ⟨pipe, false⟩).length = s.workers.length := by
      rw [List.length_cons, List.length_erase_of_mem hmem]
      exact Nat.sub_add_cancel (List.length_pos_of_mem hmem)
    exact ⟨by rw [hlen]; exact hactive, by rw [hlen]; exact hroom,
      fun p c hp => by rw [hlen]; exact h.counted p c hp⟩
  | @leave pipe hmem =>
    have hpos : 0 < s.workers.length := List.length_pos_of_mem hmem
    have hlen : (s.workers.erase ⟨pipe, true⟩).length = s.workers.length - 1 :=
      List.length_erase_of_mem hmem
    refine ⟨?_, ?_, fun p c hp => ?_⟩
    · show (s.activeSessions - 1).toNat = (s.workers.erase ⟨pipe, true⟩).length + s.place.held
      rw [toNat_sub_one (by omega), hlen]
      omega
    · show (s.workers.erase ⟨pipe, true⟩).length + s.place.reserved ≤ 64
      omega
    · have hcounted := h.counted p c hp
      exact ⟨by rw [hlen]; omega, hcounted.2⟩
  | raiseShutdown => exact ⟨hactive, hroom, h.counted⟩

/-! ### The records -/

/-- Every client is recorded as far as the acceptor has come with it. -/
structure RecordInv (s : Sessions) : Prop where
  fresh : ∀ pipe, s.nextPipe ≤ pipe → s.clients pipe = {}
  hand : ∀ pipe, s.place.hand = some pipe → pipe < s.nextPipe ∧ s.place.Expects (s.clients pipe)
  others : ∀ pipe, s.place.hand ≠ some pipe → (s.clients pipe).Settled

theorem recordInv_start : start.RecordInv :=
  ⟨fun _ _ => rfl, fun _ h => (by cases h), fun _ _ => .inl rfl⟩

/-- The acceptor goes on with the client in hand. -/
theorem RecordInv.go (h : s.RecordInv) {pipe : ℕ} {c : Client} (hhand : s.place.hand = some pipe)
    (hplace : t.place.hand = some pipe) (hnext : t.nextPipe = s.nextPipe)
    (hclients : t.clients = s.note pipe c) (hc : t.place.Expects c) : t.RecordInv := by
  obtain ⟨hlt, -⟩ := h.hand pipe hhand
  refine ⟨fun p hp => ?_, fun p hp => ?_, fun p hp => ?_⟩
  · rw [hnext] at hp
    have hne : p ≠ pipe := by omega
    rw [hclients, note, Function.update_of_ne hne]
    exact h.fresh p hp
  · obtain rfl : pipe = p := Option.some.inj (hplace.symm.trans hp)
    rw [hclients, note, Function.update_self, hnext]
    exact ⟨hlt, hc⟩
  · have hne : p ≠ pipe := fun heq => hp (by rw [hplace, heq])
    rw [hclients, note, Function.update_of_ne hne]
    exact h.others p fun hp' => hne (Option.some.inj (hp'.symm.trans hhand))

/-- It is through with the client. -/
theorem RecordInv.finish (h : s.RecordInv) {pipe : ℕ} {c : Client}
    (hhand : s.place.hand = some pipe) (hplace : t.place.hand = none)
    (hnext : t.nextPipe = s.nextPipe) (hclients : t.clients = s.note pipe c) (hc : c.Settled) :
    t.RecordInv := by
  obtain ⟨hlt, -⟩ := h.hand pipe hhand
  refine ⟨fun p hp => ?_, fun p hp => ?_, fun p _ => ?_⟩
  · rw [hnext] at hp
    have hne : p ≠ pipe := by omega
    rw [hclients, note, Function.update_of_ne hne]
    exact h.fresh p hp
  · rw [hplace] at hp
    cases hp
  · rw [hclients, note]
    by_cases hp : p = pipe
    · rw [hp, Function.update_self]
      exact hc
    · rw [Function.update_of_ne hp]
      exact h.others p fun hp' => hp (Option.some.inj (hp'.symm.trans hhand))

/-- It has none. -/
theorem RecordInv.idle (h : s.RecordInv) (hhand : s.place.hand = none)
    (hplace : t.place.hand = none) (hnext : t.nextPipe = s.nextPipe)
    (hclients : t.clients = s.clients) : t.RecordInv := by
  refine ⟨fun p hp => ?_, fun p hp => ?_, fun p _ => ?_⟩
  · rw [hclients]
    exact h.fresh p (hnext ▸ hp)
  · rw [hplace] at hp
    cases hp
  · rw [hclients]
    exact h.others p (by rw [hhand]; exact Option.some_ne_none p |>.symm)

theorem note_self (s : Sessions) (pipe : ℕ) : s.clients = s.note pipe (s.clients pipe) :=
  (Function.update_eq_self pipe s.clients).symm

theorem RecordInv.step (h : s.RecordInv) (hst : s.step l = some t) : t.RecordInv := by
  cases does_of_step hst with
  | exit hplace | giveBack hplace | close hplace =>
    exact h.idle (by rw [hplace]; rfl) rfl rfl rfl
  | create hplace =>
    have hnone (p : ℕ) : s.place.hand ≠ some p := by
      rw [hplace]
      exact Option.some_ne_none p |>.symm
    refine ⟨fun p hp => h.fresh p (Nat.le_of_succ_le hp), fun p hp => ?_, fun p _ =>
      h.others p (hnone p)⟩
    obtain rfl := Option.some.inj hp
    exact ⟨Nat.lt_succ_self _, h.fresh _ (Nat.le_refl _)⟩
  | retry | sessionEnds | leave | raiseShutdown => exact ⟨h.fresh, h.hand, h.others⟩
  | @connect pipe hplace =>
    obtain ⟨-, hexpects⟩ := h.hand pipe (by rw [hplace]; rfl)
    rw [hplace] at hexpects
    exact h.go (by rw [hplace]; rfl) rfl rfl (s.note_self pipe) hexpects
  | @giveUp o pipe hplace =>
    obtain ⟨-, hexpects⟩ := h.hand pipe (by rw [hplace]; rfl)
    rw [hplace] at hexpects
    exact h.finish (by rw [hplace]; rfl) rfl rfl (s.note_self pipe) (.inl hexpects)
  | @count spawned pipe hplace =>
    obtain ⟨-, hexpects⟩ := h.hand pipe (by rw [hplace]; rfl)
    rw [hplace] at hexpects
    refine h.go (by rw [hplace]; rfl) rfl rfl rfl ?_
    show _ = _
    rw [hexpects]
  | @refuse spawned pipe count hplace hlimit =>
    obtain ⟨-, hexpects⟩ := h.hand pipe (by rw [hplace]; rfl)
    rw [hplace] at hexpects
    exact h.go (by rw [hplace]; rfl) rfl rfl (s.note_self pipe) ⟨count, hlimit, hexpects⟩
  | @reserve spawned pipe count hplace hroom =>
    obtain ⟨-, hexpects⟩ := h.hand pipe (by rw [hplace]; rfl)
    rw [hplace] at hexpects
    exact h.go (by rw [hplace]; rfl) rfl rfl (s.note_self pipe) ⟨count, hroom, hexpects⟩
  | @reject spawned pipe hplace =>
    obtain ⟨-, hexpects⟩ := h.hand pipe (by rw [hplace]; rfl)
    rw [hplace] at hexpects
    obtain ⟨n, hn, hrecord⟩ := hexpects
    refine h.finish (by rw [hplace]; rfl) rfl rfl rfl (.inr (.inl ⟨n, hn, ?_⟩))
    rw [hrecord]
  | @spawn pipe hplace =>
    obtain ⟨-, hexpects⟩ := h.hand pipe (by rw [hplace]; rfl)
    rw [hplace] at hexpects
    obtain ⟨n, hn, hrecord⟩ := hexpects
    refine h.finish (by rw [hplace]; rfl) rfl rfl rfl (.inr (.inr ⟨n, 1, hn, ?_⟩))
    rw [hrecord]
  | @spawnFails pipe hplace =>
    obtain ⟨-, hexpects⟩ := h.hand pipe (by rw [hplace]; rfl)
    rw [hplace] at hexpects
    obtain ⟨n, hn, hrecord⟩ := hexpects
    refine h.finish (by rw [hplace]; rfl) rfl rfl (s.note_self pipe) (.inr (.inr ?_))
    exact ⟨n, 0, hn, hrecord⟩

/-! ### Both together -/

/-- A client that was counted at the limit, wherever the acceptor is with it. -/
theorem RecordInv.refused (h : s.RecordInv) {pipe : ℕ} {count : UInt64}
    (hfound : (s.clients pipe).found = some count) (hlimit : 64 ≤ count.toNat) :
    (s.clients pipe).workers = 0 ∧
      (s.clients pipe).rejects = if s.place.deciding = some pipe then 0 else 1 := by
  by_cases hhand : s.place.hand = some pipe
  · obtain ⟨-, hexpects⟩ := h.hand pipe hhand
    cases hplace : s.place with
    | counted p n =>
      rw [hplace] at hhand hexpects
      obtain rfl : p = pipe := Option.some.inj hhand
      rw [show s.clients p = _ from hexpects]
      exact ⟨rfl, (if_pos rfl).symm⟩
    | refusing p =>
      rw [hplace] at hhand hexpects
      obtain rfl : p = pipe := Option.some.inj hhand
      obtain ⟨n, -, hrecord⟩ := hexpects
      rw [hrecord]
      exact ⟨rfl, (if_pos rfl).symm⟩
    | spawning p =>
      -- a client that is let in was counted below the limit
      rw [hplace] at hexpects
      obtain ⟨n, hn, hrecord⟩ := hexpects
      rw [hrecord] at hfound
      obtain rfl : n = count := Option.some.inj hfound
      omega
    | listening p | accepted p =>
      rw [hplace] at hexpects
      rw [show s.clients pipe = _ from hexpects] at hfound
      cases hfound
    | head | spawnFailed p | closing p | exited =>
      rw [hplace] at hhand
      cases hhand
  · have hdeciding : s.place.deciding ≠ some pipe := by
      intro hdeciding
      refine hhand ?_
      cases hplace : s.place <;> rw [hplace] at hdeciding <;>
        first | exact hdeciding | cases hdeciding
    rw [if_neg hdeciding]
    rcases h.others pipe hhand with hrecord | ⟨n, -, hrecord⟩ | ⟨n, k, hn, hrecord⟩
    · rw [hrecord] at hfound
      cases hfound
    · rw [hrecord]
      exact ⟨rfl, rfl⟩
    · rw [hrecord] at hfound
      obtain rfl : n = count := Option.some.inj hfound
      omega

theorem RecordInv.rejected (h : s.RecordInv) {pipe : ℕ} (hrejects : (s.clients pipe).rejects ≠ 0) :
    ∃ count, (s.clients pipe).found = some count ∧ 64 ≤ count.toNat := by
  by_cases hhand : s.place.hand = some pipe
  · obtain ⟨-, hexpects⟩ := h.hand pipe hhand
    cases hplace : s.place with
    | counted p n | listening p | accepted p =>
      rw [hplace] at hexpects
      rw [show s.clients pipe = _ from hexpects] at hrejects
      exact absurd rfl hrejects
    | refusing p | spawning p =>
      rw [hplace] at hexpects
      obtain ⟨n, -, hrecord⟩ := hexpects
      rw [hrecord] at hrejects
      exact absurd rfl hrejects
    | head | spawnFailed p | closing p | exited =>
      rw [hplace] at hhand
      cases hhand
  · rcases h.others pipe hhand with hrecord | ⟨n, hn, hrecord⟩ | ⟨n, k, -, hrecord⟩
    · rw [hrecord] at hrejects
      exact absurd rfl hrejects
    · exact ⟨n, by rw [hrecord], hn⟩
    · rw [hrecord] at hrejects
      exact absurd rfl hrejects

theorem Accounts.of_inv (hcount : s.CountInv) (hrecord : s.RecordInv) : s.Accounts where
  active := hcount.active
  held_le := by
    cases s.place <;> simp [AcceptPlace.held]
  limit := by
    have hroom := hcount.room
    omega
  bounded := by
    have hactive := hcount.active
    have hroom := hcount.room
    have hheld : s.place.held ≤ 1 := by cases s.place <;> simp [AcceptPlace.held]
    omega
  refused _ _ hfound hlimit := hrecord.refused hfound hlimit
  rejected _ hrejects := hrecord.rejected hrejects
  idle hworkers hheld := by
    have hactive := hcount.active
    rw [hworkers, hheld] at hactive
    exact UInt64.toNat_inj.mp hactive

/-- **Session accounting is exact** in every state of every run: whatever clients connect, however
the workers and the acceptor are interleaved, and whichever threads cannot be spawned. -/
theorem accounts_of_run (ls : List Label) (t : Sessions) (hr : run step start ls = some t) :
    t.Accounts := by
  have hinv : t.CountInv ∧ t.RecordInv :=
    invariant_of_run (I := fun s => s.CountInv ∧ s.RecordInv)
      (fun _ _ _ h hst => ⟨h.1.step hst, h.2.step hst⟩) ⟨countInv_start, recordInv_start⟩ hr
  exact .of_inv hinv.1 hinv.2

/-- A client that is let in and leaves, and one whose worker cannot be spawned. -/
def twoClients : List Label :=
  [.create true, .client .connected, .accept true, .accept true, .accept true,
    .create true, .client .connected, .accept true, .sessionEnds 0, .accept true, .accept false,
    .leave 0, .accept true]

/-- After them, as many clients as there is room for, and one more. -/
def manyClients : List Label :=
  twoClients ++ .accept true :: (List.replicate 64 [.create true, .client .connected, .accept true, .accept true,
      .accept true]).flatten ++
    [.create true, .client .connected, .accept true, .accept true, .accept true, .accept true]

theorem manyClients_accounts : ∃ t, run step start manyClients = some t ∧
    t.activeSessions = 64 ∧ t.sessionsRejected = 1 ∧ t.Accounts := by
  have hcounts : (run step start manyClients).map (fun t => (t.activeSessions, t.sessionsRejected))
      = some (64, 1) := by decide +kernel
  obtain ⟨t, ht, hcounts⟩ := Option.map_eq_some_iff.mp hcounts
  obtain ⟨hactive, hrejected⟩ := Prod.ext_iff.mp hcounts
  exact ⟨t, ht, hactive, hrejected, accounts_of_run manyClients t ht⟩

end Sessions

end Plugin

end WazabiAgent
