import Mathlib.Data.List.Nodup
import WazabiAgent.Lib.Json
import WazabiAgent.Lib.Transition

/-!
# Response commands and their acknowledgements

Each heartbeat brings the commands that the server holds as pending. The heartbeat thread executes
them one after the other, and acknowledges each after its execution; whether the acknowledgement
got through changes nothing in what the thread does next. The agent keeps no record of what it has
executed.

The server is not part of the repository. It is modelled as it is relied upon: a command has an
identifier of its own, and stays pending until an acknowledgement of it has arrived. Between the
two is a network that may lose an acknowledgement, lose only the reply to it, or deliver it late.

## Ghost state

`executions` is the log of the calls of `executor::execute`, and `missed` counts for each
identifier the polls that were answered with a command that had been executed already, because no
acknowledgement of it had arrived by then.

## Main results

* `executions_le` — a command is executed at most once, and once more for each missed poll
* `executed_no_more` — once acknowledged, and past the response in hand, it is not executed again
* `executed_twice` — a lost acknowledgement, and the command is executed a second time
-/

namespace WazabiAgent

namespace Control

open LabelledStep

/-- A command of the server. -/
structure Command where
  id : String
  cmdType : String
  payload : Json

/-- What becomes of an acknowledgement. -/
inductive AckOutcome
  /-- The server has it; the agent may see the reply or not. -/
  | received (reply : Bool)
  | delayed
  | lost
  deriving DecidableEq

/-- Server, network and heartbeat thread. -/
structure Session where
  /-- Server: identifiers used so far. -/
  issued : List String := []
  /-- Server: commands without an acknowledgement. -/
  pending : List Command := []
  /-- Network: acknowledgements under way. -/
  inFlight : List String := []
  /-- Agent: what is left of the response. -/
  todo : List Command := []
  /-- Agent: executed, and to be acknowledged. -/
  acking : Option Command := none
  /-- Agent: the response asks for a pull of the profile. -/
  forceProfilePull : Bool := false
  commandsAcked : ℕ := 0
  executions : List String := []
  missed : String → ℕ := fun _ => 0

namespace Session

/-- What happens next. -/
inductive Label
  | issue (cmd : Command)
  /-- A heartbeat; `received` says whether the response comes back. -/
  | poll (received : Bool)
  | execute
  | ack (o : AckOutcome)
  /-- A delayed acknowledgement arrives. -/
  | deliver (id : String)
  | drop (id : String)
  /-- The agent dies, and is started again. -/
  | crash

/-- The identifiers of a list of commands. -/
def ids (cmds : List Command) : List String := cmds.map Command.id

/-- The server takes an acknowledgement. -/
def receive (s : Session) (id : String) : Session :=
  { s with pending := s.pending.filter fun cmd => cmd.id ≠ id }

/-- The polls missed, when the server answers one. -/
def answered (s : Session) (id : String) : ℕ :=
  s.missed id + if id ∈ ids s.pending ∧ id ∈ s.executions then 1 else 0

/-- One step of the server or of the heartbeat thread. -/
def step (s : Session) : Label → Option Session
  | .issue cmd =>
    if cmd.id ∈ s.issued then none
    else some { s with issued := cmd.id :: s.issued, pending := s.pending ++ [cmd] }
  | .poll received =>
    match s.todo, s.acking with
    | [], none =>
      if received then
        some { s with todo := s.pending, missed := s.answered, forceProfilePull := false }
      else some s
    | _, _ => none
  | .execute =>
    match s.todo, s.acking with
    | cmd :: rest, none =>
      some { s with
        todo := rest
        acking := some cmd
        executions := cmd.id :: s.executions
        forceProfilePull := s.forceProfilePull || cmd.cmdType == "update_rules" }
    | _, _ => none
  | .ack o =>
    match s.acking with
    | none => none
    | some cmd =>
      match o with
      | .received reply =>
        some { s.receive cmd.id with
          acking := none
          commandsAcked := s.commandsAcked + if reply then 1 else 0 }
      | .delayed => some { s with acking := none, inFlight := cmd.id :: s.inFlight }
      | .lost => some { s with acking := none }
  | .deliver id =>
    if id ∈ s.inFlight then some { s.receive id with inFlight := s.inFlight.erase id } else none
  | .drop id =>
    if id ∈ s.inFlight then some { s with inFlight := s.inFlight.erase id } else none
  | .crash => some { s with todo := [], acking := none }

/-- Nothing has been issued. -/
def start : Session := {}

variable {s t : Session} {l : Label} {id : String}

/-- All that a step of the session can be. -/
inductive Steps (s : Session) : Label → Session → Prop
  | issue {cmd : Command} (hid : cmd.id ∉ s.issued) :
    s.Steps (.issue cmd) { s with issued := cmd.id :: s.issued, pending := s.pending ++ [cmd] }
  | answered (htodo : s.todo = []) :
    s.Steps (.poll true) { s with
      todo := s.pending, missed := s.answered, forceProfilePull := false }
  | unanswered : s.Steps (.poll false) s
  | execute {cmd : Command} {rest : List Command} (htodo : s.todo = cmd :: rest) :
    s.Steps .execute { s with
      todo := rest
      acking := some cmd
      executions := cmd.id :: s.executions
      forceProfilePull := s.forceProfilePull || cmd.cmdType == "update_rules" }
  | received {cmd : Command} {reply : Bool} (hack : s.acking = some cmd) :
    s.Steps (.ack (.received reply)) { s.receive cmd.id with
      acking := none
      commandsAcked := s.commandsAcked + if reply then 1 else 0 }
  | delayed {cmd : Command} (hack : s.acking = some cmd) :
    s.Steps (.ack .delayed) { s with acking := none, inFlight := cmd.id :: s.inFlight }
  | lost {cmd : Command} (hack : s.acking = some cmd) :
    s.Steps (.ack .lost) { s with acking := none }
  | deliver {id : String} (hid : id ∈ s.inFlight) :
    s.Steps (.deliver id) { s.receive id with inFlight := s.inFlight.erase id }
  | drop {id : String} (hid : id ∈ s.inFlight) :
    s.Steps (.drop id) { s with inFlight := s.inFlight.erase id }
  | crash : s.Steps .crash { s with todo := [], acking := none }

theorem steps_of_step (hst : s.step l = some t) : s.Steps l t := by
  cases l with
  | issue cmd =>
    simp only [Session.step] at hst
    split_ifs at hst with hid
    obtain rfl := Option.some.inj hst
    exact .issue hid
  | poll received =>
    simp only [Session.step] at hst
    split at hst
    · next htodo _ =>
      cases received with
      | true =>
        obtain rfl := Option.some.inj hst
        exact .answered htodo
      | false =>
        obtain rfl := Option.some.inj hst
        exact .unanswered
    · cases hst
  | execute =>
    simp only [Session.step] at hst
    split at hst
    · next cmd rest htodo _ =>
      obtain rfl := Option.some.inj hst
      exact .execute htodo
    · cases hst
  | ack o =>
    simp only [Session.step] at hst
    split at hst
    · cases hst
    · next cmd hack =>
      cases o with
      | received reply =>
        obtain rfl := Option.some.inj hst
        exact .received hack
      | delayed =>
        obtain rfl := Option.some.inj hst
        exact .delayed hack
      | lost =>
        obtain rfl := Option.some.inj hst
        exact .lost hack
  | deliver id =>
    simp only [Session.step] at hst
    split_ifs at hst with hid
    obtain rfl := Option.some.inj hst
    exact .deliver hid
  | drop id =>
    simp only [Session.step] at hst
    split_ifs at hst with hid
    obtain rfl := Option.some.inj hst
    exact .drop hid
  | crash =>
    obtain rfl := Option.some.inj hst
    exact .crash

theorem ids_receive : ids (s.receive id).pending = (ids s.pending).filter (· ≠ id) := by
  rw [ids, ids, List.filter_map]
  rfl

/-! ### The bound -/

/-- Commands are pending under their own identifiers, and what is left of a response has been
counted for. -/
structure Inv (s : Session) : Prop where
  nodup : (ids s.pending).Nodup
  issued : ∀ id ∈ ids s.pending, id ∈ s.issued
  bound : ∀ id, s.executions.count id + (ids s.todo).count id ≤ 1 + s.missed id

theorem Inv.receive (h : s.Inv) (id : String) : (s.receive id).Inv := by
  refine ⟨?_, fun x hx => ?_, h.bound⟩
  · rw [ids_receive]
    exact h.nodup.filter _
  · rw [ids_receive] at hx
    exact h.issued x (List.mem_of_mem_filter hx)

/-- The poll that brings the pending commands counts each that was executed before. -/
theorem Inv.poll (h : s.Inv) (htodo : s.todo = []) (id : String) :
    s.executions.count id + (ids s.pending).count id ≤ 1 + s.answered id := by
  have hbound := h.bound id
  have honce : (ids s.pending).count id ≤ 1 := List.nodup_iff_count_le_one.mp h.nodup id
  simp only [htodo, ids, List.map_nil, List.count_nil, Nat.add_zero] at hbound
  rw [answered]
  by_cases hp : id ∈ ids s.pending
  · by_cases he : id ∈ s.executions
    · rw [if_pos ⟨hp, he⟩]
      omega
    · have hzero : s.executions.count id = 0 := List.count_eq_zero.mpr he
      omega
  · have hzero : (ids s.pending).count id = 0 := List.count_eq_zero.mpr hp
    omega

theorem Inv.step (h : s.Inv) (hst : s.step l = some t) : t.Inv := by
  cases steps_of_step hst with
  | @issue cmd hid =>
    have hnew : cmd.id ∉ ids s.pending := fun hmem => hid (h.issued _ hmem)
    refine ⟨?_, fun x hx => ?_, h.bound⟩
    · simpa [ids, List.nodup_append] using ⟨h.nodup, fun c hc heq => hnew (heq ▸
        List.mem_map_of_mem hc)⟩
    · rw [ids, List.map_append, List.mem_append] at hx
      rcases hx with hx | hx
      · exact List.mem_cons_of_mem _ (h.issued x hx)
      · obtain rfl : x = cmd.id := by simpa using hx
        exact List.mem_cons_self
  | answered htodo => exact ⟨h.nodup, h.issued, h.poll htodo⟩
  | unanswered => exact h
  | execute htodo =>
    refine ⟨h.nodup, h.issued, fun x => ?_⟩
    have hbound := h.bound x
    rw [htodo, ids, List.map_cons, List.count_cons] at hbound
    simp only [List.count_cons, ids]
    omega
  | @received cmd =>
    have hrec := h.receive cmd.id
    exact ⟨hrec.nodup, hrec.issued, h.bound⟩
  | delayed | lost | drop => exact ⟨h.nodup, h.issued, h.bound⟩
  | @deliver id =>
    have hrec := h.receive id
    exact ⟨hrec.nodup, hrec.issued, h.bound⟩
  | crash =>
    refine ⟨h.nodup, h.issued, fun x => ?_⟩
    have hbound := h.bound x
    simp only [ids, List.map_nil, List.count_nil]
    omega

theorem inv_start : start.Inv := ⟨List.nodup_nil, by simp [start, ids], by simp [start, ids]⟩

/-- **At most once, and once more for each missed poll.** -/
theorem executions_le (ls : List Label) (s : Session) (hr : run step start ls = some s)
    (id : String) : s.executions.count id ≤ 1 + s.missed id := by
  have hinv : s.Inv := invariant_of_run (fun _ _ _ h hst => h.step hst) inv_start hr
  have hbound := hinv.bound id
  omega

/-- A command that ends a process. -/
def killCommand : Command := ⟨"c1", "kill_process", .object [("pid", .number "42")]⟩

/-- The command is executed, and its acknowledgement becomes `o`; then the agent polls again. -/
def polledTwice (o : AckOutcome) : List Label :=
  [.issue killCommand, .poll true, .execute, .ack o, .poll true]

theorem polledTwice_once : ∃ s, run step start (polledTwice (.received false)) = some s ∧
    s.missed "c1" = 0 ∧ s.executions.count "c1" ≤ 1 + s.missed "c1" :=
  ⟨_, rfl, rfl, executions_le (polledTwice (.received false)) _ rfl "c1"⟩

/-- **A lost acknowledgement, and the command is executed again.** -/
theorem executed_twice : ∃ s, run step start (polledTwice .lost ++ [.execute]) = some s ∧
    s.executions = ["c1", "c1"] :=
  ⟨_, rfl, rfl⟩

/-! ### After the acknowledgement -/

/-- The command is known, acknowledged, and no longer in hand. -/
structure Settled (id : String) (n : ℕ) (s : Session) : Prop where
  issued : id ∈ s.issued
  pending : id ∉ ids s.pending
  todo : id ∉ ids s.todo
  count : s.executions.count id = n

theorem Settled.receive {n : ℕ} (h : s.Settled id n) (x : String) :
    id ∉ ids (s.receive x).pending := by
  rw [ids_receive]
  exact fun hmem => h.pending (List.mem_of_mem_filter hmem)

theorem Settled.step {n : ℕ} (h : s.Settled id n) (hst : s.step l = some t) : t.Settled id n := by
  cases steps_of_step hst with
  | @issue cmd hid =>
    have hne : id ≠ cmd.id := fun heq => hid (heq ▸ h.issued)
    refine ⟨List.mem_cons_of_mem _ h.issued, ?_, h.todo, h.count⟩
    rw [ids, List.map_append, List.mem_append, not_or]
    exact ⟨h.pending, by simpa using hne⟩
  | answered => exact ⟨h.issued, h.pending, h.pending, h.count⟩
  | unanswered => exact h
  | @execute cmd rest htodo =>
    have htodo' : id ∉ ids (cmd :: rest) := htodo ▸ h.todo
    rw [ids, List.map_cons, List.mem_cons, not_or] at htodo'
    refine ⟨h.issued, h.pending, htodo'.2, ?_⟩
    exact (List.count_cons_of_ne (Ne.symm htodo'.1)).trans h.count
  | @received cmd => exact ⟨h.issued, h.receive cmd.id, h.todo, h.count⟩
  | delayed | lost | drop => exact ⟨h.issued, h.pending, h.todo, h.count⟩
  | @deliver x => exact ⟨h.issued, h.receive x, h.todo, h.count⟩
  | crash => exact ⟨h.issued, h.pending, by simp [ids], h.count⟩

/-- **No more once it is settled.** Whatever happens afterwards, a command whose acknowledgement
has arrived and that is not in the response in hand is not executed again. -/
theorem executed_no_more {ls : List Label} (hissued : id ∈ s.issued) (hacked : id ∉ ids s.pending)
    (htodo : id ∉ ids s.todo) (hr : run step s ls = some t) :
    t.executions.count id = s.executions.count id := by
  have hsettled : s.Settled id (s.executions.count id) := ⟨hissued, hacked, htodo, rfl⟩
  exact (invariant_of_run (fun _ _ _ h hst => h.step hst) hsettled hr).count

end Session

end Control

end WazabiAgent
