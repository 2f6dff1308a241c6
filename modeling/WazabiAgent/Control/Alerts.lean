import WazabiAgent.Detection.Events
import WazabiAgent.Lib.JsonText
import WazabiAgent.Lib.Transition

/-!
# Alerts on their way to the server

The engine hands a match that carries an alert or a kill over a bounded channel, and the thread
`wedr-alerts` posts what it finds there in batches (`control/alerts.rs`). The engine never waits:
where the channel is full, or its receiver gone, `try_send` returns the alert and `emit_alert`
throws it away.

The two sides move in any order. A turn of the thread is cut at its operations on the channel and
at its requests, so that matches and `SHUTDOWN` can come between any two of them. A request is
answered with the number of alerts that the server has taken, which is at most the batch, or fails.

A channel of capacity 0 is taken over by the receiver: `try_send` succeeds while the thread is
waiting.

## Ghost state

`matched` counts the matches that carry an alert or a kill; `accepted` and `received` are the
alerts that went into the channel and came out of it, `posted` the batches that `post_batch` was
called with, and `requests` what it sent.

## Main definitions

* `emitAlert` — what the engine makes of a match
* `Alerts`, `Alerts.step` — channel, thread and statistics

## Main results

* `conserved_iff_along` — when every match is sent, dropped or under way
* `alerts_posted_in_order` — what is received is posted once and in order, in batches of 1 to 64
-/

namespace WazabiAgent

namespace Detection

/-! ### Matches -/

/-- What a rule does when it matches. -/
inductive Action
  | log
  | alert (message : String)
  | killProcess
  deriving DecidableEq

/-- A match as it is reported. -/
structure AgentAlert where
  ruleName : String
  actionTaken : String
  module : String
  ts : String
  evidence : Json
  deriving DecidableEq

/-- The value of a field as JSON. -/
def fieldValueToJson : FieldValue → Json
  | .int n => .number (toString n)
  | .float literal => .number literal
  | .str s => .string s
  | .bool b => .bool b

/-- The part of `emit_alert` before the channel, at the time `ts`. A match with nothing but logging
is no alert. -/
def emitAlert (ruleName : String) (acts : List Action) (event : LogEvent) (ts : String) :
    Option AgentAlert :=
  let hasKill := acts.any fun a => a matches .killProcess
  let hasAlert := acts.any fun a => a matches .alert _
  if !hasKill && !hasAlert then none
  else some {
    ruleName := ruleName
    actionTaken := if hasKill then "kill" else "alert"
    module := event.module
    ts := ts
    evidence := .object (Json.insert "event_type" (.string event.eventType)
      (Json.ofMembers (event.fields.map fun f => (f.1, fieldValueToJson f.2)))) }

end Detection

namespace Control

open Detection LabelledStep

/-! ### Batches -/

/-- `MAX_BATCH`. -/
def maxBatch : ℕ := 64

/-- `NATIVE_MODULES`. -/
def nativeModules : List String := ["kernel_callback", "minifilter", "network", "hooking", "web"]

/-- The module that an alert is reported under. -/
def serverModule (module : String) : String :=
  if module ∈ nativeModules ∨ module = "plugin" then module else "plugin"

/-- The server is told of modules that it knows only. -/
theorem serverModule_mem (module : String) :
    serverModule module ∈ "plugin" :: nativeModules := by
  rw [serverModule]
  split_ifs with h
  · rcases h with h | h
    · exact List.mem_cons_of_mem _ h
    · exact h ▸ List.mem_cons_self
  · exact List.mem_cons_self

/-- An alert as it is posted. -/
structure AlertOut where
  ts : String
  ruleId : String
  ruleName : String
  severity : String
  module : String
  actionTaken : String
  evidence : Json
  deriving DecidableEq

/-- The payload of `post_batch`. -/
def alertOut (a : AgentAlert) : AlertOut where
  ts := a.ts
  ruleId := a.ruleName
  ruleName := a.ruleName
  severity := "medium"
  module := serverModule a.module
  actionTaken := a.actionTaken
  evidence := a.evidence

/-- What comes back from `POST /alerts`. -/
inductive PostReply
  | failed (text : String)
  /-- The member `received` of the body, if the body is there and has one. -/
  | answered (received : Option ℕ)

/-- The server does not take more than it is sent. -/
def PostReply.atMost (n : ℕ) : PostReply → Bool
  | .answered (some received) => received ≤ n
  | _ => true

/-- The result of `post_alerts`, by the number of alerts posted. -/
def PostReply.received (reply : PostReply) (n : ℕ) : Except String ℕ :=
  match reply with
  | .failed text => .error text
  | .answered received => .ok (received.getD n)

/-! ### The thread -/

/-- Where `run` goes on after `post_batch`. -/
inductive AfterPost
  | head
  | drain
  | leave
  deriving DecidableEq

/-- Where the thread is. -/
inductive Phase
  /-- Before the load of `SHUTDOWN`. -/
  | head
  /-- In `recv_timeout`. -/
  | receiving
  | coalescing (batch : List AgentAlert)
  | posting (batch : List AgentAlert) (next : AfterPost)
  /-- In the final drain. -/
  | draining (tail : List AgentAlert)
  /-- All is posted, and the receiver still there. -/
  | leaving
  | exited
  deriving DecidableEq

/-- Where the loop goes on after a post. -/
def AfterPost.phase : AfterPost → Phase
  | .head => .head
  | .drain => .draining []
  | .leave => .leaving

/-- Alerts that are received and not yet handed to `post_batch`. -/
def Phase.inHand : Phase → List AgentAlert
  | .coalescing batch => batch
  | .draining tail => tail
  | _ => []

/-- Alerts in a request. -/
def Phase.inPost : Phase → List AgentAlert
  | .posting batch _ => batch
  | _ => []

/-- Channel, thread and statistics. -/
structure Alerts where
  queue : List AgentAlert := []
  /-- The engine still holds a sender. -/
  sender : Bool := true
  shutdown : Bool := false
  phase : Phase := .head
  alertsSent : ℕ := 0
  alertsDropped : ℕ := 0
  matched : ℕ := 0
  accepted : List AgentAlert := []
  received : List AgentAlert := []
  posted : List (List AgentAlert) := []
  /-- The payloads of the requests. -/
  requests : List (List AlertOut) := []
  deriving DecidableEq

namespace Alerts

/-- The agent as it starts. -/
def start : Alerts := {}

/-- What happens next. -/
inductive Label
  /-- One match of `process`, at a time. -/
  | ruleMatch (ruleName : String) (acts : List Action) (event : LogEvent) (ts : String)
  | raiseShutdown
  /-- The engine is gone. -/
  | disconnect
  /-- The load of `SHUTDOWN`. -/
  | check
  /-- `recv_timeout` returns: an alert, or `Disconnected`. -/
  | recv
  | timeout
  /-- `try_recv` of either loop. -/
  | tryRecv
  | reply (r : PostReply)
  /-- The thread returns, and the receiver goes with it. -/
  | leave

/-- `try_send` succeeds. -/
def HasRoom (cap : ℕ) (s : Alerts) : Prop :=
  s.phase ≠ .exited ∧
    (s.queue.length < cap ∨ cap = 0 ∧ s.phase = .receiving ∧ s.queue = [])

instance (cap : ℕ) (s : Alerts) : Decidable (s.HasRoom cap) :=
  inferInstanceAs (Decidable (_ ∧ _))

/-- `emit_alert`. -/
def emit (cap : ℕ) (s : Alerts) (a : AgentAlert) : Alerts :=
  if s.HasRoom cap then
    { s with matched := s.matched + 1, queue := s.queue ++ [a], accepted := s.accepted ++ [a] }
  else { s with matched := s.matched + 1 }

/-- The thread takes the first alert of the channel. -/
def take (s : Alerts) (a : AgentAlert) (rest : List AgentAlert) (phase : Phase) : Alerts :=
  { s with queue := rest, received := s.received ++ [a], phase := phase }

/-- `post_batch` is called. -/
def post (s : Alerts) (batch : List AgentAlert) (next : AfterPost) : Alerts :=
  { s with
    posted := s.posted ++ [batch]
    requests := s.requests ++ [batch.map alertOut]
    phase := .posting batch next }

/-- `post_batch` counts. -/
def count (s : Alerts) (batch : List AgentAlert) (r : PostReply) : Alerts :=
  match r.received batch.length with
  | .ok received => { s with alertsSent := s.alertsSent + received }
  | .error _ => { s with alertsDropped := s.alertsDropped + batch.length }

/-- One step of the detection engine or of the alert thread. -/
def step (cap : ℕ) (s : Alerts) : Label → Option Alerts
  | .ruleMatch ruleName acts event ts =>
    if s.sender then
      match emitAlert ruleName acts event ts with
      | some a => some (s.emit cap a)
      | none => some s
    else none
  | .raiseShutdown => some { s with shutdown := true }
  | .disconnect => some { s with sender := false }
  | .check =>
    match s.phase with
    | .head => some { s with phase := if s.shutdown then .draining [] else .receiving }
    | _ => none
  | .recv =>
    match s.phase, s.queue with
    | .receiving, a :: rest => some (s.take a rest (.coalescing [a]))
    | .receiving, [] => if s.sender then none else some { s with phase := .draining [] }
    | _, _ => none
  | .timeout =>
    match s.phase, s.queue with
    | .receiving, [] => some { s with phase := .head }
    | _, _ => none
  | .tryRecv =>
    match s.phase with
    | .coalescing batch =>
      if batch.length < maxBatch then
        match s.queue with
        | a :: rest => some (s.take a rest (.coalescing (batch ++ [a])))
        | [] => some (s.post batch .head)
      else some (s.post batch .head)
    | .draining tail =>
      match s.queue with
      | a :: rest =>
        if (tail ++ [a]).length ≥ maxBatch then
          some ((s.take a rest (.draining [])).post (tail ++ [a]) .drain)
        else some (s.take a rest (.draining (tail ++ [a])))
      | [] => if tail = [] then some { s with phase := .leaving } else some (s.post tail .leave)
    | _ => none
  | .reply r =>
    match s.phase with
    | .posting batch next =>
      if r.atMost batch.length then some { s.count batch r with phase := next.phase } else none
    | _ => none
  | .leave =>
    match s.phase with
    | .leaving => some { s with phase := .exited, queue := [] }
    | _ => none

variable {cap : ℕ} {s t : Alerts} {l : Label}

/-- All that a step can be. -/
inductive Does (cap : ℕ) (s : Alerts) : Label → Alerts → Prop
  | logged {ruleName : String} {acts : List Action} {event : LogEvent} {ts : String}
    (hno : emitAlert ruleName acts event ts = none) :
    Does cap s (.ruleMatch ruleName acts event ts) s
  | emitted {ruleName : String} {acts : List Action} {event : LogEvent} {ts : String}
    {a : AgentAlert} (ha : emitAlert ruleName acts event ts = some a) :
    Does cap s (.ruleMatch ruleName acts event ts) (s.emit cap a)
  | raiseShutdown : Does cap s .raiseShutdown { s with shutdown := true }
  | disconnect : Does cap s .disconnect { s with sender := false }
  | check (hp : s.phase = .head) :
    Does cap s .check { s with phase := if s.shutdown then .draining [] else .receiving }
  | first {a : AgentAlert} {rest : List AgentAlert} (hp : s.phase = .receiving)
    (hq : s.queue = a :: rest) : Does cap s .recv (s.take a rest (.coalescing [a]))
  | disconnected (hp : s.phase = .receiving) (hq : s.queue = []) :
    Does cap s .recv { s with phase := .draining [] }
  | timeout (hp : s.phase = .receiving) (hq : s.queue = []) :
    Does cap s .timeout { s with phase := .head }
  | coalesce {batch rest : List AgentAlert} {a : AgentAlert} (hp : s.phase = .coalescing batch)
    (hroom : batch.length < maxBatch) (hq : s.queue = a :: rest) :
    Does cap s .tryRecv (s.take a rest (.coalescing (batch ++ [a])))
  | postBatch {batch : List AgentAlert} (hp : s.phase = .coalescing batch) :
    Does cap s .tryRecv (s.post batch .head)
  | drainFull {tail rest : List AgentAlert} {a : AgentAlert} (hp : s.phase = .draining tail)
    (hq : s.queue = a :: rest) (hfull : (tail ++ [a]).length ≥ maxBatch) :
    Does cap s .tryRecv ((s.take a rest (.draining [])).post (tail ++ [a]) .drain)
  | drain {tail rest : List AgentAlert} {a : AgentAlert} (hp : s.phase = .draining tail)
    (hq : s.queue = a :: rest) (hroom : (tail ++ [a]).length < maxBatch) :
    Does cap s .tryRecv (s.take a rest (.draining (tail ++ [a])))
  | drained (hp : s.phase = .draining []) (hq : s.queue = []) :
    Does cap s .tryRecv { s with phase := .leaving }
  | postTail {tail : List AgentAlert} (hp : s.phase = .draining tail) (hq : s.queue = [])
    (htail : tail ≠ []) : Does cap s .tryRecv (s.post tail .leave)
  | reply {r : PostReply} {batch : List AgentAlert} {next : AfterPost}
    (hp : s.phase = .posting batch next) (hr : r.atMost batch.length = true) :
    Does cap s (.reply r) { s.count batch r with phase := next.phase }
  | leave (hp : s.phase = .leaving) : Does cap s .leave { s with phase := .exited, queue := [] }

theorem does_of_step (h : s.step cap l = some t) : Does cap s l t := by
  cases l with
  | ruleMatch ruleName acts event ts =>
    simp only [step] at h
    split_ifs at h with hsender
    split at h
    · next a ha =>
      obtain rfl := Option.some.inj h
      exact .emitted ha
    · next hno =>
      obtain rfl := Option.some.inj h
      exact .logged hno
  | raiseShutdown =>
    obtain rfl := Option.some.inj h
    exact .raiseShutdown
  | disconnect =>
    obtain rfl := Option.some.inj h
    exact .disconnect
  | check =>
    simp only [step] at h
    split at h
    · next hp =>
      obtain rfl := Option.some.inj h
      exact .check hp
    · cases h
  | recv =>
    simp only [step] at h
    split at h
    · next a rest hp hq =>
      obtain rfl := Option.some.inj h
      exact .first hp hq
    · next hp hq =>
      split_ifs at h with hsender
      obtain rfl := Option.some.inj h
      exact .disconnected hp hq
    · cases h
  | timeout =>
    simp only [step] at h
    split at h
    · next hp hq =>
      obtain rfl := Option.some.inj h
      exact .timeout hp hq
    · cases h
  | tryRecv =>
    simp only [step] at h
    split at h
    · next batch hp =>
      split_ifs at h with hroom
      · split at h
        · next a rest hq =>
          obtain rfl := Option.some.inj h
          exact .coalesce hp hroom hq
        · obtain rfl := Option.some.inj h
          exact .postBatch hp
      · obtain rfl := Option.some.inj h
        exact .postBatch hp
    · next tail hp =>
      split at h
      · next a rest hq =>
        split_ifs at h with hfull
        · obtain rfl := Option.some.inj h
          exact .drainFull hp hq hfull
        · obtain rfl := Option.some.inj h
          exact .drain hp hq (Nat.lt_of_not_le hfull)
      · next hq =>
        split_ifs at h with htail
        · obtain rfl := Option.some.inj h
          exact .drained (htail ▸ hp) hq
        · obtain rfl := Option.some.inj h
          exact .postTail hp hq htail
    · cases h
  | reply r =>
    simp only [step] at h
    split at h
    · next batch next hp =>
      split_ifs at h with hr
      obtain rfl := Option.some.inj h
      exact .reply hp hr
    · cases h
  | leave =>
    simp only [step] at h
    split at h
    · next hp =>
      obtain rfl := Option.some.inj h
      exact .leave hp
    · cases h

/-! ### Conservation -/

/-- Alerts that are still queued or being posted. -/
def underWay (s : Alerts) : ℕ :=
  s.queue.length + s.phase.inHand.length + s.phase.inPost.length

/-- Every match that carries an alert or a kill is sent, dropped or under way. -/
def Conserved (s : Alerts) : Prop := s.matched = s.alertsSent + s.alertsDropped + s.underWay

instance (s : Alerts) : Decidable s.Conserved := inferInstanceAs (Decidable (_ = _))

/-- Nothing gets lost without being counted: an alert meets room in the channel, the server takes
all of a batch that it answers, and the receiver does not leave anything behind. -/
def Accounted (cap : ℕ) (s : Alerts) : Label → Prop
  | .ruleMatch ruleName acts event ts =>
    (emitAlert ruleName acts event ts).isSome = true → s.HasRoom cap
  | .reply (.answered (some received)) => received = s.phase.inPost.length
  | .leave => s.queue = []
  | _ => True

@[simp] theorem inHand_phase (next : AfterPost) : next.phase.inHand = [] := by cases next <;> rfl

@[simp] theorem inPost_phase (next : AfterPost) : next.phase.inPost = [] := by cases next <;> rfl

/-- **One step** keeps the balance exactly if it is accounted for. -/
theorem conserved_step_iff (hs : s.Conserved) (h : s.step cap l = some t) :
    t.Conserved ↔ Accounted cap s l := by
  unfold Conserved underWay at hs ⊢
  cases does_of_step h with
  | logged hno => simp [Accounted, hno, hs]
  | @emitted ruleName acts event ts a ha =>
    by_cases hroom : s.HasRoom cap
    · simp only [Accounted, ha, emit, if_pos hroom, List.length_append, List.length_singleton]
      exact iff_of_true (by omega) fun _ => hroom
    · simp only [Accounted, ha, emit, if_neg hroom]
      exact iff_of_false (by omega) fun hall => hroom (hall rfl)
  | raiseShutdown => exact iff_of_true hs trivial
  | disconnect => exact iff_of_true hs trivial
  | check hp =>
    refine iff_of_true ?_ trivial
    rw [hp] at hs
    cases hsh : s.shutdown <;> simpa [Phase.inHand, Phase.inPost] using hs
  | first hp hq =>
    refine iff_of_true ?_ trivial
    simp only [hp, hq, take, Phase.inHand, Phase.inPost, List.length_cons, List.length_nil] at hs ⊢
    omega
  | disconnected hp hq =>
    refine iff_of_true ?_ trivial
    simpa [hp, Phase.inHand, Phase.inPost] using hs
  | timeout hp hq =>
    refine iff_of_true ?_ trivial
    simpa [hp, Phase.inHand, Phase.inPost] using hs
  | coalesce hp hroom hq =>
    refine iff_of_true ?_ trivial
    simp only [hp, hq, take, Phase.inHand, Phase.inPost, List.length_cons, List.length_nil,
      List.length_append] at hs ⊢
    omega
  | postBatch hp =>
    refine iff_of_true ?_ trivial
    simp only [hp, post, Phase.inHand, Phase.inPost, List.length_nil] at hs ⊢
    omega
  | drainFull hp hq hfull =>
    refine iff_of_true ?_ trivial
    simp only [hp, hq, take, post, Phase.inHand, Phase.inPost, List.length_cons, List.length_nil,
      List.length_append] at hs ⊢
    omega
  | drain hp hq hroom =>
    refine iff_of_true ?_ trivial
    simp only [hp, hq, take, Phase.inHand, Phase.inPost, List.length_cons, List.length_nil,
      List.length_append] at hs ⊢
    omega
  | drained hp hq =>
    refine iff_of_true ?_ trivial
    simpa [hp, Phase.inHand, Phase.inPost] using hs
  | postTail hp hq htail =>
    refine iff_of_true ?_ trivial
    simp only [hp, post, Phase.inHand, Phase.inPost, List.length_nil] at hs ⊢
    omega
  | @reply r batch next hp hr =>
    simp only [hp, Phase.inHand, Phase.inPost, List.length_nil] at hs
    rcases r with text | _ | received
    · refine iff_of_true ?_ trivial
      simp only [count, PostReply.received, inHand_phase, inPost_phase, List.length_nil]
      omega
    · refine iff_of_true ?_ trivial
      simp only [count, PostReply.received, Option.getD_none, inHand_phase, inPost_phase,
        List.length_nil]
      omega
    · have hpost : s.phase.inPost = batch := by
        rw [hp]
        rfl
      simp only [count, PostReply.received, Option.getD_some, inHand_phase, inPost_phase,
        List.length_nil, Accounted, hpost]
      omega
  | leave hp =>
    simp only [hp, Accounted, Phase.inHand, Phase.inPost, List.length_nil] at hs ⊢
    rw [← List.length_eq_zero_iff]
    omega

/-- **Where alerts are counted.** In a run of engine and thread, every match is sent, dropped or
under way at every point exactly if each step of the run is accounted for. -/
theorem conserved_iff_along {ls : List Label} (hr : run (step cap) start ls = some s) :
    (∀ ms rest t, ls = ms ++ rest → run (step cap) start ms = some t → t.Conserved) ↔
      Along (step cap) (Accounted cap) start ls :=
  forall_split_iff_along rfl (fun _ _ _ _ ht hP hst => (conserved_step_iff ht hst).mpr hP)
    (fun _ _ _ _ ht hst hv => (conserved_step_iff ht hst).mp hv) hr

instance (cap : ℕ) (s : Alerts) : (l : Label) → Decidable (Accounted cap s l)
  | .ruleMatch ruleName acts event ts =>
    inferInstanceAs (Decidable ((emitAlert ruleName acts event ts).isSome = true → s.HasRoom cap))
  | .reply (.answered (some received)) =>
    inferInstanceAs (Decidable (received = s.phase.inPost.length))
  | .leave => inferInstanceAs (Decidable (s.queue = []))
  | .reply (.answered none) | .reply (.failed _) | .raiseShutdown | .disconnect | .check | .recv
  | .timeout | .tryRecv => isTrue trivial

/-- A match that carries an alert. -/
def hit : Label :=
  .ruleMatch "RemoteThread" [.log, .alert "remote thread"]
    { module := "kernel_callback", eventType := "thread_create", fields := [("pid", .int 4242)],
      timestamp := 0 } "2026-01-01T00:00:00.000Z"

/-- The alert of `hit`. -/
def hitAlert : AgentAlert where
  ruleName := "RemoteThread"
  actionTaken := "alert"
  module := "kernel_callback"
  ts := "2026-01-01T00:00:00.000Z"
  evidence := .object [("event_type", .string "thread_create"), ("pid", .number "4242")]

/-- One alert, taken by the server. -/
theorem delivered_conserved : ∃ s,
    run (step 1024) start [hit, .check, .recv, .tryRecv, .reply (.answered (some 1))] = some s ∧
      ∀ ms rest t, [hit, .check, .recv, .tryRecv, .reply (.answered (some 1))] = ms ++ rest →
        run (step 1024) start ms = some t → t.Conserved :=
  ⟨_, rfl, (conserved_iff_along rfl).mpr (by decide +kernel)⟩

theorem step_hit (hs : s.sender = true) : s.step cap hit = some (s.emit cap hitAlert) := by
  have halert : emitAlert "RemoteThread" [.log, .alert "remote thread"]
      { module := "kernel_callback", eventType := "thread_create", fields := [("pid", .int 4242)],
        timestamp := 0 } "2026-01-01T00:00:00.000Z" = some hitAlert := by decide +kernel
  simp only [step, hit, hs, if_true, halert]

/-- So many alerts in the channel, and the thread has not got to run. -/
def filled (n : ℕ) : Alerts where
  queue := List.replicate n hitAlert
  matched := n
  accepted := List.replicate n hitAlert

theorem run_replicate_hit {n : ℕ} (h : n ≤ cap) :
    run (step cap) start (List.replicate n hit) = some (filled n) := by
  induction n with
  | zero => rfl
  | succ n ih =>
    have hroom : (filled n).HasRoom cap := ⟨by simp [filled], .inl (by simp [filled]; omega)⟩
    rw [List.replicate_succ', run_append_of_run (ih (by omega)), run_cons, step_hit rfl,
      Option.bind_some, run_nil, emit, if_pos hroom]
    simp [filled, List.replicate_succ']

/-- One match more than the channel has room for. -/
theorem overflow_not_conserved (cap : ℕ) : ∃ s,
    run (step cap) start (List.replicate (cap + 1) hit) = some s ∧ ¬s.Conserved := by
  refine ⟨(filled cap).emit cap hitAlert, ?_, ?_⟩
  · rw [List.replicate_succ', run_append_of_run (run_replicate_hit le_rfl), run_cons, step_hit rfl]
    rfl
  · have hroom : ¬(filled cap).HasRoom cap := by simp [HasRoom, filled]
    rw [emit, if_neg hroom]
    simp [Conserved, underWay, filled, Phase.inHand, Phase.inPost]

/-- **Two alerts that nobody counts**: the one that finds the channel full, and the one that the
server skips. -/
theorem losses_not_conserved :
    (∃ s, run (step 1024) start (List.replicate 1025 hit) = some s ∧ ¬s.Conserved) ∧
      ∃ s, run (step 1024) start [hit, .check, .recv, .tryRecv, .reply (.answered (some 0))]
        = some s ∧ ¬s.Conserved :=
  ⟨overflow_not_conserved 1024, _, rfl, by decide +kernel⟩

/-! ### Order -/

/-- The thread is in the loop of the final drain. -/
def inDrain (s : Alerts) : Bool :=
  match s.phase with
  | .draining _ | .posting _ .drain => true
  | _ => false

/-- How many alerts the thread may have in hand, by where it is. -/
def HandSize (s : Alerts) : Prop :=
  match s.phase with
  | .coalescing batch => 1 ≤ batch.length ∧ batch.length ≤ maxBatch
  | .draining tail => tail.length < maxBatch
  | _ => True

/-- What went through the channel and to the server, in its order. -/
structure InOrder (s : Alerts) : Prop where
  handed : s.posted.flatten ++ s.phase.inHand = s.received
  queued : s.phase ≠ .exited → s.received ++ s.queue = s.accepted
  first : s.received <+: s.accepted
  batches : ∀ batch ∈ s.posted, 1 ≤ batch.length ∧ batch.length ≤ maxBatch
  sent : s.requests = s.posted.map (List.map alertOut)
  hand : s.HandSize

/-- A batch that is handed to `post_batch`. -/
theorem InOrder.post {batch : List AgentAlert} {next : AfterPost} (h : s.InOrder)
    (hhand : s.posted.flatten ++ batch = s.received) (hpos : 1 ≤ batch.length)
    (hmax : batch.length ≤ maxBatch) (hexit : s.phase ≠ .exited) : (s.post batch next).InOrder where
  handed := by simpa [Alerts.post, Phase.inHand] using hhand
  queued _ := h.queued hexit
  first := h.first
  batches := by
    simp only [Alerts.post, List.forall_mem_append, List.forall_mem_singleton]
    exact ⟨h.batches, hpos, hmax⟩
  sent := by simp [Alerts.post, h.sent]
  hand := trivial

/-- An alert that is taken into the hand. -/
theorem InOrder.take {a : AgentAlert} {rest : List AgentAlert} {phase : Phase} (h : s.InOrder)
    (hexit : s.phase ≠ .exited) (hq : s.queue = a :: rest)
    (hhand : phase.inHand = s.phase.inHand ++ [a]) (hsize : (s.take a rest phase).HandSize) :
    (s.take a rest phase).InOrder where
  handed := by
    simp only [Alerts.take, hhand]
    rw [← List.append_assoc, h.handed]
  queued _ := by
    simp only [Alerts.take]
    rw [← h.queued hexit, hq, List.append_assoc, List.singleton_append]
  first := ⟨rest, by
    simp only [Alerts.take]
    rw [← h.queued hexit, hq, List.append_assoc, List.singleton_append]⟩
  batches := h.batches
  sent := h.sent
  hand := hsize

/-- A move of the thread that touches no alert. -/
theorem InOrder.move {phase : Phase} (h : s.InOrder) (hexit : s.phase ≠ .exited)
    (hhand : s.phase.inHand = []) (hhand' : phase.inHand = [])
    (hsize : HandSize { s with phase := phase }) : InOrder { s with phase := phase } where
  handed := by
    have := h.handed
    rwa [hhand, ← hhand'] at this
  queued _ := h.queued hexit
  first := h.first
  batches := h.batches
  sent := h.sent
  hand := hsize

theorem InOrder.count (h : s.InOrder) (batch : List AgentAlert) (r : PostReply) :
    (s.count batch r).InOrder ∧ (s.count batch r).phase = s.phase := by
  rw [Alerts.count]
  split <;> exact ⟨⟨h.handed, h.queued, h.first, h.batches, h.sent, h.hand⟩, rfl⟩

theorem InOrder.emit {a : AgentAlert} (h : s.InOrder) : (s.emit cap a).InOrder := by
  rw [Alerts.emit]
  split_ifs with hroom
  · refine ⟨h.handed, fun hexit => ?_, h.first.trans (List.prefix_append _ _), h.batches, h.sent,
      h.hand⟩
    rw [← List.append_assoc, h.queued hexit]
  · exact ⟨h.handed, h.queued, h.first, h.batches, h.sent, h.hand⟩

/-- **One step** keeps the order. -/
theorem InOrder.step (h : s.InOrder) (hst : s.step cap l = some t) : t.InOrder := by
  cases does_of_step hst with
  | logged hno => exact h
  | emitted ha => exact h.emit
  | raiseShutdown => exact ⟨h.handed, h.queued, h.first, h.batches, h.sent, h.hand⟩
  | disconnect => exact ⟨h.handed, h.queued, h.first, h.batches, h.sent, h.hand⟩
  | check hp =>
    refine h.move (by rw [hp]; simp) (by rw [hp]; rfl) (by split_ifs <;> rfl) ?_
    cases hsh : s.shutdown <;> simp [HandSize, maxBatch]
  | first hp hq =>
    refine h.take (by rw [hp]; simp) hq (by rw [hp]; rfl) ?_
    simp [HandSize, Alerts.take, maxBatch]
  | disconnected hp hq =>
    exact h.move (by rw [hp]; simp) (by rw [hp]; rfl) rfl (by simp [HandSize, maxBatch])
  | timeout hp hq => exact h.move (by rw [hp]; simp) (by rw [hp]; rfl) rfl trivial
  | coalesce hp hroom hq =>
    refine h.take (by rw [hp]; simp) hq (by rw [hp]; rfl) ?_
    exact ⟨by simp, by rw [List.length_append, List.length_singleton]; exact hroom⟩
  | postBatch hp =>
    have hhand := h.handed
    have hsize := h.hand
    rw [hp] at hhand
    rw [HandSize, hp] at hsize
    exact h.post hhand hsize.1 hsize.2 (by rw [hp]; simp)
  | @drainFull tail rest a hp hq hfull =>
    have hsize := h.hand
    rw [HandSize, hp] at hsize
    have hlen : (tail ++ [a]).length ≤ maxBatch := by
      rw [List.length_append, List.length_singleton]
      exact hsize
    -- taken into the hand as the other loop does, which lets a hand be full
    have htaken : (s.take a rest (.coalescing (tail ++ [a]))).InOrder :=
      h.take (by rw [hp]; simp) hq (by rw [hp]; rfl) ⟨by simp, hlen⟩
    exact htaken.post htaken.handed (by simp) hlen (by simp [Alerts.take])
  | drain hp hq hroom =>
    exact h.take (by rw [hp]; simp) hq (by rw [hp]; rfl) hroom
  | drained hp hq => exact h.move (by rw [hp]; simp) (by rw [hp]; rfl) rfl trivial
  | @postTail tail hp hq htail =>
    have hhand := h.handed
    have hsize := h.hand
    rw [hp] at hhand
    rw [HandSize, hp] at hsize
    exact h.post hhand (List.length_pos_iff.mpr htail) hsize.le (by rw [hp]; simp)
  | @reply r batch next hp hr =>
    obtain ⟨hcount, hphase⟩ := h.count batch r
    refine hcount.move (by rw [hphase, hp]; simp) (by rw [hphase, hp]; rfl) (inHand_phase next) ?_
    cases next <;> simp [HandSize, AfterPost.phase, maxBatch]
  | leave hp =>
    refine ⟨?_, fun hexit => absurd rfl hexit, h.first, h.batches, h.sent, trivial⟩
    have hhand := h.handed
    rwa [hp] at hhand

theorem inOrder_start : InOrder start where
  handed := rfl
  queued _ := rfl
  first := List.nil_prefix
  batches := by simp [start]
  sent := rfl
  hand := trivial

theorem inOrder_of_run {ls : List Label} (hr : run (step cap) start ls = some s) : s.InOrder :=
  invariant_of_run (fun _ _ _ h hst => h.step hst) inOrder_start hr

/-- The thread leaves the loop of the final drain only where it finds nothing. -/
theorem queue_of_leaves_drain (hst : s.step cap l = some t) (hin : s.inDrain = true)
    (hout : t.inDrain = false) : s.queue = [] ∧ t.queue = [] := by
  unfold inDrain at hin hout
  cases does_of_step hst with
  | drained hp hq => exact ⟨hq, hq⟩
  | postTail hp hq htail => exact ⟨hq, hq⟩
  | leave hp => simp [hp] at hin
  | @reply r batch next hp hr =>
    cases next with
    | drain => simp [AfterPost.phase] at hout
    | head => simp [hp] at hin
    | leave => simp [hp] at hin
  | emitted ha =>
    have hphase (a : AgentAlert) : (s.emit cap a).phase = s.phase := by
      rw [emit]
      split <;> rfl
    rw [hphase] at hout
    rw [hin] at hout
    cases hout
  | drainFull hp hq hfull => simp [post] at hout
  | drain hp hq hroom => simp [take] at hout
  | logged hno => rw [hin] at hout; cases hout
  | raiseShutdown => rw [hin] at hout; cases hout
  | disconnect => rw [hin] at hout; cases hout
  | check hp => simp [hp] at hin
  | first hp hq => simp [hp] at hin
  | disconnected hp hq => simp [hp] at hin
  | timeout hp hq => simp [hp] at hin
  | coalesce hp hroom hq => simp [hp] at hin
  | postBatch hp => simp [hp] at hin

/-- **Posted once and in order.** In every run the batches handed to `post_batch` are together what
was received, short of the alerts the thread has in hand; what was received are the first of the
alerts that went into the channel; a batch has 1 to 64 alerts, and its request carries them; and
the final drain is left with the channel empty. -/
theorem alerts_posted_in_order {ls : List Label} (hr : run (step cap) start ls = some s) :
    s.posted.flatten ++ s.phase.inHand = s.received ∧ s.received <+: s.accepted ∧
      (∀ batch ∈ s.posted, 1 ≤ batch.length ∧ batch.length ≤ maxBatch) ∧
      s.requests = s.posted.map (List.map alertOut) ∧
      ∀ l t, s.step cap l = some t → s.inDrain = true → t.inDrain = false →
        s.queue = [] ∧ t.queue = [] := by
  have h := inOrder_of_run hr
  exact ⟨h.handed, h.first, h.batches, h.sent, fun _ _ => queue_of_leaves_drain⟩

/-- `SHUTDOWN` is raised while an alert is on its way; a second one is drained. -/
theorem drained_in_order : ∃ s,
    run (step 1024) start [hit, .check, .recv, .tryRecv, .raiseShutdown, hit,
      .reply (.answered (some 1)), .check, .tryRecv, .tryRecv, .reply (.failed "timeout"), .leave]
        = some s ∧
      s.phase = .exited ∧ s.posted = [[hitAlert], [hitAlert]] ∧
      s.posted.flatten ++ s.phase.inHand = s.received :=
  have hrun : run (step 1024) start [hit, .check, .recv, .tryRecv, .raiseShutdown, hit,
      .reply (.answered (some 1)), .check, .tryRecv, .tryRecv, .reply (.failed "timeout"), .leave]
        = some _ := rfl
  ⟨_, hrun, rfl, by decide +kernel, (alerts_posted_in_order hrun).1⟩

end Alerts

end Control

end WazabiAgent
