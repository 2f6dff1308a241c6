import WazabiAgent.Agent.Pump

/-!
# The teardown of the agent

After the pump has returned, `run_agent` joins what it started, one thread after the other, in a
fixed order. Each of these threads has its own way of learning that it should end. Most of them
poll `SHUTDOWN`. The writer threads of the spools do not: they end when the last sender of their
channel is dropped, and senders are held by the ETW callbacks, by the two polling threads, by the
accept thread of the plugin server and by each plugin session. Main raises nothing on this path; it
relies on `SHUTDOWN` having been what made the pump return.

Sessions are not joined by anybody. They end when their client goes away.

What `ferrisetw` does with the callbacks of a session is not part of the repository: whether the
trace object that `EtwHandle` holds until the end of its `shutdown` keeps them is the parameter
`keeps`. The watchdog of `main`, which ends the process eight seconds after `SHUTDOWN`, is not a
way for a join to return and is left out.

## Main definitions

* `joinOrder`, `AppConfig.started` — the threads, and which of them a configuration leads to
* `Teardown.step` — main at its joins, beside threads that end and sessions that come and go
* `Teardown.JoinOk` — the exit condition of the thread that main waits for holds
* `Teardown.Ends` — nothing but ending threads and returning joins leads to the end
* `ToldToStop` — when the teardown gets through

## Main results

* `ends_of_joinOk` — if the exit condition holds at every join, the process ends
* `teardown_iff` — it does, for a configuration, exactly if `ToldToStop`
-/

namespace WazabiAgent

namespace Agent

open LabelledStep

/-! ### What main starts -/

/-- The threads that `run_agent` joins. The supervisor stands for its watcher, which is always
among its threads. -/
inductive Thread
  | wazaReload
  | supervisor
  | pluginAccept
  | pluginReload
  | pluginStats
  | kernelWriter
  | pluginWriter
  | shipper
  | heartbeat
  | alerts
  | etw
  | etwStop
  | pollServices
  | pollTasks
  deriving DecidableEq

/-- The order of the joins. -/
def joinOrder : List Thread :=
  [.wazaReload, .supervisor, .pluginAccept, .pluginReload, .pluginStats, .kernelWriter,
    .pluginWriter, .shipper, .heartbeat, .alerts, .etw, .etwStop, .pollServices, .pollTasks]

/-- The switches of the ETW providers. -/
structure EtwConfig where
  dns : Bool := true
  tcp : Bool := true
  powershell : Bool := true
  wmi : Bool := true
  schannel : Bool := true
  amsi : Bool := true

/-- `etw::spawn` starts no session without a provider. -/
def EtwConfig.anyProvider (c : EtwConfig) : Bool :=
  c.dns || c.tcp || c.powershell || c.wmi || c.schannel || c.amsi

/-- The switches of the pollers. -/
structure PollingConfig where
  services : Bool := true
  scheduledTasks : Bool := true

/-- The sections of the configuration that decide what is started. -/
structure AppConfig where
  detection : Bool
  shipper : Bool
  /-- The `control` section with its `send_alerts`. -/
  control : Option Bool
  etw : Option EtwConfig
  polling : Option PollingConfig

/-- Which of the fallible starts succeed. -/
structure Spawns where
  rulesLoad : Bool := true
  wazaReload : Bool := true
  pluginSpool : Bool := true
  pluginServer : Bool := true
  pluginReload : Bool := true
  pluginStats : Bool := true
  shipper : Bool := true
  control : Bool := true
  etwSession : Bool := true
  etw : Bool := true
  etwStop : Bool := true
  pollServices : Bool := true
  pollTasks : Bool := true

variable (cfg : AppConfig) (env : Spawns)

/-- `etw::spawn` returned a handle. -/
def AppConfig.etwSession : Bool := cfg.etw.any EtwConfig.anyProvider && env.etwSession

/-- `spawn_control` returned a handle; it needs the credentials of the shipper section. -/
def AppConfig.controlPlane : Bool := cfg.control.isSome && cfg.shipper && env.control

/-- Which handles main holds when it comes to the pump. -/
def AppConfig.started : Thread → Bool
  | .wazaReload => cfg.detection && env.rulesLoad && env.wazaReload
  | .supervisor | .pluginAccept => env.pluginServer
  | .pluginReload => env.pluginServer && env.pluginReload
  | .pluginStats => env.pluginServer && env.pluginStats
  | .kernelWriter => true
  | .pluginWriter => env.pluginSpool
  | .shipper => cfg.shipper && env.shipper
  | .heartbeat => cfg.controlPlane env
  | .alerts => cfg.controlPlane env && cfg.detection && cfg.control.getD false
  | .etw => cfg.etwSession env && env.etw
  | .etwStop => cfg.etwSession env && env.etwStop
  | .pollServices => cfg.polling.any PollingConfig.services && env.pollServices
  | .pollTasks => cfg.polling.any PollingConfig.scheduledTasks && env.pollTasks

/-! ### The teardown -/

/-- The process between the first join and its end. -/
structure Teardown where
  /-- The joins still to be made; main is at the first of them. -/
  todo : List Thread
  exited : Thread → Bool
  shutdown : Bool
  /-- Plugin sessions, each with a sender of the plugin spool. -/
  sessions : ℕ

/-- Main when `run_pump_loop` has returned. -/
def Teardown.start (p : Pump) : Teardown where
  todo := joinOrder.filter (cfg.started env)
  exited _ := false
  shutdown := p.shutdown
  sessions := 0

/-- The thread was started and has not returned. -/
def Teardown.running (s : Teardown) (t : Thread) : Bool := cfg.started env t && !s.exited t

variable (keeps : Bool)

/-- Somebody other than main holds a sender of the kernel spool. -/
def Teardown.kernelSenders (s : Teardown) : Bool :=
  (cfg.etwSession env && keeps) || s.running cfg env .etw || s.running cfg env .pollServices ||
    s.running cfg env .pollTasks

/-- Somebody other than main holds a sender of the plugin spool. -/
def Teardown.pluginSenders (s : Teardown) : Bool :=
  s.running cfg env .pluginAccept || decide (0 < s.sessions)

/-- What lets a thread end. Main drops its own sender of a spool when it comes to its join; the
sender of the alerts channel lives as long as `run_agent`. -/
def Teardown.exitCondition (s : Teardown) : Thread → Bool
  | .kernelWriter => s.todo.head? = some .kernelWriter && !s.kernelSenders cfg env keeps
  | .pluginWriter => s.todo.head? = some .pluginWriter && !s.pluginSenders cfg env
  -- the session is stopped by the other ETW thread
  | .etw => s.shutdown && cfg.started env .etwStop
  | _ => s.shutdown

/-- What happens next. -/
inductive Teardown.Label
  /-- Somebody asks for a shutdown. -/
  | raise
  | exits (t : Thread)
  | joinReturns
  | sessionOpens
  | sessionEnds
  deriving DecidableEq

/-- One step of main or of a thread. -/
def Teardown.step (s : Teardown) : Teardown.Label → Option Teardown
  | .raise => some { s with shutdown := true }
  | .exits t =>
    if s.running cfg env t && s.exitCondition cfg env keeps t then
      some { s with exited := Function.update s.exited t true }
    else none
  | .joinReturns =>
    match s.todo with
    | t :: rest => if s.exited t then some { s with todo := rest } else none
    | [] => none
  | .sessionOpens =>
    if s.running cfg env .pluginAccept then some { s with sessions := s.sessions + 1 } else none
  | .sessionEnds => if s.sessions = 0 then none else some { s with sessions := s.sessions - 1 }

/-- The exit condition of the thread that main waits for holds. -/
def Teardown.JoinOk (s : Teardown) : Prop :=
  ∀ t rest, s.todo = t :: rest → s.exitCondition cfg env keeps t = true

/-- Threads that end and joins that return: nobody asks for anything, no session moves. -/
def Teardown.Label.IsTeardown : Teardown.Label → Prop
  | .exits _ | .joinReturns => True
  | _ => False

/-- The process ends by what has been asked for already. -/
def Teardown.Ends (s : Teardown) : Prop :=
  ∃ ls t, (∀ l ∈ ls, l.IsTeardown) ∧ run (Teardown.step cfg env keeps) s ls = some t ∧ t.todo = []

/-- When the teardown gets through. -/
structure ToldToStop (shutdown : Bool) : Prop where
  /-- Without `SHUTDOWN`, only the writer threads were started. -/
  threads : shutdown = true ∨
    ∀ t, cfg.started env t = true → t = .kernelWriter ∨ t = .pluginWriter
  etw : cfg.etwSession env = true → keeps = false ∧ cfg.started env .etw = false
  services : cfg.started env .pollServices = false
  tasks : cfg.started env .pollTasks = false
  sessions : cfg.started env .pluginAccept = true → cfg.started env .pluginWriter = false

/-! ### Steps -/

variable {cfg env keeps} {s u : Teardown} {t : Thread} {rest : List Thread}

/-- The threads that poll `SHUTDOWN` by themselves. -/
def Thread.polls (t : Thread) : Prop := t ≠ .kernelWriter ∧ t ≠ .pluginWriter ∧ t ≠ .etw

theorem exitCondition_of_polls (ht : t.polls) : s.exitCondition cfg env keeps t = s.shutdown := by
  obtain ⟨hk, hp, he⟩ := ht
  cases t <;> first | rfl | contradiction

/-- Where the exit condition holds, the join returns, and nothing but that happens. -/
theorem join_returns (htodo : s.todo = t :: rest) (hst : cfg.started env t = true)
    (hok : s.exitCondition cfg env keeps t = true) :
    ∃ ls, (∀ l ∈ ls, l.IsTeardown) ∧ run (Teardown.step cfg env keeps) s ls =
      some { s with todo := rest, exited := Function.update s.exited t true } := by
  obtain ⟨todo, exited, shutdown, sessions⟩ := s
  obtain rfl : todo = t :: rest := htodo
  by_cases hex : exited t = true
  · have hupd : Function.update exited t true = exited := by
      funext x
      by_cases hx : x = t
      · rw [hx, Function.update_self, hex]
      · exact Function.update_of_ne hx _ _
    refine ⟨[.joinReturns], by simp [Teardown.Label.IsTeardown], ?_⟩
    simp [run_cons, Teardown.step, hex, hupd]
  · refine ⟨[.exits t, .joinReturns], by simp [Teardown.Label.IsTeardown], ?_⟩
    simp [run_cons, Teardown.step, hex, hst, hok, Teardown.running]

/-- What every run keeps: main waits only for what it started, `SHUTDOWN` stays set, and sessions
come from the accept thread. -/
structure Teardown.Inv (cfg : AppConfig) (env : Spawns) (shutdown : Bool) (s : Teardown) :
    Prop where
  started : ∀ t ∈ s.todo, cfg.started env t = true
  shutdown : shutdown = true → s.shutdown = true
  sessions : 0 < s.sessions → cfg.started env .pluginAccept = true

theorem Teardown.Inv.step {sh : Bool} {l : Teardown.Label} (h : s.Inv cfg env sh)
    (hst : s.step cfg env keeps l = some u) : u.Inv cfg env sh := by
  cases l with
  | raise =>
    obtain rfl := Option.some.inj hst
    exact ⟨h.started, fun _ => rfl, h.sessions⟩
  | exits t =>
    simp only [Teardown.step] at hst
    split_ifs at hst
    obtain rfl := Option.some.inj hst
    exact ⟨h.started, h.shutdown, h.sessions⟩
  | joinReturns =>
    simp only [Teardown.step] at hst
    split at hst
    · next t rest htodo =>
      split_ifs at hst
      obtain rfl := Option.some.inj hst
      exact ⟨fun x hx => h.started x (by simp [htodo, hx]), h.shutdown, h.sessions⟩
    · cases hst
  | sessionOpens =>
    simp only [Teardown.step] at hst
    split_ifs at hst with hrun
    obtain rfl := Option.some.inj hst
    refine ⟨h.started, h.shutdown, fun _ => ?_⟩
    rw [Teardown.running, Bool.and_eq_true] at hrun
    exact hrun.1
  | sessionEnds =>
    simp only [Teardown.step] at hst
    split_ifs at hst with hs
    obtain rfl := Option.some.inj hst
    exact ⟨h.started, h.shutdown, fun _ => h.sessions (Nat.pos_of_ne_zero hs)⟩

theorem teardownInv_start (p : Pump) : (Teardown.start cfg env p).Inv cfg env p.shutdown :=
  ⟨fun _ ht => (List.mem_filter.mp ht).2, id, fun h => absurd h (by simp [Teardown.start])⟩

/-! ### Enough -/

/-- **At every join, so to the end.** The induction is on the joins that are left. -/
theorem ends_of_joinOk (hstarted : ∀ t ∈ s.todo, cfg.started env t = true)
    (h : ∀ u, Reachable (Teardown.step cfg env keeps) s u → u.JoinOk cfg env keeps) :
    s.Ends cfg env keeps := by
  induction htodo : s.todo generalizing s with
  | nil => exact ⟨[], s, by simp, rfl, htodo⟩
  | cons t rest ih =>
    have hok : s.exitCondition cfg env keeps t = true := h s (.refl s) t rest htodo
    obtain ⟨ls, hls, hrun⟩ := join_returns htodo (hstarted t (by simp [htodo])) hok
    obtain ⟨ms, u, hms, hrest, hu⟩ :=
      ih (s := { s with todo := rest, exited := Function.update s.exited t true })
        (fun x hx => hstarted x (by rw [htodo]; exact List.mem_cons_of_mem t hx))
        (fun v hv => h v (Reachable.trans ⟨ls, hrun⟩ hv)) rfl
    refine ⟨ls ++ ms, u, fun l hl => ?_, by rw [run_append_of_run hrun, hrest], hu⟩
    exact (List.mem_append.mp hl).elim (hls l) (hms l)

/-- No sender of the kernel spool is left at its join. -/
theorem kernelSenders_of_told {sh : Bool} (hc : ToldToStop cfg env keeps sh) (s : Teardown) :
    s.kernelSenders cfg env keeps = false := by
  have hetw : (cfg.etwSession env && keeps) = false := by
    by_cases h : cfg.etwSession env = true
    · simp [(hc.etw h).1]
    · simp [h]
  have hthread : cfg.started env .etw = false := by
    by_cases h : cfg.etwSession env = true
    · exact (hc.etw h).2
    · simp [AppConfig.started, h]
  simp [Teardown.kernelSenders, Teardown.running, hetw, hthread, hc.services, hc.tasks]

theorem joinOk_of_told {sh : Bool} (hc : ToldToStop cfg env keeps sh) (hs : s.Inv cfg env sh) :
    s.JoinOk cfg env keeps := by
  intro t rest htodo
  have hst : cfg.started env t = true := hs.started t (by simp [htodo])
  by_cases hk : t = .kernelWriter
  · rw [hk] at htodo ⊢
    simp [Teardown.exitCondition, htodo, kernelSenders_of_told hc s]
  by_cases hp : t = .pluginWriter
  · rw [hp] at htodo hst ⊢
    have haccept : cfg.started env .pluginAccept = false := by
      by_contra h
      have hnot := hc.sessions (by simpa using h)
      exact absurd (hst.symm.trans hnot) (by decide)
    have hnone : s.sessions = 0 := by
      by_contra h
      exact absurd (haccept.symm.trans (hs.sessions (Nat.pos_of_ne_zero h))) (by decide)
    simp [Teardown.exitCondition, htodo, Teardown.pluginSenders, Teardown.running, haccept, hnone]
  have hshut : s.shutdown = true := by
    refine hs.shutdown (hc.threads.resolve_right fun h => ?_)
    exact (h t hst).elim hk hp
  by_cases he : t = .etw
  · rw [he] at hst
    have hsession : cfg.etwSession env = true := by
      rw [AppConfig.started, Bool.and_eq_true] at hst
      exact hst.1
    exact absurd (hst.symm.trans (hc.etw hsession).2) (by decide)
  · rw [exitCondition_of_polls ⟨hk, hp, he⟩, hshut]

/-! ### And no less -/

/-- What is known of a teardown in which nobody has asked for anything since it began. -/
structure Unprompted (cfg : AppConfig) (env : Spawns) (keeps shutdown : Bool) (s : Teardown) :
    Prop where
  unchanged : s.shutdown = shutdown
  done : ∀ t, cfg.started env t = true → t ∈ s.todo ∨ s.exited t = true
  told : ∀ t, s.exited t = true → shutdown = true ∨ t = .kernelWriter ∨ t = .pluginWriter
  trace : s.exited .kernelWriter = true → (cfg.etwSession env && keeps) = false

theorem shutdown_of_exitCondition (h : s.exitCondition cfg env keeps t = true) :
    s.shutdown = true ∨ t = .kernelWriter ∨ t = .pluginWriter := by
  cases t with
  | kernelWriter => exact .inr (.inl rfl)
  | pluginWriter => exact .inr (.inr rfl)
  | etw => exact .inl (Bool.and_eq_true_iff.mp h).1
  | _ => exact .inl h

theorem Unprompted.step {sh : Bool} {l : Teardown.Label} (h : Unprompted cfg env keeps sh s)
    (hl : l.IsTeardown) (hst : s.step cfg env keeps l = some u) :
    Unprompted cfg env keeps sh u := by
  cases l with
  | raise | sessionOpens | sessionEnds => exact hl.elim
  | exits t =>
    simp only [Teardown.step] at hst
    split_ifs at hst with hcond
    obtain rfl := Option.some.inj hst
    obtain ⟨-, hexit⟩ := Bool.and_eq_true_iff.mp hcond
    refine ⟨h.unchanged, fun x hx => ?_, fun x hx => ?_, fun hx => ?_⟩
    · refine (h.done x hx).imp_right fun hxe => ?_
      by_cases hxt : x = t
      · rw [hxt]
        exact Function.update_self ..
      · exact (Function.update_of_ne hxt ..).trans hxe
    · by_cases hxt : x = t
      · rw [hxt, ← h.unchanged]
        exact shutdown_of_exitCondition hexit
      · exact h.told x ((Function.update_of_ne hxt ..).symm.trans hx)
    · by_cases hxt : Thread.kernelWriter = t
      · rw [← hxt] at hexit
        simp only [Teardown.exitCondition, Teardown.kernelSenders, Bool.and_eq_true,
          Bool.not_eq_true', Bool.or_eq_false_iff] at hexit
        exact hexit.2.1.1.1
      · exact h.trace ((Function.update_of_ne hxt ..).symm.trans hx)
  | joinReturns =>
    simp only [Teardown.step] at hst
    split at hst
    · next t rest htodo =>
      split_ifs at hst with hex
      obtain rfl := Option.some.inj hst
      refine ⟨h.unchanged, fun x hx => ?_, h.told, h.trace⟩
      have hdone := h.done x hx
      rw [htodo, List.mem_cons] at hdone
      rcases hdone with (rfl | hmem) | hxe
      · exact .inr hex
      · exact .inl hmem
      · exact .inr hxe
    · cases hst

theorem mem_joinOrder (t : Thread) : t ∈ joinOrder := by cases t <;> decide

/-- A teardown that ends had been told to. -/
theorem unprompted_of_ends {p : Pump} (h : (Teardown.start cfg env p).Ends cfg env keeps) :
    ∃ u, u.todo = [] ∧ Unprompted cfg env keeps p.shutdown u := by
  obtain ⟨ls, u, hls, hr, hu⟩ := h
  refine ⟨u, hu, ?_⟩
  refine invariant_of_along (P := fun _ l => l.IsTeardown)
    (fun _ _ _ h hl hst => h.step hl hst) ?_ ?_ hr
  · refine ⟨rfl, fun t ht => .inl (List.mem_filter.mpr ⟨mem_joinOrder t, ht⟩), ?_, ?_⟩
    · exact fun _ h => absurd h (by simp [Teardown.start])
    · exact fun h => absurd h (by simp [Teardown.start])
  · exact (along_iff_forall_split hr).mpr fun ms l rest _ hsplit _ => hls l (by simp [hsplit])

/-- With `SHUTDOWN` set, main gets past threads that poll it. -/
theorem passes {ts : List Thread} (hsh : s.shutdown = true) (htodo : s.todo = ts ++ rest)
    (hts : ∀ t ∈ ts, cfg.started env t = true ∧ t.polls) :
    ∃ u, Reachable (Teardown.step cfg env keeps) s u ∧ u.todo = rest ∧
      u.sessions = s.sessions ∧ ∀ t, ¬ t ∈ ts → u.exited t = s.exited t := by
  induction ts generalizing s with
  | nil => exact ⟨s, .refl s, htodo, rfl, fun _ _ => rfl⟩
  | cons t ts ih =>
    obtain ⟨hst, hpolls⟩ := hts t (by simp)
    obtain ⟨ls, -, hrun⟩ := join_returns htodo hst
      (show s.exitCondition cfg env keeps t = true by rw [exitCondition_of_polls hpolls, hsh])
    obtain ⟨u, hu, hrest, hsess, hsame⟩ :=
      ih (s := { s with todo := ts ++ rest, exited := Function.update s.exited t true }) hsh rfl
        fun x hx => hts x (List.mem_cons_of_mem t hx)
    refine ⟨u, Reachable.trans ⟨ls, hrun⟩ hu, hrest, hsess, fun x hx => ?_⟩
    rw [List.mem_cons, not_or] at hx
    rw [hsame x hx.2]
    exact Function.update_of_ne hx.1 ..

/-- What main joins before it closes the spools. -/
def beforeSpools : List Thread :=
  [.wazaReload, .supervisor, .pluginAccept, .pluginReload, .pluginStats]

/-- What main joins after the spools are closed. -/
def afterSpools : List Thread :=
  [.shipper, .heartbeat, .alerts, .etw, .etwStop, .pollServices, .pollTasks]

theorem todo_start (p : Pump) : (Teardown.start cfg env p).todo =
    beforeSpools.filter (cfg.started env) ++
      .kernelWriter :: (Thread.pluginWriter :: afterSpools).filter (cfg.started env) := by
  rw [← List.filter_cons_of_pos (show cfg.started env .kernelWriter = true from rfl),
    ← List.filter_append]
  rfl

theorem polls_of_mem_beforeSpools (ht : t ∈ beforeSpools) : t.polls := by
  simp only [beforeSpools, List.mem_cons, List.not_mem_nil, or_false] at ht
  rcases ht with rfl | rfl | rfl | rfl | rfl <;> simp [Thread.polls]

/-- With `SHUTDOWN` set, main comes to the writer of the kernel spool, whatever sessions there
are, before any other thread needs to have ended than those joined earlier. -/
theorem reaches_kernelWriter (keeps : Bool) {p : Pump} (hsh : p.shutdown = true) (n : ℕ) :
    ∃ u, Reachable (Teardown.step cfg env keeps)
        { Teardown.start cfg env p with sessions := n } u ∧
      u.todo = .kernelWriter :: (Thread.pluginWriter :: afterSpools).filter (cfg.started env) ∧
      u.sessions = n ∧ ∀ t, ¬ t ∈ beforeSpools → u.exited t = false := by
  obtain ⟨u, hu, htodo, hsess, hsame⟩ :=
    passes (s := { Teardown.start cfg env p with sessions := n }) hsh (todo_start p)
      fun t ht => ⟨(List.mem_filter.mp ht).2, polls_of_mem_beforeSpools (List.mem_filter.mp ht).1⟩
  refine ⟨u, hu, htodo, hsess, fun t ht => ?_⟩
  exact hsame t fun h => ht (List.mem_filter.mp h).1

/-- So none of the holders of a kernel submitter may have been started. -/
theorem kernelSenders_of_joinOk {p : Pump} (hsh : p.shutdown = true)
    (h : ∀ s, Reachable (Teardown.step cfg env keeps) (.start cfg env p) s →
      s.JoinOk cfg env keeps) :
    cfg.started env .etw = false ∧ cfg.started env .pollServices = false ∧
      cfg.started env .pollTasks = false := by
  obtain ⟨u, hu, htodo, -, hexited⟩ := reaches_kernelWriter keeps hsh 0
  have hok : u.exitCondition cfg env keeps .kernelWriter = true := h u hu _ _ htodo
  have hrun : ∀ t, ¬ t ∈ beforeSpools → u.running cfg env t = cfg.started env t := by
    intro t ht
    rw [Teardown.running, hexited t ht, Bool.not_false, Bool.and_true]
  simp only [Teardown.exitCondition, Teardown.kernelSenders, Bool.and_eq_true, Bool.not_eq_true',
    Bool.or_eq_false_iff] at hok
  obtain ⟨-, ⟨⟨-, hetw⟩, hservices⟩, htasks⟩ := hok
  rw [hrun _ (by decide)] at hetw hservices htasks
  exact ⟨hetw, hservices, htasks⟩

/-- Nor may the plugin spool be there for sessions to hold. -/
theorem pluginWriter_of_joinOk {p : Pump} (hsh : p.shutdown = true)
    (h : ∀ s, Reachable (Teardown.step cfg env keeps) (.start cfg env p) s →
      s.JoinOk cfg env keeps)
    (haccept : cfg.started env .pluginAccept = true) : cfg.started env .pluginWriter = false := by
  by_contra hwriter
  rw [Bool.not_eq_false] at hwriter
  have hopen : Reachable (Teardown.step cfg env keeps) (.start cfg env p)
      { Teardown.start cfg env p with sessions := 1 } := by
    refine ⟨[.sessionOpens], ?_⟩
    simp [run_cons, Teardown.step, Teardown.running, Teardown.start, haccept]
  obtain ⟨u, hu, htodo, hsess, -⟩ := reaches_kernelWriter keeps hsh 1
  rw [List.filter_cons_of_pos hwriter] at htodo
  -- past the kernel spool, with the session still there
  obtain ⟨ls, -, hrun⟩ := join_returns htodo rfl (h u (hopen.trans hu) _ _ htodo)
  have hok := h _ ((hopen.trans hu).trans ⟨ls, hrun⟩) _ _ rfl
  simp [Teardown.exitCondition, Teardown.pluginSenders, hsess] at hok

theorem told_of_ends {p : Pump}
    (h : ∀ s, Reachable (Teardown.step cfg env keeps) (.start cfg env p) s →
      s.JoinOk cfg env keeps ∧ s.Ends cfg env keeps) : ToldToStop cfg env keeps p.shutdown := by
  obtain ⟨u, hu, hun⟩ := unprompted_of_ends (h _ (.refl _)).2
  have hexited : ∀ t, cfg.started env t = true → u.exited t = true :=
    fun t ht => (hun.done t ht).resolve_left (by simp [hu])
  have hthreads : ∀ t, cfg.started env t = true →
      p.shutdown = true ∨ t = .kernelWriter ∨ t = .pluginWriter :=
    fun t ht => hun.told t (hexited t ht)
  have htrace : (cfg.etwSession env && keeps) = false := hun.trace (hexited _ rfl)
  have hjoin := fun s hs => (h s hs).1
  by_cases hsh : p.shutdown = true
  · obtain ⟨hetw, hservices, htasks⟩ := kernelSenders_of_joinOk hsh hjoin
    refine ⟨.inl hsh, fun he => ⟨?_, hetw⟩, hservices, htasks, pluginWriter_of_joinOk hsh hjoin⟩
    simpa [he] using htrace
  · have hnone : ∀ t, t ≠ .kernelWriter → t ≠ .pluginWriter → cfg.started env t = false := by
      intro t hk hp
      by_contra ht
      exact (hthreads t (by simpa using ht)).elim hsh fun hor => hor.elim hk hp
    refine ⟨.inr fun t ht => (hthreads t ht).resolve_left hsh, fun he => ⟨?_, ?_⟩, ?_, ?_, ?_⟩
    · simpa [he] using htrace
    all_goals first
      | exact hnone _ (by decide) (by decide)
      | exact fun ha => absurd (ha.symm.trans (hnone _ (by decide) (by decide))) (by decide)

/-- **When the teardown gets through.** At each join that main comes to, in whatever order the
threads end and sessions come and go, the exit condition holds, and the process ends, if and only
if the threads were told to stop. -/
theorem teardown_iff (cfg : AppConfig) (env : Spawns) (keeps : Bool) (p : Pump) :
    (∀ s, Reachable (Teardown.step cfg env keeps) (.start cfg env p) s →
      s.JoinOk cfg env keeps ∧ s.Ends cfg env keeps) ↔ ToldToStop cfg env keeps p.shutdown := by
  refine ⟨told_of_ends, fun hc s hs => ?_⟩
  have hinv : ∀ u, Reachable (Teardown.step cfg env keeps) (.start cfg env p) u →
      u.Inv cfg env p.shutdown := fun u hu => hu.invariant (fun _ _ _ h hst => h.step hst)
    (teardownInv_start p)
  refine ⟨joinOk_of_told hc (hinv s hs), ends_of_joinOk (hinv s hs).started fun u hu => ?_⟩
  exact joinOk_of_told hc (hinv u (hs.trans hu))

/-- A pump whose device fails. -/
def deviceFails : List Label := [.register, .check, .issue, .complete .error]

/-- An agent with detection and no other section, on which every start succeeds. -/
def detectionOnly : AppConfig where
  detection := true
  shipper := false
  control := none
  etw := none
  polling := none

/-- **An error of the device, and the rule reload is never told.** -/
theorem deviceFails_stays : ∃ p, run Pump.step .start deviceFails = some p ∧
    p.pc = .returned ∧ ¬ ∀ s,
      Reachable (Teardown.step detectionOnly {} true) (.start detectionOnly {} p) s →
        s.JoinOk detectionOnly {} true ∧ s.Ends detectionOnly {} true := by
  refine ⟨_, rfl, rfl, fun h => ?_⟩
  have hok := (h _ (.refl _)).1 .wazaReload _ rfl
  cases hok

end Agent

end WazabiAgent
