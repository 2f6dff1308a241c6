import WazabiAgent.Spool.Recovery

/-!
# How old does the active file get?

Rotation by age is decided in one place, the branch of the loop that a timeout leads to. Each
receive is given the time that is left until `max_age`, but not less than `MIN_RECV_TIMEOUT`, so a
file that nothing more comes for is sealed soon after. A line that comes starts a new receive,
however, and nobody looks at the age before that one has waited `MIN_RECV_TIMEOUT` again: lines
that come faster than this keep the file open until it is full.

So the age is bounded as long as a line that comes late fills the file. `withinAge_of_along` is
that direction. `leftOpen_of_late` is the other one: after a late line that does not fill the file,
and that no other line follows at once, the thread waits for too long if nothing else happens.

## Main results

* `Spool.OnTime.step` — what is known of the age at every place of the loop
* `Spool.withinAge_of_along` — the bound, if late lines fill the file
* `Spool.leftOpen_of_late` — and not otherwise
* `Spool.steadyLines_leaveOpen` — a line every 60 ms
-/

namespace WazabiAgent

namespace Spool

open LabelledStep Prog

/-! ### Time and age -/

/-- The age at which a file is due. -/
def SpoolConfig.ageLimit (cfg : SpoolConfig) : ℕ := max cfg.maxAge minRecvTimeout

/-- Where the thread waits, a file that is not empty is at most one short receive overdue. -/
def WithinAge (cfg : SpoolConfig) (s : System) : Prop :=
  ∀ loc f, s.writer = some (.op .recv (onReceived cfg loc)) → loc.active = some f →
    0 < f.bytesWritten → s.spool.clock - loc.activeStartedAt ≤ cfg.ageLimit + minRecvTimeout

/-- The receive has something to return at once. -/
def SpoolState.ready (w : SpoolState) : Bool := !w.queue.isEmpty || w.disconnected

/-- Processing takes no time: the clock moves only while the thread waits, and not beyond the
moment at which it stops waiting. -/
def Prompt (s : System) : Label → Prop
  | .other (.tick d) => s.AtReceive ∧ s.spool.ready = false ∧
      ∃ deadline ∈ s.spool.deadline, s.spool.clock + d ≤ deadline
  | _ => True

/-- A line that is received when the file is due, and that nothing follows at once, fills it. -/
def LateLinesFill (cfg : SpoolConfig) (s : System) (l : Label) : Prop :=
  ∀ c loc f x, l = .op c → s.writer = some (.op .recv (onReceived cfg loc)) →
    loc.active = some f → s.spool.queue = [x] → s.spool.disconnected = false →
      cfg.ageLimit < s.spool.clock - loc.activeStartedAt →
        cfg.maxBytesPerFile ≤ f.bytesWritten + x.bytes.length

variable {cfg : SpoolConfig} {dir : Dir} {w w' : SpoolState} {s t : System} {l : Label}
  {loc : Locals} {limit clock : ℕ}

/-! ### What an iteration leaves behind -/

/-- The file, if there is one, is not older than this. -/
def NotOlder (limit clock : ℕ) (loc : Locals) : Prop :=
  loc.active ≠ none → clock - loc.activeStartedAt ≤ limit

/-- The answers while the clock stands still and every write succeeds. -/
def SpoolOp.promptly (clock : ℕ) {β : Type} : SpoolOp β → β → Prop
  | .now, t => t = clock
  | .writeLine _, ok => ok = true
  | _, _ => True

/-- The program ends with a file that is not older than `limit`, or returns. -/
abbrev EndsNotOlder (limit clock : ℕ) (p : Prog SpoolOp (Option Locals)) : Prop :=
  Yields (SpoolOp.promptly clock) (fun r => ∀ loc ∈ r, NotOlder limit clock loc) p

theorem endsNotOlder_now (active : Option ActiveFile) :
    EndsNotOlder limit clock (.op .now fun now => .pure (some ⟨active, now⟩)) := by
  intro now hnow loc hloc _
  obtain rfl := Option.mem_some_iff.mp hloc
  obtain rfl : now = clock := hnow
  show now - now ≤ limit
  omega

theorem endsNotOlder_rotate : EndsNotOlder limit clock (rotate cfg >>= fun active =>
    .op .now fun now => .pure (some ⟨active, now⟩)) :=
  (yields_trivial (rotate cfg)).bind fun active _ => endsNotOlder_now active

theorem endsNotOlder_none : EndsNotOlder limit clock (.pure none) :=
  fun _ h => absurd h (by simp)

theorem endsNotOlder_onReceived {r : Received} (h : ∀ x f, r = .line x → loc.active = some f →
    cfg.maxBytesPerFile ≤ f.bytesWritten + x.bytes.length ∨
      clock - loc.activeStartedAt ≤ limit) :
    EndsNotOlder limit clock (onReceived cfg loc r) := by
  cases hf : loc.active with
  | none =>
    have hloc : EndsNotOlder limit clock (.pure (some loc)) := by
      intro loc' hloc hsome
      obtain rfl := Option.mem_some_iff.mp hloc
      exact absurd hf hsome
    cases r with
    | line x =>
      simp only [onReceived, onLine, hf]
      exact fun _ _ => hloc
    | timeout =>
      simp only [onReceived, onTimeout, hf]
      exact endsNotOlder_now none
    | disconnected =>
      simp only [onReceived, onDisconnected, hf]
      exact endsNotOlder_none
  | some f =>
    cases r with
    | line x =>
      simp only [onReceived, onLine, hf]
      intro ok hok
      obtain rfl : ok = true := hok
      intro _ _
      show EndsNotOlder limit clock (if _ then _ else _)
      split_ifs with hfull
      · exact endsNotOlder_rotate
      · intro loc' hloc _
        obtain rfl := Option.mem_some_iff.mp hloc
        exact (h x f rfl hf).resolve_left hfull
    | timeout =>
      simp only [onReceived, onTimeout, hf]
      split_ifs
      · exact endsNotOlder_rotate
      · exact endsNotOlder_now (some f)
    | disconnected =>
      simp only [onReceived, onDisconnected, hf]
      split_ifs
      · exact (yields_trivial (sealActiveFile cfg)).bind fun _ _ => endsNotOlder_none
      · exact fun _ _ _ _ => endsNotOlder_none

theorem endsNotOlder_setup : EndsNotOlder limit clock setup := by
  intro ok _
  cases ok with
  | false => exact endsNotOlder_none
  | true =>
    intro _ _ ok _
    cases ok with
    | false => exact endsNotOlder_none
    | true => exact endsNotOlder_now (some ⟨0⟩)

/-! ### The places of the loop -/

/-- The age the file may have while the thread is busy: more than the limit only if the next
receive does not wait. -/
def Grace (cfg : SpoolConfig) (w : SpoolState) (limit : ℕ) : Prop :=
  limit = cfg.ageLimit ∨ limit = cfg.ageLimit + minRecvTimeout ∧ w.ready = true

/-- What is known of the age, wherever the thread is. -/
inductive OnTime (cfg : SpoolConfig) (w : SpoolState) : Prog SpoolOp (Option Locals) → Prop
  | busy {limit : ℕ} {p : Prog SpoolOp (Option Locals)} (hg : Grace cfg w limit)
      (hp : NonBlocking p) (hy : EndsNotOlder limit w.clock p) : OnTime cfg w p
  | head {limit : ℕ} {loc : Locals} (hg : Grace cfg w limit) (hl : NotOlder limit w.clock loc) :
      OnTime cfg w (iteration cfg loc)
  | timed {limit : ℕ} {loc : Locals} (hg : Grace cfg w limit) (hl : NotOlder limit w.clock loc) :
      OnTime cfg w (.op (.beginRecv (max (cfg.maxAge - (w.clock - loc.activeStartedAt))
        minRecvTimeout)) fun _ => .op .recv (onReceived cfg loc))
  | receiving {loc : Locals} (hl : NotOlder (cfg.ageLimit + minRecvTimeout) w.clock loc)
      (hd : w.ready = false → ∀ deadline ∈ w.deadline,
        NotOlder (cfg.ageLimit + minRecvTimeout) deadline loc) :
      OnTime cfg w (.op .recv (onReceived cfg loc))

/-- No time passes, and a receive that would not wait still does not. -/
structure SameTime (w w' : SpoolState) : Prop where
  clock : w'.clock = w.clock
  ready : w.ready = true → w'.ready = true

theorem Grace.sameTime (h : Grace cfg w limit) (hs : SameTime w w') : Grace cfg w' limit := by
  rcases h with h | ⟨h, hr⟩
  · exact .inl h
  · exact .inr ⟨h, hs.ready hr⟩

theorem OnTime.sameTime {p : Prog SpoolOp (Option Locals)} (h : OnTime cfg w p)
    (hs : SameTime w w') (hdl : w'.deadline = w.deadline) : OnTime cfg w' p := by
  cases h with
  | busy hg hp hy => exact .busy (hg.sameTime hs) hp (hs.clock ▸ hy)
  | head hg hl => exact .head (hg.sameTime hs) (hs.clock ▸ hl)
  | timed hg hl =>
    rw [← hs.clock]
    exact .timed (hg.sameTime hs) (hs.clock ▸ hl)
  | receiving hl hd =>
    refine .receiving (hs.clock ▸ hl) fun hr => ?_
    rw [hdl]
    refine hd (Bool.eq_false_iff.mpr fun h => ?_)
    rw [hs.ready h] at hr
    cases hr

theorem sameTime_of_other {x : Other} (hx : w.other cfg x = some w') (hne : ∀ d, x ≠ .tick d) :
    SameTime w w' ∧ w'.deadline = w.deadline := by
  cases x with
  | tick d => exact absurd rfl (hne d)
  | submit y =>
    simp only [SpoolState.other] at hx
    split_ifs at hx
    obtain rfl := Option.some.inj hx
    rw [SpoolState.trySubmit]
    split_ifs
    · exact ⟨⟨rfl, fun _ => by simp [SpoolState.ready]⟩, rfl⟩
    · exact ⟨⟨rfl, id⟩, rfl⟩
  | cloneSender =>
    simp only [SpoolState.other] at hx
    split_ifs at hx with hconn
    obtain rfl := Option.some.inj hx
    refine ⟨⟨rfl, fun h => ?_⟩, rfl⟩
    simp only [SpoolState.ready, hconn, Bool.or_false] at h
    simp only [SpoolState.ready, h, Bool.true_or]
  | dropSubmitter =>
    simp only [SpoolState.other] at hx
    split_ifs at hx
    obtain rfl := Option.some.inj hx
    refine ⟨⟨rfl, fun h => ?_⟩, rfl⟩
    simp only [SpoolState.ready, SpoolState.disconnected, Bool.or_eq_true, Bool.and_eq_true,
      beq_iff_eq] at h ⊢
    exact h.imp_right fun h => ⟨h.1, by omega⟩
  | shutdown =>
    simp only [SpoolState.other] at hx
    split_ifs at hx with hhandle
    obtain rfl := Option.some.inj hx
    refine ⟨⟨rfl, fun h => ?_⟩, rfl⟩
    simp only [SpoolState.ready, SpoolState.disconnected, hhandle, Bool.not_true, Bool.false_and,
      Bool.or_false] at h
    simp only [SpoolState.ready, h, Bool.true_or]
  | ship name =>
    simp only [SpoolState.other] at hx
    split at hx
    · split_ifs at hx
      obtain rfl := Option.some.inj hx
      exact ⟨⟨rfl, id⟩, rfl⟩
    · cases hx

theorem sameTime_perform {β : Type} {o : SpoolOp β} (ho : ∀ w, o.enabled w = true) (c : Choice) :
    SameTime w (perform o w c).2 := by
  cases o with
  | recv => exact absurd ho (recv_waits w)
  | _ =>
    simp only [perform]
    repeat' split
    all_goals exact ⟨rfl, id⟩

theorem promptly_perform {β : Type} {o : SpoolOp β} {c : Choice} (hok : c.ok = true) :
    o.promptly w.clock (perform o w c).1 := by
  cases o with
  | now => rfl
  | writeLine x =>
    simp only [perform, hok, if_true]
    rfl
  | _ => trivial

theorem onTime_resume {p : Prog SpoolOp (Option Locals)} (hg : Grace cfg w limit)
    (hp : NonBlocking p) (hy : EndsNotOlder limit w.clock p) : OnTime cfg w (resume cfg p) := by
  cases p with
  | op o k => exact .busy hg hp hy
  | pure r =>
    cases r with
    | none => exact .busy hg hp hy
    | some loc => exact .head hg (hy loc rfl)

/-- What a receive returns is dealt with in time, or leaves the next one something to return. -/
theorem OnTime.received {c : Choice} (hw : s.writer = some (.op .recv (onReceived cfg loc)))
    (hl : NotOlder (cfg.ageLimit + minRecvTimeout) s.spool.clock loc)
    (hfill : LateLinesFill cfg s (.op c)) :
    OnTime cfg (perform .recv s.spool c).2
      (resume cfg (onReceived cfg loc (perform .recv s.spool c).1)) := by
  cases hq : s.spool.queue with
  | nil =>
    simp only [perform, hq]
    refine onTime_resume (.inl rfl) (nonBlocking_onReceived loc _) ?_
    refine endsNotOlder_onReceived fun x f hr => ?_
    split_ifs at hr
  | cons x rest =>
    simp only [perform, hq]
    by_cases hlate : cfg.ageLimit < s.spool.clock - loc.activeStartedAt
    · by_cases hready : rest = [] ∧ s.spool.disconnected = false
      · obtain ⟨rfl, hconn⟩ := hready
        refine onTime_resume (.inl rfl) (nonBlocking_onReceived loc _) ?_
        refine endsNotOlder_onReceived fun y f hr hf => .inl ?_
        obtain rfl := Received.line.inj hr
        exact hfill c loc f x rfl hw hf hq hconn hlate
      · refine onTime_resume (.inr ⟨rfl, ?_⟩) (nonBlocking_onReceived loc _) ?_
        · rw [not_and_or, Bool.not_eq_false] at hready
          rcases hready with hrest | hdisc
          · simp [SpoolState.ready, hrest]
          · exact Bool.or_eq_true_iff.mpr (.inr hdisc)
        · exact endsNotOlder_onReceived fun y f _ hf => .inr (hl (by simp [hf]))
    · refine onTime_resume (.inl rfl) (nonBlocking_onReceived loc _) ?_
      exact endsNotOlder_onReceived fun y f _ _ => .inr (not_lt.mp hlate)

/-- The end of a receive that starts in time. -/
theorem notOlder_timed (h : NotOlder limit w.clock loc) (hlimit : limit = cfg.ageLimit) :
    NotOlder (cfg.ageLimit + minRecvTimeout)
      (w.clock + max (cfg.maxAge - (w.clock - loc.activeStartedAt)) minRecvTimeout) loc := by
  intro hsome
  have hage := h hsome
  simp only [hlimit, SpoolConfig.ageLimit] at hage ⊢
  omega

theorem OnTime.next {β : Type} {o : SpoolOp β} {k : β → Prog SpoolOp (Option Locals)} {c : Choice}
    (hw : s.writer = some (.op o k)) (h : OnTime cfg s.spool (.op o k)) (hok : c.ok = true)
    (hfill : LateLinesFill cfg s (.op c)) :
    OnTime cfg (perform o s.spool c).2 (resume cfg (k (perform o s.spool c).1)) := by
  generalize hp : Prog.op o k = p at h
  cases h with
  | busy hg hnon hy =>
    subst hp
    have hsame := sameTime_perform (w := s.spool) hnon.1 c
    refine onTime_resume (hg.sameTime hsame) (hnon.2 _) ?_
    rw [hsame.clock]
    exact hy _ (promptly_perform hok)
  | head hg hl =>
    cases hp
    exact .timed hg hl
  | @timed limit loc hg hl =>
    cases hp
    refine .receiving ?_ fun hready deadline hd => ?_
    · rintro hsome
      have hage := hl hsome
      rcases hg with rfl | ⟨rfl, -⟩
      · exact hage.trans (Nat.le_add_right _ _)
      · exact hage
    · obtain rfl := Option.mem_some_iff.mp hd
      refine notOlder_timed hl (hg.resolve_right fun h => ?_)
      exact absurd (h.2.symm.trans hready) (by simp)
  | receiving hl _ =>
    cases hp
    exact OnTime.received hw hl hfill

/-- At a receive only the last place is possible. -/
theorem OnTime.at_receive {k : Received → Prog SpoolOp (Option Locals)}
    (h : OnTime cfg w (.op .recv k)) : ∃ loc, k = onReceived cfg loc ∧
      NotOlder (cfg.ageLimit + minRecvTimeout) w.clock loc ∧
      (w.ready = false → ∀ deadline ∈ w.deadline,
        NotOlder (cfg.ageLimit + minRecvTimeout) deadline loc) := by
  generalize hp : Prog.op .recv k = p at h
  have hwaits : First (fun o => ¬ ∀ w, o.enabled w = true) p := hp ▸ recv_waits w
  cases h with
  | busy hg hnon hy =>
    subst hp
    exact absurd hnon.1 hwaits
  | head hg hl => exact absurd (fun _ => rfl) hwaits
  | timed hg hl => exact absurd (fun _ => rfl) hwaits
  | @receiving loc hl hd =>
    cases hp
    exact ⟨loc, rfl, hl, hd⟩

/-- The thread waits until the end of its receive at most. -/
theorem OnTime.tick {k : Received → Prog SpoolOp (Option Locals)} {d deadline : ℕ}
    (h : OnTime cfg w (.op .recv k)) (hready : w.ready = false) (hd : deadline ∈ w.deadline)
    (hle : w.clock + d ≤ deadline) :
    OnTime cfg { w with clock := w.clock + d } (.op .recv k) := by
  obtain ⟨loc, rfl, hl, hend⟩ := h.at_receive
  refine .receiving (fun hsome => ?_) hend
  have hage := hend hready deadline hd hsome
  show w.clock + d - loc.activeStartedAt ≤ _
  omega

/-- **The step lemma.** -/
theorem OnTime.step (h : ∀ p ∈ s.writer, OnTime cfg s.spool p) (hprompt : Prompt s l)
    (hok : AllOk s l) (hfill : LateLinesFill cfg s l) (hst : s.step cfg l = some t) :
    ∀ p ∈ t.writer, OnTime cfg t.spool p := by
  rcases System.step_cases hst with ⟨x, rfl, hx, hw⟩ | ⟨c, β, o, k, rfl, hw, -, rfl⟩ | ⟨-, -, rfl⟩
  · rw [hw]
    intro p hp
    cases x with
    | tick d =>
      obtain ⟨⟨k, hk⟩, hready, deadline, hd, hle⟩ := hprompt
      obtain rfl := Option.mem_some_iff.mp (hk ▸ hp)
      rw [← Option.some.inj hx]
      exact (h _ hk).tick hready hd hle
    | _ =>
      obtain ⟨hsame, hd⟩ := sameTime_of_other hx (by simp)
      exact (h p hp).sameTime hsame hd
  · intro p hp
    obtain rfl := Option.mem_some_iff.mp hp
    exact OnTime.next hw (h _ hw) ((onOp_op hw).mp hok) hfill
  · exact fun p hp => absurd hp (by simp)

theorem onTime_start : ∀ p ∈ (System.start dir).writer, OnTime cfg (System.start dir).spool p := by
  intro p hp
  obtain rfl := Option.mem_some_iff.mp hp
  exact .busy (.inl rfl) nonBlocking_setup endsNotOlder_setup

/-- A line that cannot be written leaves the variables as they are. -/
theorem exec_onReceived (cfg : SpoolConfig) (loc : Locals) (w : SpoolState) :
    (exec perform (onReceived cfg loc (.line emptyEvent)) w [{ ok := false }, {}]).1 =
      some (some loc) := by
  cases hf : loc.active <;> simp only [onReceived, onLine, hf] <;> rfl

theorem onReceived_injective : Function.Injective (onReceived cfg) := by
  intro loc loc' h
  have hsome := exec_onReceived cfg loc' (System.start fun _ => none).spool
  rw [← h, exec_onReceived] at hsome
  simpa using hsome

/-- **The age is bounded** in every run in which a line that comes late fills the file. -/
theorem withinAge_of_along (cfg : SpoolConfig) (dir : Dir) (ls : List Label) (s : System)
    (hprompt : Along (System.step cfg) Prompt (.start dir) ls)
    (hok : Along (System.step cfg) AllOk (.start dir) ls)
    (hfill : Along (System.step cfg) (LateLinesFill cfg) (.start dir) ls)
    (hr : run (System.step cfg) (.start dir) ls = some s) : WithinAge cfg s := by
  have hs := invariant_of_along (I := fun t => ∀ p ∈ t.writer, OnTime cfg t.spool p)
    (fun _ _ _ h hl hst => OnTime.step h hl.1 hl.2.1 hl.2.2 hst) onTime_start
    (hprompt.and (hok.and hfill)) hr
  intro loc f hw hf _
  obtain ⟨loc', hk, hl, -⟩ := (hs _ hw).at_receive
  obtain rfl := onReceived_injective hk
  exact hl (by simp [hf])

/-- The thread from a receive to the next, when the line does not fill the file. -/
theorem run_small_line {f : ActiveFile} {x : NdjsonLine}
    (hw : s.writer = some (.op .recv (onReceived cfg loc))) (hf : loc.active = some f)
    (hq : s.spool.queue = [x]) (hfill : f.bytesWritten + x.bytes.length < cfg.maxBytesPerFile) :
    ∃ w, run (System.step cfg) s (List.replicate 5 (.op {})) = some ⟨w, some (.op .recv
        (onReceived cfg ⟨some ⟨f.bytesWritten + x.bytes.length⟩, loc.activeStartedAt⟩))⟩ ∧
      w.clock = s.spool.clock ∧ w.queue = [] ∧ w.disconnected = s.spool.disconnected ∧
      w.deadline = some (s.spool.clock +
        max (cfg.maxAge - (s.spool.clock - loc.activeStartedAt)) minRecvTimeout) := by
  obtain ⟨w, writer⟩ := s
  obtain rfl : writer = _ := hw
  obtain hq : w.queue = [x] := hq
  have hline : onReceived cfg loc (.line x) = .op (.writeLine x) fun ok => if ok = true then
      .op .countWritten fun _ =>
        .pure (some ⟨some ⟨f.bytesWritten + x.bytes.length⟩, loc.activeStartedAt⟩)
      else .op .countDropped fun _ => .pure (some loc) := by
    simp [onReceived, onLine, hf, not_le.mpr hfill]
  simp only [List.replicate, run_cons, run_nil, System.step, SpoolOp.enabled, perform, hq, hline,
    resume, iteration, call_bind, if_true, Option.bind_some, List.isEmpty_cons, Bool.not_false,
    Bool.true_or]
  exact ⟨_, rfl, rfl, rfl, rfl, rfl⟩

/-- **After a late line** that does not fill the file, and that no other line follows, the thread
waits for too long if nothing else comes. -/
theorem leftOpen_of_late {f : ActiveFile} {x : NdjsonLine}
    (hw : s.writer = some (.op .recv (onReceived cfg loc))) (hf : loc.active = some f)
    (hq : s.spool.queue = [x]) (hconn : s.spool.disconnected = false)
    (hlate : cfg.ageLimit < s.spool.clock - loc.activeStartedAt)
    (hfill : f.bytesWritten + x.bytes.length < cfg.maxBytesPerFile) : ∃ t u,
      run (System.step cfg) s (List.replicate 5 (.op {})) = some t ∧
        t.step cfg (.other (.tick minRecvTimeout)) = some u ∧
          Prompt t (.other (.tick minRecvTimeout)) ∧ ¬ WithinAge cfg u := by
  obtain ⟨w, hrun, hclock, hqueue, hdisc, hdeadline⟩ := run_small_line hw hf hq hfill
  have hend : w.deadline = some (w.clock + minRecvTimeout) := by
    rw [hdeadline, hclock, max_eq_right]
    have hle : cfg.maxAge ≤ cfg.ageLimit := le_max_left _ _
    omega
  refine ⟨_, _, hrun, rfl, ⟨⟨_, rfl⟩, ?_, _, hend, le_rfl⟩, fun h => ?_⟩
  · simp [SpoolState.ready, hqueue, hdisc, hconn]
  · have hage := h _ _ rfl rfl (Nat.add_pos_right f.bytesWritten x.length_pos)
    simp only [hclock] at hage
    omega

/-! ### Concrete runs -/

/-- What the thread goes on with after a receive, if it is at one. -/
def System.afterReceive (s : System) : Option (Received → Prog SpoolOp (Option Locals)) :=
  match s.writer with
  | some (.op .recv k) => some k
  | _ => none

theorem System.atReceive_iff : s.AtReceive ↔ s.afterReceive.isSome = true := by
  constructor
  · rintro ⟨k, hk⟩
    rw [System.afterReceive, hk]
    rfl
  · rw [System.afterReceive]
    split
    · next k hk => exact fun _ => ⟨k, hk⟩
    · exact fun h => absurd h (by simp)

instance (s : System) : Decidable s.AtReceive :=
  decidable_of_iff _ System.atReceive_iff.symm

instance (s : System) (l : Label) : Decidable (Prompt s l) := by
  induction l using Label.casesOn with
  | other x => induction x using Other.casesOn <;> unfold Prompt <;> infer_instance
  | _ => exact isTrue trivial

/-- The variables of a thread at its receive, read off what it does with a line that cannot be
written. -/
def System.locals (s : System) : Option Locals :=
  s.afterReceive.bind fun k => (exec perform (k (.line emptyEvent)) s.spool
    [{ ok := false }, {}]).1.join

/-- Nothing comes late. -/
theorem lateLinesFill_of_locals
    (h : ∀ loc ∈ s.locals, s.spool.clock - loc.activeStartedAt ≤ cfg.ageLimit) :
    LateLinesFill cfg s l := by
  intro c loc f x _ hw _ _ _ hlate
  have hloc : s.locals = some loc := by
    rw [System.locals, System.afterReceive, hw, Option.bind_some, exec_onReceived]
    rfl
  exact absurd (h loc hloc) (not_le.mpr hlate)

/-- A spool whose files fill slowly and are due after 100 ms. -/
def steadySpool : SpoolConfig := { smallSpool with maxBytesPerFile := 1000, maxAge := 100 }

/-- After 60 ms of waiting a line comes, and is written. -/
def lineAfter60 : List Label :=
  [.other (.tick 60), .other (.submit emptyEvent)] ++ List.replicate 5 (.op {})

/-- One line, and nothing else until the receive times out. -/
def lineThenTimeout : List Label := settingUp ++ lineAfter60 ++ [.other (.tick 100)]

theorem lineThenTimeout_withinAge : ∃ s,
    run (System.step steadySpool) (.start fun _ => none) lineThenTimeout = some s ∧
      s.spool.clock = 160 ∧ WithinAge steadySpool s :=
  ⟨_, rfl, rfl, withinAge_of_along steadySpool (fun _ => none) lineThenTimeout _ (by decide)
    (by decide)
    (Along.mono (fun _ _ => lateLinesFill_of_locals) (by decide : Along (System.step steadySpool)
      (fun s _ => ∀ loc ∈ s.locals, s.spool.clock - loc.activeStartedAt ≤ steadySpool.ageLimit)
        (.start fun _ => none) lineThenTimeout)) rfl⟩

/-- A line every 60 ms. -/
def steadyLines : List Label :=
  settingUp ++ lineAfter60 ++ lineAfter60 ++ lineAfter60 ++ [.other (.tick 60)]

/-- **Steady lines keep the file open**: it is 240 ms old, and holds nine bytes of a thousand. -/
theorem steadyLines_leaveOpen : ∃ s,
    run (System.step steadySpool) (.start fun _ => none) steadyLines = some s ∧
      Along (System.step steadySpool) Prompt (.start fun _ => none) steadyLines ∧
      Along (System.step steadySpool) AllOk (.start fun _ => none) steadyLines ∧
      ¬ WithinAge steadySpool s := by
  refine ⟨_, rfl, by decide, by decide, fun h => ?_⟩
  have hage := h ⟨some ⟨9⟩, 0⟩ _ rfl rfl (by decide)
  exact absurd hage (by decide)

end Spool

end WazabiAgent
