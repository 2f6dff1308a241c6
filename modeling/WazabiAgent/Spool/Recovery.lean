import WazabiAgent.Spool.Discipline

/-!
# Does the writer recover from a transient failure?

A failed write costs a line, a failed sealing costs a file; in both cases the thread goes on with
an active file. But when the active file cannot be reopened at the end of a rotation, the variable
`active` is left empty, and nothing in the loop fills it again: a line is then counted as dropped,
and a timeout only resets the clock. The thread runs on, `is_alive` says so, and every further
line is lost.

So the writer recovers as long as every rotation reopens the file. `recovers_of_along` is that
direction, and `neverWrites_of_lost` says that there is nothing to hope for otherwise.

## Main results

* `Spool.recovers_of_along` — the writer recovers if every reopening succeeds
* `Spool.neverWrites_of_lost` — and never if one has failed
* `Spool.reopen_fails` — one failed reopening
-/

namespace WazabiAgent

namespace Spool

open LabelledStep Prog

/-! ### Recovery -/

/-- `is_alive`: the flag is cleared when the thread has returned. -/
def System.isAlive (s : System) : Bool := s.writer.isSome

/-- No operation fails. -/
def AllOk : System → Label → Prop := OnOp fun _ _ _ c => c.ok = true

/-- The receive that the thread is in will time out. -/
def System.TimesOut (s : System) : Prop :=
  s.AtReceive ∧ s.spool.queue = [] ∧ s.spool.disconnected = false

/-- The next line that is received is written, to an active file that is there. -/
def System.WritesNext (cfg : SpoolConfig) (s : System) : Prop :=
  ∀ x rest, s.spool.queue = x :: rest → ∀ c, ∃ t, s.step cfg (.op c) = some t ∧
    (∃ k, t.writer = some (.op (.writeLine x) k)) ∧
      ∃ cs, t.spool.dir activeFileName = some (.ndjson cs)

/-- If from here on nothing fails, lines are written again, after the next timeout at the
latest. -/
def Recovers (cfg : SpoolConfig) (s : System) : Prop :=
  ∀ ms c rest t u, run (System.step cfg) s ms = some t → t.TimesOut →
    run (System.step cfg) t (.op c :: rest) = some u →
      Along (System.step cfg) AllOk s (ms ++ .op c :: rest) → u.AtReceive → u.WritesNext cfg

/-- The program returns. -/
def returns : Prog SpoolOp (Option Locals) → Bool
  | .pure none => true
  | _ => false

theorem eq_of_returns {p : Prog SpoolOp (Option Locals)} (h : returns p = true) :
    p = .pure none := by
  cases p with
  | op o k => simp [returns] at h
  | pure r =>
    cases r with
    | none => rfl
    | some loc => simp [returns] at h

/-- The active file can be created, or the thread returns because it cannot. -/
def SpoolOp.createsActive {β : Type} :
    SpoolOp β → (β → Prog SpoolOp (Option Locals)) → Choice → Prop
  | .createActive, k, c => c.ok = true ∨ returns (k false) = true
  | _, _, _ => True

/-- The step creates the active file, or the thread returns because it cannot. -/
def Reopens : System → Label → Prop := OnOp fun o k _ c => o.createsActive k c

instance {β : Type} (o : SpoolOp β) (k : β → Prog SpoolOp (Option Locals)) (c : Choice) :
    Decidable (o.createsActive k c) := by
  induction o using SpoolOp.casesOn <;> unfold SpoolOp.createsActive <;> infer_instance

instance (s : System) (l : Label) : Decidable (AllOk s l) := decidableOnOp s l

instance (s : System) (l : Label) : Decidable (Reopens s l) := decidableOnOp s l

/-! ### While the file is reopened -/

/-- The answers that leave the thread a file. -/
def SpoolOp.reopens {β : Type} : SpoolOp β → β → Prop
  | .createActive, ok => ok = true
  | _, _ => True

/-- The program ends with an active file, or returns. -/
abbrev Open (p : Prog SpoolOp (Option Locals)) : Prop :=
  Yields SpoolOp.reopens (fun r => ∀ loc ∈ r, loc.active ≠ none) p

variable {cfg : SpoolConfig} {dir : Dir} {s t : System} {l : Label} {loc : Locals}

theorem open_loc {loc : Locals} (h : loc.active ≠ none) : Open (.pure (some loc)) := by
  intro loc' hloc
  obtain rfl := Option.mem_some_iff.mp hloc
  exact h

theorem open_now {active : Option ActiveFile} (h : active ≠ none) :
    Open (.op .now fun now => .pure (some ⟨active, now⟩)) :=
  fun _ _ => open_loc h

theorem yields_rotate : Yields SpoolOp.reopens (fun active => active ≠ none) (rotate cfg) := by
  have hcreate : Yields SpoolOp.reopens (fun active => active ≠ none) (.op .createActive fun ok =>
      if ok = true then .pure (some (⟨0⟩ : ActiveFile)) else .pure none) := by
    intro ok hok
    obtain rfl : ok = true := hok
    exact Option.some_ne_none _
  refine (yields_trivial (sealActiveFile cfg)).bind fun ok _ => ?_
  cases ok with
  | true => exact hcreate
  | false => exact fun _ _ => hcreate

theorem open_onReceived (h : loc.active ≠ none) (r : Received) :
    Open (onReceived cfg loc r) := by
  obtain ⟨f, hf⟩ := Option.ne_none_iff_exists'.mp h
  cases r with
  | line l =>
    simp only [onReceived, onLine, hf]
    intro ok _
    cases ok with
    | false => exact fun _ _ => open_loc h
    | true =>
      intro _ _
      show Open (if _ then _ else _)
      split_ifs
      · exact yields_rotate.bind fun _ ha => open_now ha
      · exact open_loc (Option.some_ne_none _)
  | timeout =>
    simp only [onReceived, onTimeout, hf]
    split_ifs
    · exact yields_rotate.bind fun _ ha => open_now ha
    · exact open_now (Option.some_ne_none f)
  | disconnected =>
    simp only [onReceived, onDisconnected, hf]
    split_ifs
    · exact (yields_trivial (sealActiveFile cfg)).bind fun _ _ _ h => absurd h (by simp)
    · exact fun _ _ _ _ _ h => absurd h (by simp)

theorem open_iteration (h : loc.active ≠ none) : Open (iteration cfg loc) :=
  fun _ _ _ _ r _ => open_onReceived h r

theorem open_setup : Open setup := by
  intro ok _
  cases ok with
  | false => exact fun _ h => absurd h (by simp)
  | true =>
    intro _ _ ok hok
    obtain rfl : ok = true := hok
    exact open_now (Option.some_ne_none _)

theorem open_resume {p : Prog SpoolOp (Option Locals)} (h : Open p) : Open (resume cfg p) := by
  match p with
  | .pure (some loc) => exact open_iteration (h loc rfl)
  | .pure none => exact h
  | .op o k => exact h

/-- The step lemma: while every rotation reopens the file, the thread goes on with one. -/
theorem open_step (h : ∀ p ∈ s.writer, Open p) (hl : Reopens s l)
    (hst : s.step cfg l = some t) : ∀ p ∈ t.writer, Open p := by
  rcases System.step_cases hst with ⟨x, rfl, -, hw⟩ | ⟨c, β, o, k, rfl, hw, -, rfl⟩ | ⟨-, -, rfl⟩
  · rwa [hw]
  · intro p hp
    obtain rfl := Option.mem_some_iff.mp hp
    have hopen := h _ hw
    cases o with
    | createActive =>
      have hl : c.ok = true ∨ returns (k false) = true := (onOp_op hw).mp hl
      cases hok : c.ok with
      | true =>
        simp only [perform, hok, if_true]
        exact open_resume (hopen true rfl)
      | false =>
        -- the setup has failed, and the thread returns
        have hret : returns (k false) = true := hl.resolve_left (by simp [hok])
        simp only [perform, hok, Bool.false_eq_true, if_false]
        rw [eq_of_returns hret]
        exact fun _ h => absurd h (by simp)
    | _ => exact open_resume (hopen _ trivial)
  · exact fun p hp => absurd hp (by simp)

/-- A thread that has a file at its receive writes the next line to it. -/
theorem writesNext_of_open {k : Received → Prog SpoolOp (Option Locals)}
    (hr : Reachable (System.step cfg) (.start dir) s) (hk : s.writer = some (.op .recv k))
    (h : ∀ p ∈ s.writer, Open p) : s.WritesNext cfg := by
  obtain ⟨ls, hls⟩ := hr
  obtain ⟨loc, rfl, hloc⟩ := placed_of_run hls hk
  intro x rest hq c
  cases hf : loc.active with
  | none =>
    -- then a timeout would leave the thread without one
    have hopen := h _ hk .timeout trivial
    simp only [onReceived, onTimeout, hf] at hopen
    exact absurd rfl (hopen 0 trivial ⟨none, 0⟩ rfl)
  | some f =>
    rw [hf] at hloc
    obtain ⟨-, cs, hd, -⟩ := hloc
    have hen : SpoolOp.recv.enabled s.spool = true := by simp [SpoolOp.enabled, hq]
    have hstep : s.step cfg (.op c) = some
        ⟨(perform .recv s.spool c).2, some (resume cfg (onReceived cfg loc (.line x)))⟩ := by
      simp only [System.step, hk, hen, if_true, perform, hq]
    refine ⟨_, hstep, ⟨_, by rw [onReceived, onLine, hf]; rfl⟩, cs, ?_⟩
    simp only [perform, hq]
    exact hd

theorem reopens_of_allOk (h : AllOk s l) : Reopens s l := by
  refine onOp_mono h fun o k w c hok => ?_
  cases o with
  | createActive => exact .inl hok
  | _ => trivial

/-- **The writer recovers**, in every state of a run in which each rotation has reopened the
active file. -/
theorem recovers_of_along (cfg : SpoolConfig) (dir : Dir) (ls : List Label) (s : System)
    (ha : Along (System.step cfg) Reopens (.start dir) ls)
    (hr : run (System.step cfg) (.start dir) ls = some s) :
    Recovers cfg s ∨ s.isAlive = false := by
  refine .inl fun ms c rest t u ht _ hu hok ⟨k, hk⟩ => ?_
  have hstart : ∀ p ∈ (System.start dir).writer, Open p := by
    intro p hp
    obtain rfl := Option.mem_some_iff.mp hp
    exact open_setup
  have hs := invariant_of_along (I := fun t => ∀ p ∈ t.writer, Open p)
    (fun _ _ _ h hl hst => open_step h hl hst) hstart ha hr
  have hsu : run (System.step cfg) s (ms ++ .op c :: rest) = some u := by
    rw [run_append_of_run ht]
    exact hu
  have hopen := invariant_of_along (I := fun t => ∀ p ∈ t.writer, Open p)
    (fun _ _ _ h hl hst => open_step h (reopens_of_allOk hl) hst) hs hok hsu
  have hreach : Reachable (System.step cfg) (.start dir) u := Reachable.trans ⟨ls, hr⟩ ⟨_, hsu⟩
  exact writesNext_of_open hreach hk hopen

/-! ### After a failed reopening -/

/-- The operation writes a line. -/
def SpoolOp.writes {β : Type} : SpoolOp β → Prop
  | .writeLine _ => True
  | _ => False

/-- The program writes nothing and leaves the thread without a file. -/
structure Idle (p : Prog SpoolOp (Option Locals)) : Prop where
  writesNothing : All (fun o => ¬ o.writes) p
  staysNone : Yields (fun _ _ => True) (fun r => ∀ loc ∈ r, loc.active = none) p

theorem idle_pure {r : Option Locals} (h : ∀ loc ∈ r, loc.active = none) : Idle (.pure r) :=
  ⟨trivial, h⟩

theorem idle_op {β : Type} {o : SpoolOp β} {k : β → Prog SpoolOp (Option Locals)}
    (ho : ¬ o.writes) (hk : ∀ b, Idle (k b)) : Idle (.op o k) :=
  ⟨⟨ho, fun b => (hk b).writesNothing⟩, fun b _ => (hk b).staysNone⟩

theorem idle_loc (h : loc.active = none) : Idle (.pure (some loc)) := by
  refine idle_pure fun loc' hloc => ?_
  obtain rfl := Option.mem_some_iff.mp hloc
  exact h

theorem idle_onReceived (h : loc.active = none) (r : Received) : Idle (onReceived cfg loc r) := by
  cases r with
  | line l =>
    rw [onReceived, onLine, h]
    exact idle_op id fun _ => idle_loc h
  | timeout =>
    rw [onReceived, onTimeout, h]
    exact idle_op id fun _ => idle_loc rfl
  | disconnected =>
    rw [onReceived, onDisconnected, h]
    exact idle_pure (by simp)

theorem idle_resume {p : Prog SpoolOp (Option Locals)} (h : Idle p) : Idle (resume cfg p) := by
  match p with
  | .pure (some loc) =>
    have hloc : loc.active = none := h.staysNone loc rfl
    exact idle_op id fun _ => idle_op id fun _ => idle_op id (idle_onReceived hloc)
  | .pure none => exact h
  | .op o k => exact h

theorem idle_step (h : ∀ p ∈ s.writer, Idle p) (hst : s.step cfg l = some t) :
    ∀ p ∈ t.writer, Idle p := by
  rcases System.step_cases hst with ⟨x, rfl, -, hw⟩ | ⟨c, β, o, k, rfl, hw, -, rfl⟩ | ⟨-, -, rfl⟩
  · rwa [hw]
  · intro p hp
    obtain rfl := Option.mem_some_iff.mp hp
    have hidle := h _ hw
    exact idle_resume ⟨hidle.writesNothing.2 _, hidle.staysNone _ trivial⟩
  · exact fun p hp => absurd hp (by simp)

/-- **A thread without a file at its receive never writes again**, whatever succeeds later. -/
theorem neverWrites_of_lost {k : Received → Prog SpoolOp (Option Locals)} {ms : List Label}
    (hr : Reachable (System.step cfg) (.start dir) s) (hk : s.writer = some (.op .recv k))
    (hc : s.spool.current = none) (ht : run (System.step cfg) s ms = some t) (x : NdjsonLine)
    (k' : Bool → Prog SpoolOp (Option Locals)) : t.writer ≠ some (.op (.writeLine x) k') := by
  obtain ⟨ls, hls⟩ := hr
  obtain ⟨loc, rfl, hloc⟩ := placed_of_run hls hk
  have hnone : loc.active = none := by
    cases hf : loc.active with
    | none => rfl
    | some f =>
      rw [hf] at hloc
      exact absurd (hc.symm.trans hloc.1) (by simp)
  have hs : ∀ p ∈ s.writer, Idle p := by
    rw [hk]
    intro p hp
    obtain rfl := Option.mem_some_iff.mp hp
    exact idle_op id (idle_onReceived hnone)
  have hidle := invariant_of_run (I := fun t => ∀ p ∈ t.writer, Idle p)
    (fun _ _ _ h hst => idle_step h hst) hs ht
  intro hw
  exact (hidle _ hw).writesNothing.1 trivial

/-! ### Concrete runs -/

/-- A rotation up to the creation of the new active file. -/
def rotating : List Label := settingUp ++ (sealAt 0).take 15

/-- The reopening succeeds; in the next rotation the sealing fails at the rename. -/
def renameFailsOnce : List Label :=
  settingUp ++ sealAt 0 ++ (sealAt 0).take 7 ++ [.op { ok := false }] ++ List.replicate 5 (.op {})

theorem renameFailsOnce_recovers : ∃ s,
    run (System.step smallSpool) (.start fun _ => none) renameFailsOnce = some s ∧
      s.isAlive = true ∧ (Recovers smallSpool s ∨ s.isAlive = false) :=
  ⟨_, rfl, rfl, recovers_of_along smallSpool (fun _ => none) renameFailsOnce _ (by decide) rfl⟩

/-- The reopening fails; the thread goes on to its receive. -/
def reopenFails : List Label :=
  rotating ++ [.op { ok := false }] ++ List.replicate 3 (.op {})

/-- From there nothing fails: a timeout passes, and a line is submitted. -/
def timeoutPasses : List Label :=
  [.op {}] ++ List.replicate 3 (.op {}) ++ [.other (.submit emptyEvent)]

/-- **One failed reopening**, and the thread is alive and drops every line. -/
theorem reopen_fails : ∃ s,
    run (System.step smallSpool) (.start fun _ => none) reopenFails = some s ∧
      s.isAlive = true ∧ ¬ (Recovers smallSpool s ∨ s.isAlive = false) := by
  refine ⟨_, rfl, rfl, ?_⟩
  rintro (h | h)
  · obtain ⟨t, hst, ⟨k, hk⟩, -⟩ := h [.other (.tick 10000)] {} (timeoutPasses.drop 1) _ _ rfl
      ⟨⟨_, rfl⟩, rfl, rfl⟩ rfl (by decide) ⟨_, rfl⟩ emptyEvent [] rfl {}
    have hwrites : ∀ p ∈ t.writer, First SpoolOp.writes p := by
      rw [hk]
      intro p hp
      obtain rfl := Option.mem_some_iff.mp hp
      trivial
    -- but the operation is the one that counts a dropped line
    obtain rfl := Option.some.inj hst
    exact hwrites _ rfl
  · exact absurd h (by decide)

end Spool

end WazabiAgent
