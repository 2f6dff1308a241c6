import Mathlib.Data.List.Dedup
import WazabiAgent.Shipper.Run

/-!
# Is an acknowledged batch sent again?

After a 2xx the shipper deletes the file and goes back to scanning. Whether the deletion has
worked it does not look at, and it keeps no record of what the server has: the file that is still
there is again the oldest batch, is sent again, and is counted again.

`deliveredOnce_iff` says that nothing else can go wrong: a batch is acknowledged at most once, and
`batches_sent` counts those that are gone, exactly as long as no deletion fails on a file that is
still there.

## Identity of files

A batch name may be used again after its file is gone, so a file is a path together with the
position of its creation among all.

## Main results

* `Delivery.deliveredOnce_iff` — when a batch is acknowledged once
* `Delivery.removeFails_sendsAgain` — one deletion that fails
-/

namespace WazabiAgent

namespace Delivery

open LabelledStep Shipper

/-! ### The thread, one call at a time -/

/-- Where the thread is. -/
inductive Phase
  | idle
  | picked (p : Path)
  /-- The file has been read, and is being sent. -/
  | loaded (p : Path) (g : ℕ)
  /-- The server has answered 2xx. -/
  | accepted (p : Path) (g : ℕ)

/-- The files by path, and the thread that sends them. -/
structure State where
  /-- The file that has this path. -/
  files : Path → Option ℕ
  /-- How many files have been created. -/
  made : ℕ
  phase : Phase
  backoff : ℕ
  batchesSent : ℕ
  batchesRejected : ℕ
  sendRetries : ℕ
  /-- Ghost: what was acknowledged, in this order, up to the iteration in progress. -/
  acked : List (Path × ℕ)

/-- What happens next. -/
inductive Label
  /-- A spool creates a file. -/
  | add (p : Path)
  /-- A spool deletes one. -/
  | evict (p : Path)
  | scan (listing : List (Option (List String)))
  | read (error : Option String) (nanos : UInt64)
  | post (decodes : Bool) (answer : Answer) (nanos : UInt64)
  | remove (ok : Bool)

/-- The branches of `shipper_main` on the outcome, up to the deletion. -/
def State.onOutcome (maxBackoff : ℕ) (s : State) (p : Path) (g : ℕ) (nanos : UInt64) :
    Outcome → State
  | .ok => { s with phase := .accepted p g }
  | .rejected _ => { s with phase := .idle, batchesRejected := s.batchesRejected + 1 }
  | .retry _ =>
    { s with
      phase := .idle, sendRetries := s.sendRetries + 1
      backoff := nextBackoff s.backoff maxBackoff nanos }

/-- One step of a spool or of the thread. -/
def State.step (maxBackoff : ℕ) (s : State) : Label → Option State
  | .add p => some { s with files := Function.update s.files p (some s.made), made := s.made + 1 }
  | .evict p => some { s with files := Function.update s.files p none }
  | .scan listing =>
    match s.phase with
    | .idle => some { s with phase := (oldestBatch listing).elim .idle .picked }
    | _ => none
  | .read error nanos =>
    match s.phase with
    | .picked p =>
      match s.files p, error with
      | some g, none => some { s with phase := .loaded p g }
      | _, error =>
        some (s.onOutcome maxBackoff p 0 nanos (sendOne { readError := some (error.getD "") }))
    | _ => none
  | .post decodes answer nanos =>
    match s.phase with
    | .loaded p g => some (s.onOutcome maxBackoff p g nanos (sendOne { decodes, answer }))
    | _ => none
  | .remove ok =>
    match s.phase with
    | .accepted p g =>
      some { s with
        files := if ok then Function.update s.files p none else s.files
        phase := .idle
        backoff := 0
        batchesSent := s.batchesSent + 1
        acked := s.acked ++ [(p, g)] }
    | _ => none

/-- A run starts with any files. -/
def State.start (present : Path → Bool) : State where
  files p := if present p then some 0 else none
  made := 1
  phase := .idle
  backoff := 0
  batchesSent := 0
  batchesRejected := 0
  sendRetries := 0
  acked := []

/-! ### What is to be shown -/

/-- The file that is being sent. -/
def Phase.sending : Phase → Option (Path × ℕ)
  | .loaded p g | .accepted p g => some (p, g)
  | _ => none

/-- The file is no longer there. -/
def State.gone (s : State) (x : Path × ℕ) : Bool := decide (s.files x.1 ≠ some x.2)

/-- What is being sent has not been acknowledged before, and the counter counts the files that
were acknowledged and are gone. -/
structure DeliveredOnce (s : State) : Prop where
  notAgain : ∀ x, s.phase.sending = some x → x ∉ s.acked
  counted : s.batchesSent = (s.acked.dedup.filter s.gone).length

/-- The deletion works, or there is nothing to delete. -/
def RemoveWorks (s : State) : Label → Prop
  | .remove ok =>
    match s.phase with
    | .accepted p g => ok = true ∨ s.files p ≠ some g
    | _ => True
  | _ => True

variable {maxBackoff : ℕ} {s t : State} {l : Label}

/-- The thread has moved on, and is sending nothing that it has not just read or was not sending
before. -/
def MovesOn (s t : State) : Prop :=
  ∃ phase backoff batchesRejected sendRetries,
    t = { s with
      phase := phase, backoff := backoff, batchesRejected := batchesRejected
      sendRetries := sendRetries } ∧
    ∀ x, phase.sending = some x → s.files x.1 = some x.2 ∨ s.phase.sending = some x

theorem movesOn_phase {phase : Phase} (h : ∀ x, phase.sending = some x →
    s.files x.1 = some x.2 ∨ s.phase.sending = some x) : MovesOn s { s with phase := phase } :=
  ⟨phase, s.backoff, s.batchesRejected, s.sendRetries, rfl, h⟩

theorem movesOn_onOutcome {p : Path} {g : ℕ} {nanos : UInt64} {o : Outcome}
    (h : o = .ok → s.phase.sending = some (p, g)) :
    MovesOn s (s.onOutcome maxBackoff p g nanos o) := by
  cases o with
  | ok =>
    refine movesOn_phase fun x hx => .inr ?_
    obtain rfl := Option.some.inj hx
    exact h rfl
  | rejected status => exact ⟨_, _, _, _, rfl, fun x hx => absurd hx (by simp [Phase.sending])⟩
  | retry why => exact ⟨_, _, _, _, rfl, fun x hx => absurd hx (by simp [Phase.sending])⟩

/-- All that a step can be: a file comes, a file goes, the thread moves on, or it has done with a
file that was acknowledged. -/
theorem State.step_cases (h : s.step maxBackoff l = some t) :
    (∃ p, t = { s with files := Function.update s.files p (some s.made), made := s.made + 1 }) ∨
    (∃ p, t = { s with files := Function.update s.files p none }) ∨ MovesOn s t ∨
    ∃ ok p g, l = .remove ok ∧ s.phase = .accepted p g ∧ t = { s with
      files := if ok then Function.update s.files p none else s.files
      phase := .idle
      backoff := 0
      batchesSent := s.batchesSent + 1
      acked := s.acked ++ [(p, g)] } := by
  cases l with
  | add p => exact .inl ⟨p, (Option.some.inj h).symm⟩
  | evict p => exact .inr (.inl ⟨p, (Option.some.inj h).symm⟩)
  | scan listing =>
    cases hphase : s.phase with
    | idle =>
      simp only [State.step, hphase] at h
      obtain rfl := Option.some.inj h
      refine .inr (.inr (.inl (movesOn_phase fun x hx => absurd hx ?_)))
      cases oldestBatch listing <;> simp [Phase.sending]
    | _ => simp [State.step, hphase] at h
  | read error nanos =>
    cases hphase : s.phase with
    | picked p =>
      have hfail (e : String) : MovesOn s
          (s.onOutcome maxBackoff p 0 nanos (sendOne { readError := some e })) :=
        movesOn_onOutcome fun hok => by simp [sendOne] at hok
      simp only [State.step, hphase] at h
      split at h
      · next _ g hf =>
        obtain rfl := Option.some.inj h
        refine .inr (.inr (.inl (movesOn_phase fun x hx => .inl ?_)))
        obtain rfl := Option.some.inj hx
        exact hf
      · obtain rfl := Option.some.inj h
        exact .inr (.inr (.inl (hfail _)))
    | _ => simp [State.step, hphase] at h
  | post decodes answer nanos =>
    cases hphase : s.phase with
    | loaded p g =>
      simp only [State.step, hphase] at h
      obtain rfl := Option.some.inj h
      exact .inr (.inr (.inl (movesOn_onOutcome fun _ => by rw [hphase]; rfl)))
    | _ => simp [State.step, hphase] at h
  | remove ok =>
    cases hphase : s.phase with
    | accepted p g =>
      simp only [State.step, hphase] at h
      exact .inr (.inr (.inr ⟨ok, p, g, rfl, rfl, (Option.some.inj h).symm⟩))
    | _ => simp [State.step, hphase] at h

/-! ### In every run -/

/-- The counter counts acknowledgements, and a file created next is none of those before. -/
structure Sane (s : State) : Prop where
  sent : s.batchesSent = s.acked.length
  files : ∀ p g, s.files p = some g → g < s.made
  sending : ∀ x, s.phase.sending = some x → x.2 < s.made
  acked : ∀ x ∈ s.acked, x.2 < s.made

theorem sane_start (present : Path → Bool) : Sane (.start present) where
  sent := rfl
  files p g hf := by
    simp only [State.start] at hf
    split_ifs at hf
    obtain rfl := Option.some.inj hf
    exact Nat.zero_lt_one
  sending x hx := absurd hx (by simp [State.start, Phase.sending])
  acked x hx := absurd hx (by simp [State.start])

/-- A file that is there after a deletion was there before. -/
theorem file_of_update {files : Path → Option ℕ} {p q : Path} {g : ℕ}
    (h : Function.update files p none q = some g) : files q = some g := by
  by_cases hq : q = p
  · rw [hq, Function.update_self] at h
    cases h
  · rwa [Function.update_of_ne hq] at h

theorem Sane.step (h : Sane s) (hst : s.step maxBackoff l = some t) : Sane t := by
  rcases State.step_cases hst with ⟨p, rfl⟩ | ⟨p, rfl⟩ | ⟨phase, _, _, _, rfl, hsend⟩ |
    ⟨ok, p, g, -, hphase, rfl⟩
  · refine ⟨h.sent, fun q g hf => ?_, fun x hx => (h.sending x hx).trans (Nat.lt_succ_self _),
      fun x hx => (h.acked x hx).trans (Nat.lt_succ_self _)⟩
    by_cases hq : q = p
    · subst hq
      simp only [Function.update_self] at hf
      obtain rfl := Option.some.inj hf
      exact Nat.lt_succ_self _
    · simp only [Function.update_of_ne hq] at hf
      exact (h.files q g hf).trans (Nat.lt_succ_self _)
  · exact ⟨h.sent, fun q g hf => h.files q g (file_of_update hf), h.sending, h.acked⟩
  · exact ⟨h.sent, h.files, fun x hx => (hsend x hx).elim (h.files x.1 x.2) (h.sending x), h.acked⟩
  · refine ⟨by simp [h.sent], fun q g' hf => ?_, fun x hx => absurd hx (by simp [Phase.sending]),
      fun x hx => ?_⟩
    · simp only at hf
      split_ifs at hf
      · exact h.files q g' (file_of_update hf)
      · exact h.files q g' hf
    · rcases List.mem_append.mp hx with hx | hx
      · exact h.acked x hx
      · obtain rfl := List.mem_singleton.mp hx
        exact h.sending _ (by rw [hphase]; rfl)

theorem sane_of_reachable {present : Path → Bool}
    (h : Reachable (State.step maxBackoff) (.start present) s) : Sane s :=
  h.invariant (fun _ _ _ hs hst => hs.step hst) (sane_start present)

/-! ### The counter -/

theorem length_filter_dedup_iff {α : Type*} [DecidableEq α] {xs : List α} {φ : α → Bool} :
    xs.length = (xs.dedup.filter φ).length ↔ xs.Nodup ∧ ∀ x ∈ xs, φ x = true := by
  constructor
  · intro h
    have hfilter := List.length_filter_le φ xs.dedup
    have hdedup : xs.dedup = xs :=
      (List.dedup_sublist xs).eq_of_length_le (h.trans_le hfilter)
    rw [hdedup] at h
    exact ⟨List.dedup_eq_self.mp hdedup, List.length_filter_eq_length_iff.mp h.symm⟩
  · rintro ⟨hnodup, hall⟩
    rw [hnodup.dedup, List.filter_eq_self.mpr hall]

/-- The counter is right if every acknowledged file was acknowledged once and is gone. -/
theorem counted_iff (h : Sane s) :
    s.batchesSent = (s.acked.dedup.filter s.gone).length ↔
      s.acked.Nodup ∧ ∀ x ∈ s.acked, s.files x.1 ≠ some x.2 := by
  rw [h.sent, length_filter_dedup_iff]
  simp only [State.gone, decide_eq_true_eq]

theorem deliveredOnce_start (present : Path → Bool) : DeliveredOnce (.start present) where
  notAgain x hx := absurd hx (by simp [State.start, Phase.sending])
  counted := rfl

/-- The step lemma. -/
theorem deliveredOnce_of_removeWorks (hs : Sane s) (h : DeliveredOnce s) (hl : RemoveWorks s l)
    (hst : s.step maxBackoff l = some t) : DeliveredOnce t := by
  obtain ⟨hnodup, hgone⟩ := (counted_iff hs).mp h.counted
  have ht := hs.step hst
  rcases State.step_cases hst with ⟨p, rfl⟩ | ⟨p, rfl⟩ | ⟨phase, _, _, _, rfl, hsend⟩ |
    ⟨ok, p, g, rfl, hphase, rfl⟩
  · refine ⟨h.notAgain, (counted_iff ht).mpr ⟨hnodup, fun x hx hf => ?_⟩⟩
    by_cases hp : x.1 = p
    · simp only [hp, Function.update_self] at hf
      exact absurd (Option.some.inj hf) (hs.acked x hx).ne'
    · simp only [Function.update_of_ne hp] at hf
      exact hgone x hx hf
  · exact ⟨h.notAgain, (counted_iff ht).mpr ⟨hnodup, fun x hx hf => hgone x hx (file_of_update hf)⟩⟩
  · refine ⟨fun x hx hmem => ?_, (counted_iff ht).mpr ⟨hnodup, hgone⟩⟩
    rcases hsend x hx with hf | hold
    · exact hgone x hmem hf
    · exact h.notAgain x hold hmem
  · have hnew : (p, g) ∉ s.acked := h.notAgain (p, g) (by rw [hphase]; rfl)
    refine ⟨fun x hx => absurd hx (by simp [Phase.sending]), (counted_iff ht).mpr ⟨?_, ?_⟩⟩
    · exact List.nodup_append.mpr ⟨hnodup, List.nodup_singleton _, by
        rintro x hx y hy rfl
        exact hnew (List.mem_singleton.mp hy ▸ hx)⟩
    · intro x hx hf
      rcases List.mem_append.mp hx with hx | hx
      · simp only at hf
        split_ifs at hf
        · exact hgone x hx (file_of_update hf)
        · exact hgone x hx hf
      · obtain rfl := List.mem_singleton.mp hx
        simp only at hf
        split_ifs at hf with hok
        · simp at hf
        · simp only [RemoveWorks, hphase] at hl
          exact hl.elim hok fun hne => hne hf

/-- A deletion that fails leaves a file that is acknowledged and there. -/
theorem removeWorks_of_deliveredOnce (hs : Sane s) (hst : s.step maxBackoff l = some t)
    (h : DeliveredOnce t) : RemoveWorks s l := by
  obtain ⟨-, hgone⟩ := (counted_iff (hs.step hst)).mp h.counted
  cases l with
  | remove ok =>
    cases hphase : s.phase with
    | accepted p g =>
      simp only [State.step, hphase] at hst
      obtain rfl := Option.some.inj hst
      have hfile := hgone (p, g) (List.mem_append_right _ (List.mem_singleton_self _))
      simp only [RemoveWorks, hphase]
      cases ok with
      | true => exact .inl rfl
      | false => exact .inr hfile
    | _ => simp only [RemoveWorks, hphase]
  | _ => trivial

/-- **When a batch is acknowledged once.** At every moment of a run the file that is being sent has
not been acknowledged before, and `batches_sent` is the number of files that were acknowledged and
are gone, if and only if no deletion after a 2xx fails on a file that is still there. -/
theorem deliveredOnce_iff (maxBackoff : ℕ) (present : Path → Bool) (ls : List Label) (s : State)
    (hr : run (State.step maxBackoff) (.start present) ls = some s) :
    (∀ ms rest t, ls = ms ++ rest → run (State.step maxBackoff) (.start present) ms = some t →
      DeliveredOnce t) ↔ Along (State.step maxBackoff) RemoveWorks (.start present) ls :=
  forall_split_iff_along (deliveredOnce_start present)
    (fun _ _ _ ht h hl hst => deliveredOnce_of_removeWorks (sane_of_reachable ht) h hl hst)
    (fun _ _ _ ht _ hst h => removeWorks_of_deliveredOnce (sane_of_reachable ht) hst h) hr

/-! ### Concrete runs -/

instance (s : State) (l : Label) : Decidable (RemoveWorks s l) := by
  induction l using Label.casesOn with
  | remove ok =>
    obtain ⟨files, made, phase, backoff, batchesSent, batchesRejected, sendRetries, acked⟩ := s
    induction phase using Phase.casesOn <;> unfold RemoveWorks <;> infer_instance
  | _ => exact isTrue trivial

/-- There is one batch. -/
def oneBatch (p : Path) : Bool := decide (p = ⟨"batch-1-0.zst", 0⟩)

/-- The batch is sent and accepted, and an attempt is made to delete it. -/
def sending (ok : Bool) : List Label :=
  [.scan [some ["batch-1-0.zst"]], .read none 0, .post true (.response 200) 0, .remove ok]

/-- A second attempt to send it finds nothing. -/
def sentOnce : List Label := sending true ++ [.scan [some ["batch-1-0.zst"]], .read none 0]

theorem sentOnce_delivered : ∃ s,
    run (State.step 60000000000) (.start oneBatch) sentOnce = some s ∧ s.batchesSent = 1 ∧
      ∀ ms rest t, sentOnce = ms ++ rest →
        run (State.step 60000000000) (.start oneBatch) ms = some t → DeliveredOnce t :=
  ⟨_, rfl, rfl, (deliveredOnce_iff 60000000000 oneBatch sentOnce _ rfl).mpr (by decide +kernel)⟩

/-- **One deletion that fails**: the batch is sent again, accepted again and counted twice. -/
theorem removeFails_sendsAgain : ∃ s,
    run (State.step 60000000000) (.start oneBatch) (sending false ++ sending true) = some s ∧
      s.batchesSent = 2 ∧ s.acked = [(⟨"batch-1-0.zst", 0⟩, 0), (⟨"batch-1-0.zst", 0⟩, 0)] ∧
      ¬ ∀ ms rest t, sending false ++ sending true = ms ++ rest →
        run (State.step 60000000000) (.start oneBatch) ms = some t → DeliveredOnce t := by
  refine ⟨_, rfl, rfl, rfl, fun h => ?_⟩
  have hcounted := (h (sending false ++ sending true) [] _ (by simp) rfl).counted
  exact absurd hcounted (by decide)

end Delivery

end WazabiAgent
