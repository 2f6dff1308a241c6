import WazabiAgent.Spool.Protocol

/-!
# The writer's operations in a run

`Disciplined` is the invariant of the system that the results about batch files start from: in
every reachable state the thread knows what `Sound` says of its next operation, and its operations
come in an order. `Sound.batchFile` then lists all that an operation can do to a batch file.

## Main results

* `Spool.Disciplined.step`, `disciplined_of_reachable` — the invariant
* `Spool.Sound.batchFile` — create it, compress into it, delete it
* `Spool.Disciplined.counted` — a batch that was deleted is counted next
* `Spool.perform_batches` — how batches are added
-/

namespace WazabiAgent

namespace Spool

open LabelledStep Prog

variable {T : Terms} {cfg : SpoolConfig} {w w' : SpoolState} {n : String}

/-! ### What comes after what -/

/-- The answers that fix the next operation: the three before the end of an encoding, and a batch
that was deleted. -/
def SpoolOp.asks {β : Type} : SpoolOp β → β → Prop
  | .createFile _, ok | .newEncoder, ok | .copy _ _, ok => ok = true
  | .remove name, ok => ok = true ∧ isBatchName name = true
  | _, _ => False

/-- The operations that must come right after another one. -/
def SpoolOp.follows {β γ : Type} : SpoolOp β → SpoolOp γ → Prop
  | .createFile _, .newEncoder | .newEncoder, .copy _ _ | .copy _ _, .finishEncoder _
  | .remove _, .countEvicted => True
  | _, _ => False

/-- An encoding that does not fail runs to its end, and every eviction is counted. -/
abbrev Orderly {α : Type} (p : Prog SpoolOp α) : Prop := Chain SpoolOp.asks SpoolOp.follows p

theorem orderly_orFail {o : SpoolOp Bool} {q : Prog SpoolOp Bool} (ho : ¬ o.asks false)
    (hf : o.asks true → First o.follows q) (hq : Orderly q) : Orderly (orFail (call o) q) := by
  intro ok
  cases ok with
  | true => exact ⟨hf, hq⟩
  | false => exact ⟨fun h => absurd h ho, trivial⟩

theorem orderly_op {α β : Type} {o : SpoolOp β} {k : β → Prog SpoolOp α} (ho : ∀ b, ¬ o.asks b)
    (hk : ∀ b, Orderly (k b)) : Orderly (.op o k) :=
  fun b => ⟨fun h => absurd h (ho b), hk b⟩

theorem orderly_evict (bs : List (String × ℕ)) (total : ℕ) : Orderly (evict cfg bs total) := by
  induction bs generalizing total with
  | nil => trivial
  | cons b bs ih =>
    obtain ⟨path, size⟩ := b
    rw [evict]
    split_ifs
    · trivial
    · intro ok
      cases ok with
      | true => exact ⟨fun _ => trivial, orderly_op (fun _ => id) fun _ => ih _⟩
      | false => exact ⟨fun h => absurd h.1 (by decide), ih _⟩

theorem orderly_enforceTotalSizeCap : Orderly (enforceTotalSizeCap cfg) := by
  refine orderly_op (fun _ => id) fun entries => ?_
  cases entries with
  | none => trivial
  | some entries =>
    show Orderly (if _ then _ else _)
    split_ifs
    · trivial
    · exact orderly_evict _ _

theorem not_asks_remove {name : String} (hn : isBatchName name = false) (ok : Bool) :
    ¬ (SpoolOp.remove name).asks ok := by
  rintro ⟨-, hb⟩
  simp [hn] at hb

theorem orderly_sealActiveFile : Orderly (sealActiveFile cfg) := by
  refine orderly_orFail id False.elim ?_
  refine orderly_op (fun _ => id) fun ts => orderly_op (fun _ => id) fun seq => ?_
  refine orderly_orFail id False.elim ?_
  refine orderly_orFail id False.elim ?_
  refine orderly_orFail Bool.false_ne_true (fun _ => trivial) ?_
  refine orderly_orFail Bool.false_ne_true (fun _ => trivial) ?_
  refine orderly_orFail Bool.false_ne_true (fun _ => trivial) ?_
  refine orderly_orFail id False.elim ?_
  refine orderly_op (not_asks_remove (isBatchName_stagingName ts seq)) fun _ => ?_
  exact orderly_enforceTotalSizeCap.bind fun _ => trivial

theorem orderly_createActive : Orderly (.op .createActive fun ok =>
    if ok = true then .pure (some (⟨0⟩ : ActiveFile)) else .pure none) := by
  refine orderly_op (fun _ => id) fun ok => ?_
  cases ok <;> trivial

theorem orderly_rotate : Orderly (rotate cfg) := by
  refine orderly_sealActiveFile.bind fun ok => ?_
  cases ok with
  | true => exact orderly_createActive
  | false =>
    exact orderly_op (not_asks_remove isBatchName_activeFileName) fun _ => orderly_createActive

theorem orderly_now (active : Option ActiveFile) : Orderly (.op .now fun now =>
    .pure (some (⟨active, now⟩ : Locals))) :=
  orderly_op (fun _ => id) fun _ => trivial

theorem orderly_onReceived (loc : Locals) (r : Received) : Orderly (onReceived cfg loc r) := by
  cases r with
  | line l =>
    rw [onReceived, onLine]
    cases loc.active with
    | none => exact orderly_op (fun _ => id) fun _ => trivial
    | some f =>
      refine orderly_op (fun _ => id) fun ok => ?_
      cases ok with
      | false => exact orderly_op (fun _ => id) fun _ => trivial
      | true =>
        refine orderly_op (fun _ => id) fun _ => ?_
        show Orderly (if _ then _ else _)
        split_ifs
        · exact orderly_rotate.bind orderly_now
        · trivial
  | timeout =>
    rw [onReceived, onTimeout]
    cases loc.active with
    | none => exact orderly_now none
    | some f =>
      simp only
      split_ifs
      · exact orderly_rotate.bind orderly_now
      · exact orderly_now (some f)
  | disconnected =>
    rw [onReceived, onDisconnected]
    cases loc.active with
    | none => trivial
    | some f =>
      simp only
      split_ifs
      · exact orderly_sealActiveFile.bind fun _ => trivial
      · exact orderly_op (fun _ => id) fun _ =>
          orderly_op (not_asks_remove isBatchName_activeFileName) fun _ => trivial

theorem orderly_iteration (loc : Locals) : Orderly (iteration cfg loc) :=
  orderly_op (fun _ => id) fun _ => orderly_op (fun _ => id) fun _ =>
    orderly_op (fun _ => id) (orderly_onReceived loc)

theorem orderly_setup : Orderly setup := by
  refine orderly_op (fun _ => id) fun ok => ?_
  cases ok with
  | false => trivial
  | true =>
    refine orderly_op (not_asks_remove isBatchName_activeFileName) fun _ => ?_
    refine orderly_op (fun _ => id) fun ok => ?_
    cases ok with
    | false => trivial
    | true => exact orderly_now (some ⟨0⟩)

/-! ### The system -/

/-- A condition on an operation, the rest of the program, the world and the choice, as one on the
steps of the system. -/
def OnOp (φ : {β : Type} → SpoolOp β → (β → Prog SpoolOp (Option Locals)) → SpoolState → Choice →
    Prop) (s : System) : Label → Prop
  | .op c =>
    match s.writer with
    | some (.op o k) => φ o k s.spool c
    | _ => True
  | _ => True

section

variable {φ : {β : Type} → SpoolOp β → (β → Prog SpoolOp (Option Locals)) → SpoolState → Choice →
  Prop}

theorem onOp_op {s : System} {β : Type} {o : SpoolOp β} {k : β → Prog SpoolOp (Option Locals)}
    {c : Choice} (hw : s.writer = some (.op o k)) : OnOp φ s (.op c) ↔ φ o k s.spool c := by
  rw [OnOp, hw]

/-- Only the steps of the thread have to be looked at. -/
theorem onOp_intro {s : System} {l : Label} (h : ∀ {β : Type} (o : SpoolOp β)
    (k : β → Prog SpoolOp (Option Locals)) (c : Choice), l = .op c → s.writer = some (.op o k) →
      φ o k s.spool c) : OnOp φ s l := by
  unfold OnOp
  split
  · split
    · next hw => exact h _ _ _ rfl hw
    · trivial
  · trivial

theorem onOp_of_forall (h : ∀ {β : Type} (o : SpoolOp β) (k : β → Prog SpoolOp (Option Locals))
    (w : SpoolState) (c : Choice), φ o k w c) (s : System) (l : Label) : OnOp φ s l :=
  onOp_intro fun o k c _ _ => h o k s.spool c

theorem onOp_mono {ψ : {β : Type} → SpoolOp β → (β → Prog SpoolOp (Option Locals)) → SpoolState →
    Choice → Prop} {s : System} {l : Label} (hs : OnOp φ s l)
    (h : ∀ {β : Type} (o : SpoolOp β) (k : β → Prog SpoolOp (Option Locals)) (w : SpoolState)
      (c : Choice), φ o k w c → ψ o k w c) : OnOp ψ s l := by
  refine onOp_intro fun o k c hl hw => h o k s.spool c ?_
  rw [hl] at hs
  exact (onOp_op hw).mp hs

instance decidableOnOp [∀ {β : Type} (o : SpoolOp β) (k : β → Prog SpoolOp (Option Locals))
    (w : SpoolState) (c : Choice), Decidable (φ o k w c)] (s : System) :
    ∀ l : Label, Decidable (OnOp φ s l)
  | .op c =>
    match s with
    | ⟨w, some (.op o k)⟩ => inferInstanceAs (Decidable (φ o k w c))
    | ⟨_, none⟩ | ⟨_, some (.pure _)⟩ => isTrue trivial
  | .other _ | .exit => isTrue trivial

end

/-- The thread comes to its operations as it should. -/
structure Disciplined (T : Terms) (s : System) : Prop where
  sound : ∀ p ∈ s.writer, disciplined T p (OrderAtEnd T) s.spool
  orderly : ∀ p ∈ s.writer, Orderly p

/-- The step is within the terms. -/
def StepGranted (T : Terms) : System → Label → Prop := OnOp fun o _ w c => T.Grants o w c

theorem stepGranted_none (s : System) (l : Label) : StepGranted .none s l :=
  onOp_of_forall (fun o _ _ _ => by cases o <;> trivial) s l

theorem Disciplined.sound_op {s : System} (h : Disciplined T s) {β : Type} {o : SpoolOp β}
    {k : β → Prog SpoolOp (Option Locals)} (hw : s.writer = some (.op o k)) :
    Sound T o s.spool :=
  wpAt_guard (h.sound _ hw)

theorem disciplined_resume {p : Prog SpoolOp (Option Locals)}
    (h : disciplined T p (OrderAtEnd T) w) : disciplined T (resume cfg p) (OrderAtEnd T) w := by
  match p with
  | .pure (some loc) =>
    have hloc : InOrder T loc.active w := h w (refl_of Beside w)
    exact disciplined_iteration hloc
  | .pure none => exact h
  | .op o k => exact h

theorem orderly_resume {p : Prog SpoolOp (Option Locals)} (h : Orderly p) :
    Orderly (resume cfg p) := by
  match p with
  | .pure (some loc) => exact orderly_iteration loc
  | .pure none => exact h
  | .op o k => exact h

theorem disciplined_start (T : Terms) {dir : Dir}
    (hclean : T.clean → ∀ n, isBatchName n = true → dir n = none) :
    Disciplined T (.start dir) where
  sound := by
    intro p hp
    obtain rfl := Option.mem_some_iff.mp hp
    refine disciplined_setup ⟨by simp [System.start, SpoolState.names], by simp [System.start],
      fun hT n hn hd => ?_⟩
    have hd : (dir n).isSome := hd
    simp [hclean hT n hn] at hd
  orderly := by
    intro p hp
    obtain rfl := Option.mem_some_iff.mp hp
    exact orderly_setup

/-- **The step lemma.** -/
theorem Disciplined.step {s t : System} {l : Label} (h : Disciplined T s)
    (hg : StepGranted T s l) (hst : s.step cfg l = some t) : Disciplined T t := by
  rcases System.step_cases hst with ⟨x, rfl, hx, hw⟩ | ⟨c, β, o, k, rfl, hw, -, rfl⟩ | ⟨-, -, rfl⟩
  · refine ⟨fun p hp => ?_, fun p hp => h.orderly p (hw ▸ hp)⟩
    exact wpAt_rely (h.sound p (hw ▸ hp)) (beside_of_other hx)
  · refine ⟨fun p hp => ?_, fun p hp => ?_⟩
    · obtain rfl := Option.mem_some_iff.mp hp
      exact disciplined_resume (wpAt_next (h.sound _ hw) ((onOp_op hw).mp hg))
    · obtain rfl := Option.mem_some_iff.mp hp
      exact orderly_resume (h.orderly _ hw _).2
  · exact ⟨fun p hp => absurd hp (by simp), fun p hp => absurd hp (by simp)⟩

/-- The run lemma, for runs without any condition. -/
theorem disciplined_of_reachable {dir : Dir} {s : System}
    (h : Reachable (System.step cfg) (.start dir) s) : Disciplined .none s :=
  h.invariant (fun _ _ _ hs hst => hs.step (stepGranted_none _ _) hst)
    (disciplined_start .none False.elim)

/-! ### What an operation does to a batch file -/

/-- The operation creates the file. -/
def SpoolOp.creates {β : Type} (n : String) : SpoolOp β → Prop
  | .createFile name => name = n
  | _ => False

/-- The operation compresses into the file. -/
def SpoolOp.compresses {β : Type} (n : String) : SpoolOp β → Prop
  | .copy _ name | .finishEncoder name => name = n
  | _ => False

/-- The operation deletes the file. -/
def SpoolOp.removes {β : Type} (n : String) : SpoolOp β → Prop
  | .remove name => name = n
  | _ => False

theorem Dir.overwrite_of_ne {d : Dir} {m n : String} (hm : n ≠ m) (f : File) :
    d.overwrite m f n = d n := by
  rw [Dir.overwrite]
  split_ifs
  · rw [Function.update_of_ne hm]
  · rfl

/-- **All that an operation does to a batch file**: nothing; or it creates it; or it compresses
into it, which is then the file of the encoder and unfinished; or it deletes it. -/
theorem Sound.batchFile {β : Type} {o : SpoolOp β} (h : Sound T o w)
    (hn : isBatchName n = true) (c : Choice) :
    (perform o w c).2.dir n = w.dir n ∨
    (o.creates n ∧ c.ok = true ∧ (perform o w c).2.dir n = some (.zst [] .empty 0)) ∨
    (o.compresses n ∧ (∃ given, w.encoding = some (n, given)) ∧ (w.dir n).isSome ∧
      Unfinished w n) ∨
    (o.removes n ∧ o.asks (perform o w c).1 ∧ (perform o w c).2.dir n = none) := by
  cases o with
  | createActive =>
    rw [perform]
    split_ifs
    · exact .inl (Function.update_of_ne (ne_of_isBatchName isBatchName_activeFileName hn) _ _)
    · exact .inl rfl
  | remove name =>
    rw [perform]
    split_ifs
    · by_cases hname : name = n
      · refine .inr (.inr (.inr ⟨hname, ⟨rfl, hname ▸ hn⟩, ?_⟩))
        rw [hname]
        exact Function.update_self _ _ _
      · exact .inl (Function.update_of_ne (Ne.symm hname) _ _)
    · exact .inl rfl
  | writeLine l =>
    rw [perform]
    split_ifs <;> exact .inl (Dir.append_of_ne (ne_of_isBatchName isBatchName_activeFileName hn) _)
  | rename dst =>
    obtain ⟨ts, seq, cs, rfl, hstage⟩ := h
    simp only [perform, hstage.file]
    split_ifs
    · refine .inl ?_
      show Function.update _ _ _ n = _
      rw [Function.update_of_ne (ne_of_isBatchName (isBatchName_stagingName ts seq) hn),
        Function.update_of_ne (ne_of_isBatchName isBatchName_activeFileName hn)]
    · exact .inl rfl
  | createFile name =>
    rw [perform]
    split_ifs with hok
    · by_cases hname : name = n
      · refine .inr (.inl ⟨hname, hok, ?_⟩)
        rw [hname]
        exact Function.update_self _ _ _
      · exact .inl (Function.update_of_ne (Ne.symm hname) _ _)
    · exact .inl rfl
  | copy src dst =>
    obtain ⟨ts, seq, cs, rfl, rfl, hcomp⟩ := h
    simp only [perform, hcomp.file]
    by_cases hname : n = batchName ts seq
    · subst hname
      by_cases hd : (w.dir (batchName ts seq)).isSome
      · exact .inr (.inr (.inl ⟨rfl, ⟨_, hcomp.encoder⟩, hd, hcomp.unfinished⟩))
      · exact .inl (by simp [Dir.overwrite, hd])
    · exact .inl (Dir.overwrite_of_ne hname _)
  | finishEncoder dst =>
    obtain ⟨ts, seq, cs, rfl, hcomp⟩ := h
    simp only [perform, hcomp.encoder]
    by_cases hname : n = batchName ts seq
    · subst hname
      by_cases hd : (w.dir (batchName ts seq)).isSome
      · exact .inr (.inr (.inl ⟨rfl, ⟨cs, rfl⟩, hd, hcomp.unfinished⟩))
      · refine .inl ?_
        split_ifs
        · simp [Dir.overwrite, hd]
        · rfl
    · refine .inl ?_
      split_ifs
      · exact Dir.overwrite_of_ne hname _
      · rfl
  | recv =>
    rw [perform]
    split <;> exact .inl rfl
  | _ => exact .inl rfl

/-- **A deleted batch is counted next.** -/
theorem Disciplined.counted {s : System} (h : Disciplined T s) {β : Type} {o : SpoolOp β}
    {k : β → Prog SpoolOp (Option Locals)} (hw : s.writer = some (.op o k)) (hr : o.removes n)
    {b : β} (hb : o.asks b) : ∃ k', resume cfg (k b) = .op .countEvicted k' := by
  have hfirst : First o.follows (k b) := (h.orderly _ hw b).1 hb
  cases o with
  | remove name =>
    match k b, hfirst with
    | .op .countEvicted k', _ => exact ⟨k', rfl⟩
  | _ => exact hr.elim

/-! ### What an operation does to the record of the batches -/

/-- The operation ends the encoding of the batch. -/
def SpoolOp.ends {β : Type} (n : String) : SpoolOp β → Prop
  | .finishEncoder name => name = n
  | _ => False

theorem map_delete {α : Type} {f : Batch → α} (hf : ∀ b fate, f { b with fate := fate } = f b)
    (name : String) (fate : Fate) : (w.delete name fate).batches.map f = w.batches.map f := by
  rw [SpoolState.delete, List.map_map]
  refine List.map_congr_left fun b _ => ?_
  rw [Function.comp_apply, Batch.lose]
  split_ifs
  · exact hf b fate
  · rfl

/-- **Only the end of an encoding adds a batch**, and otherwise batches change only their fate. -/
theorem perform_batches {α : Type} {f : Batch → α}
    (hf : ∀ b fate, f { b with fate := fate } = f b) {β : Type} (o : SpoolOp β) (w : SpoolState)
    (c : Choice) :
    ((∀ n, o.ends n → c.ok = true → w.encoding = none) ∧
      (perform o w c).2.batches.map f = w.batches.map f) ∨
    ∃ n e, o.ends n ∧ c.ok = true ∧ w.encoding = some e ∧
      (perform o w c).2.batches = w.batches ++ [⟨n, e.2, .present⟩] := by
  cases o with
  | finishEncoder dst =>
    cases he : w.encoding with
    | none => exact .inl ⟨fun _ _ _ => rfl, by simp only [perform, he]⟩
    | some e =>
      by_cases hok : c.ok = true
      · exact .inr ⟨dst, e, rfl, hok, rfl, by simp only [perform, he, hok, if_true]⟩
      · exact .inl ⟨fun _ _ h => absurd h hok, by simp only [perform, he, hok]; rfl⟩
  | remove name =>
    refine .inl ⟨fun _ h => h.elim, ?_⟩
    rw [perform]
    split_ifs
    · exact map_delete hf name _
    · rfl
  | countEvicted =>
    refine .inl ⟨fun _ h => h.elim, ?_⟩
    rw [perform, List.map_map]
    refine List.map_congr_left fun b _ => ?_
    rw [Function.comp_apply, Batch.count]
    split_ifs
    · exact hf b _
    · rfl
  | createActive | writeLine | createFile =>
    refine .inl ⟨fun _ h => h.elim, ?_⟩
    rw [perform]
    split_ifs <;> rfl
  | rename dst =>
    refine .inl ⟨fun _ h => h.elim, ?_⟩
    rw [perform]
    split
    · split_ifs <;> rfl
    · rfl
  | copy src dst =>
    refine .inl ⟨fun _ h => h.elim, ?_⟩
    rw [perform]
    split <;> rfl
  | recv =>
    refine .inl ⟨fun _ h => h.elim, ?_⟩
    rw [perform]
    split <;> rfl
  | _ => exact .inl ⟨fun _ h => h.elim, rfl⟩

theorem other_batches {α : Type} {f : Batch → α}
    (hf : ∀ b fate, f { b with fate := fate } = f b) {x : Other}
    (h : w.other cfg x = some w') : w'.batches.map f = w.batches.map f := by
  rcases SpoolState.other_cases h with ⟨y, rfl, rfl⟩ | ⟨_, _, _, rfl⟩ | ⟨name, rfl, -, rfl⟩
  · rw [SpoolState.trySubmit]
    split_ifs <;> rfl
  · rfl
  · exact map_delete hf name _

/-! ### Parts of concrete runs -/

/-- The thread sets up and comes to its first receive. -/
def settingUp : List Label := List.replicate 6 (.op {})

/-- From a receive to the next: a line fills the file, which is sealed at the given second. -/
def sealAt (unix : ℕ) : List Label :=
  [.other (.submit emptyEvent)] ++ List.replicate 4 (.op {}) ++ [.op { unix := unix }] ++
    List.replicate 13 (.op {})

end Spool

end WazabiAgent
