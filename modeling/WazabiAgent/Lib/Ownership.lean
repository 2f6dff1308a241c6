import Mathlib.Algebra.Ring.Nat
import Mathlib.Data.List.Perm.Basic
import Mathlib.Logic.Relation
import WazabiAgent.Lib.Program

/-!
# Handles and their owners

Threads that share a table of handles. An operation works with some handles, which should be open
when it is performed; by its answer it may open a handle, close one, or start a thread that takes
one over.

`Owns` is a discipline for a single program, which speaks of no other: the program has a ledger of
the handles it owns, works with no others, and never has more than so many. Programs that keep it
cannot get into each other's way, in whatever order their operations are performed: in a `Pool`
every open handle has exactly one owner, which is still running. The operating system may hand out
the same handle again once it is closed.

## Main definitions

* `Custody` — what the operations of a family do to handles
* `Owns` — the discipline
* `untilSome` — a loop
* `Pool.Step` — threads whose operations interleave
* `Pool.Tidy` — every open handle has one owner

## Main results

* `owns_bind`, `owns_untilSome` — the discipline for sequences and loops
* `Pool.Tidy.step`, `Pool.Tidy.run` — the threads keep it, together
* `Pool.Tidy.kept`, `Pool.Kept.live_eq_nil` — what follows from it
-/

namespace Prog

variable {F : Type → Type} {H : Type} {α β : Type}

/-- What an operation has done to the table of handles. -/
inductive Deed (F : Type → Type) (H : Type) : Type 1
  | nothing
  | opens (h : H)
  | closes (h : H)
  /-- A thread was started, which takes the handle over. -/
  | gives (h : H) (p : Prog F Unit)

namespace Deed

/-- An open handle is not handed out again. -/
def Possible (live : List H) : Deed F H → Prop
  | .opens h => h ∉ live
  | _ => True

/-- The handle that must have been there. -/
def held : Deed F H → List H
  | .closes h | .gives h _ => [h]
  | _ => []

/-- The threads that were started. -/
def started : Deed F H → List (Prog F Unit × List H)
  | .gives h p => [(p, [h])]
  | _ => []

variable [DecidableEq H]

/-- What the thread has left that did it. -/
def left (s : List H) : Deed F H → List H
  | .nothing => s
  | .opens h => h :: s
  | .closes h | .gives h _ => s.erase h

/-- The table. -/
def table (live : List H) : Deed F H → List H
  | .nothing | .gives _ _ => live
  | .opens h => h :: live
  | .closes h => live.erase h

end Deed

/-- What the operations of a family do to handles. -/
structure Custody (F : Type → Type) (H : Type) : Type 1 where
  /-- The handles that an operation works with. -/
  uses : {β : Type} → F β → List H
  deed : {β : Type} → F β → β → Deed F H
  held_subset : ∀ {β : Type} (o : F β) (b : β), (deed o b).held ⊆ uses o

variable [DecidableEq H] {M : Custody F H} {c : ℕ}

/-! ### The discipline -/

/-- The program, which owns the handles `s`, works with none but its own, has at most `c` of them
at any time, and ends with what `Q` says. -/
def Owns (M : Custody F H) (c : ℕ) : Prog F α → (α → List H → Prop) → List H → Prop
  | .pure a, Q, s => Q a s
  | .op o k, Q, s =>
    s.length ≤ c ∧ M.uses o ⊆ s ∧
      ∀ b, (M.deed o b).Possible s → Owns M c (k b) Q ((M.deed o b).left s)

variable {s : List H} {Q Q' : α → List H → Prop}

theorem owns_mono {p : Prog F α} (h : Owns M c p Q s) (hQ : ∀ a t, Q a t → Q' a t) :
    Owns M c p Q' s := by
  induction p generalizing s with
  | pure a => exact hQ a s h
  | op o k ih => exact ⟨h.1, h.2.1, fun b hb => ih b (h.2.2 b hb)⟩

theorem owns_bind {p : Prog F α} {f : α → Prog F β} {Q : β → List H → Prop} :
    Owns M c (p >>= f) Q s ↔ Owns M c p (fun a t => Owns M c (f a) Q t) s := by
  induction p generalizing s with
  | pure a => exact Iff.rfl
  | op o k ih =>
    exact and_congr_right fun _ => and_congr_right fun _ => forall₂_congr fun b _ => ih b

/-! ### Loops -/

/-- Repeat `body` until it has a result. After `n` rounds without one it is `stuck` forever. -/
def untilSome (stuck : F Empty) (body : Prog F (Option α)) : ℕ → Prog F α
  | 0 => .op stuck nofun
  | n + 1 => body >>= fun r => r.elim (untilSome stuck body n) .pure

/-- **The rule for loops.** `I` is the invariant at the head of each round. -/
theorem owns_untilSome {stuck : F Empty} {body : Prog F (Option α)} {I : List H → Prop} {n : ℕ}
    (hstuck : M.uses stuck = []) (hlen : ∀ t, I t → t.length ≤ c)
    (hbody : ∀ t, I t → Owns M c body (fun r t => r.elim (I t) fun a => Q a t) t) (hs : I s) :
    Owns M c (untilSome stuck body n) Q s := by
  induction n generalizing s with
  | zero => exact ⟨hlen s hs, by simp [hstuck], nofun⟩
  | succ n ih =>
    refine owns_bind.mpr (owns_mono (hbody s hs) fun r t hr => ?_)
    cases r with
    | none => exact ih hr
    | some a => exact hr

/-! ### Threads -/

/-- The program is at its end. -/
def isOver : Prog F α → Bool
  | .pure _ => true
  | .op _ _ => false

/-- Threads, and the table of the handles that are open. -/
structure Pool (F : Type → Type) (H : Type) : Type 1 where
  threads : List (Prog F Unit)
  live : List H

namespace Pool

/-- One of the threads performs its next operation. -/
inductive Step (M : Custody F H) : Pool F H → Pool F H → Prop
  | perform {β : Type} (pre post : List (Prog F Unit)) (o : F β) (k : β → Prog F Unit) (b : β)
      (live : List H) (hb : (M.deed o b).Possible live) :
      Step M ⟨pre ++ .op o k :: post, live⟩
        ⟨pre ++ k b :: post ++ (M.deed o b).started.map Prod.fst, (M.deed o b).table live⟩

/-- A run that starts with the thread behind `pre`. -/
theorem exists_run_head {R : Pool F H → Prop} {o : F β} {k : β → Prog F Unit}
    {post : List (Prog F Unit)} {live : List H} (pre : List (Prog F Unit)) (b : β)
    (hb : (M.deed o b).Possible live)
    (h : ∃ P, Relation.ReflTransGen (Step M)
      ⟨pre ++ k b :: post ++ (M.deed o b).started.map Prod.fst, (M.deed o b).table live⟩ P ∧ R P) :
    ∃ P, Relation.ReflTransGen (Step M) ⟨pre ++ .op o k :: post, live⟩ P ∧ R P := by
  obtain ⟨P, hP, hR⟩ := h
  exact ⟨P, .head (.perform pre post o k b live hb) hP, hR⟩

/-- The thread ends without handles. -/
def Clean (M : Custody F H) (c : ℕ) (x : Prog F Unit × List H) : Prop :=
  Owns M c x.1 (fun _ t => t = []) x.2

/-- Every open handle is in the ledger of one thread, which keeps to its ledger. -/
structure TidyWith (M : Custody F H) (c : ℕ) (P : Pool F H)
    (crew : List (Prog F Unit × List H)) : Prop where
  threads : P.threads = crew.map Prod.fst
  clean : ∀ x ∈ crew, Clean M c x
  live : P.live.Perm (crew.flatMap Prod.snd)
  nodup : P.live.Nodup

/-- The pool is tidy for some crew. -/
def Tidy (M : Custody F H) (c : ℕ) (P : Pool F H) : Prop := ∃ crew, TidyWith M c P crew

variable {P P' : Pool F H} {crew : List (Prog F Unit × List H)}

/-- Threads that own nothing are tidy. -/
theorem tidy_of_forall {ps : List (Prog F Unit)} (h : ∀ p ∈ ps, Clean M c (p, [])) :
    Tidy M c ⟨ps, []⟩ := by
  refine ⟨ps.map fun p => (p, []), ?_, ?_, ?_, List.nodup_nil⟩
  · show ps = _
    rw [List.map_map]
    exact (List.map_id ps).symm
  · intro x hx
    obtain ⟨p, hp, rfl⟩ := List.mem_map.mp hx
    exact h p hp
  · show List.Perm [] _
    rw [List.flatMap_map]
    exact .of_eq (List.flatMap_eq_nil_iff.mpr fun _ _ => rfl).symm

/-- What is in the table after a deed, and who has it: `s` is the ledger of who did it, `rest` is
what the others have. -/
theorem table_perm {live s rest : List H} (d : Deed F H) (hlive : live.Perm (s ++ rest))
    (hheld : d.held ⊆ s) :
    (d.table live).Perm (d.left s ++ rest ++ d.started.flatMap Prod.snd) := by
  cases d with
  | nothing => simpa [Deed.table, Deed.left, Deed.started] using hlive
  | opens h => simpa [Deed.table, Deed.left, Deed.started] using hlive.cons h
  | closes h =>
    have hmem : h ∈ s := hheld (List.mem_singleton_self h)
    simpa [Deed.table, Deed.left, Deed.started, List.erase_append_left rest hmem]
      using hlive.erase h
  | gives h p =>
    have hmem : h ∈ s := hheld (List.mem_singleton_self h)
    have hs : (s ++ rest).Perm (h :: (s.erase h ++ rest)) :=
      (List.perm_cons_erase hmem).append_right rest
    simpa [Deed.table, Deed.left, Deed.started] using
      (hlive.trans hs).trans (List.perm_append_singleton h (s.erase h ++ rest)).symm

theorem nodup_table {live : List H} {d : Deed F H} (h : live.Nodup) (hd : d.Possible live) :
    (d.table live).Nodup := by
  cases d with
  | nothing => exact h
  | opens x => exact List.nodup_cons.mpr ⟨hd, h⟩
  | closes x => exact h.erase x
  | gives x p => exact h

omit [DecidableEq H] in
/-- What was free for all is free for one. -/
theorem possible_of_subset {live s : List H} {d : Deed F H} (hd : d.Possible live) (h : s ⊆ live) :
    d.Possible s := by
  cases d with
  | opens x => exact fun hx => hd (h hx)
  | _ => trivial

/-- Every thread that is started keeps the discipline, with what it takes over. -/
def StartsClean (M : Custody F H) (c : ℕ) : Prop :=
  ∀ {β : Type} (o : F β) (b : β), ∀ x ∈ (M.deed o b).started, Clean M c x

/-- **The step lemma.** -/
theorem Tidy.step (hM : StartsClean M c) (h : Tidy M c P) (hst : Step M P P') : Tidy M c P' := by
  obtain ⟨crew, hthreads, hclean, hlive, hnodup⟩ := h
  obtain ⟨pre, post, o, k, b, live, hb⟩ := hst
  obtain ⟨pre, rest, rfl, rfl, hrest⟩ := List.map_eq_append_iff.mp hthreads.symm
  obtain ⟨⟨p, s⟩, post, rfl, rfl, rfl⟩ := List.map_eq_cons_iff.mp hrest
  dsimp only at *
  obtain ⟨-, huses, hk⟩ : Clean M c (.op o k, s) := hclean _ (by simp)
  -- the ledger of the thread that moves, and those of the others
  have hsplit : (((pre ++ (.op o k, s) :: post).flatMap Prod.snd)).Perm
      (s ++ (pre ++ post).flatMap Prod.snd) := by
    simp only [List.flatMap_append, List.flatMap_cons]
    exact List.perm_append_comm_assoc _ _ _
  have hsub : s ⊆ live := fun x hx => (hlive.trans hsplit).mem_iff.mpr (List.mem_append_left _ hx)
  refine ⟨pre ++ (k b, (M.deed o b).left s) :: post ++ (M.deed o b).started, by simp, ?_, ?_,
    nodup_table hnodup hb⟩
  · intro x hx
    simp only [List.mem_append, List.mem_cons] at hx
    rcases hx with (hx | rfl | hx) | hx
    · exact hclean x (by simp [hx])
    · exact hk b (possible_of_subset hb hsub)
    · exact hclean x (by simp [hx])
    · exact hM o b x hx
  · refine (table_perm _ (hlive.trans hsplit) fun x hx => huses (M.held_subset o b hx)).trans ?_
    simp only [List.flatMap_append, List.flatMap_cons]
    exact (List.perm_append_comm_assoc _ _ _).append_right _

theorem Tidy.run (hM : StartsClean M c) (h : Tidy M c P)
    (hr : Relation.ReflTransGen (Step M) P P') : Tidy M c P' := by
  induction hr with
  | refl => exact h
  | tail _ hst ih => exact ih.step hM hst

/-- **No thread works with a handle that is not open.** -/
theorem Tidy.uses_subset (h : Tidy M c P) {o : F β} {k : β → Prog F Unit}
    (hp : .op o k ∈ P.threads) : M.uses o ⊆ P.live := by
  obtain ⟨crew, hthreads, hclean, hlive, -⟩ := h
  rw [hthreads] at hp
  obtain ⟨⟨p, s⟩, hx, rfl⟩ := List.mem_map.mp hp
  obtain ⟨-, huses, -⟩ : Clean M c (.op o k, s) := hclean _ hx
  exact fun y hy => hlive.mem_iff.mpr (List.mem_flatMap.mpr ⟨_, hx, huses hy⟩)

/-- **No two threads work with the same handle.** -/
theorem Tidy.apart {γ : Type} (h : Tidy M c P) {pre mid post : List (Prog F Unit)} {o : F β}
    {k : β → Prog F Unit} {o' : F γ} {k' : γ → Prog F Unit}
    (hp : P.threads = pre ++ .op o k :: mid ++ .op o' k' :: post) :
    (M.uses o).Disjoint (M.uses o') := by
  obtain ⟨crew, hthreads, hclean, hlive, hnodup⟩ := h
  obtain ⟨l, r, rfl, hl, hr⟩ := List.map_eq_append_iff.mp (hthreads.symm.trans hp)
  obtain ⟨pre, l, rfl, rfl, hmid⟩ := List.map_eq_append_iff.mp hl
  obtain ⟨⟨p, s⟩, mid, rfl, rfl, rfl⟩ := List.map_eq_cons_iff.mp hmid
  obtain ⟨⟨p', s'⟩, post, rfl, rfl, rfl⟩ := List.map_eq_cons_iff.mp hr
  obtain ⟨-, huses, -⟩ : Clean M c (.op o k, s) := hclean _ (by simp)
  obtain ⟨-, huses', -⟩ : Clean M c (.op o' k', s') := hclean _ (by simp)
  have hdisj := (hlive.nodup_iff.mp hnodup)
  simp only [List.flatMap_append, List.flatMap_cons] at hdisj
  intro x hx hx'
  exact (List.nodup_append.mp hdisj).2.2 x (by simp [huses hx]) x (by simp [huses' hx']) rfl

/-- **No thread that is over has left a handle open**, and one that is not has at most `c`. -/
theorem Tidy.length_live_le (h : Tidy M c P) :
    P.live.length ≤ c * P.threads.countP fun p => !p.isOver := by
  obtain ⟨crew, hthreads, hclean, hlive, -⟩ := h
  rw [hlive.length_eq, hthreads]
  clear hthreads hlive
  induction crew with
  | nil => simp
  | cons x crew ih =>
    obtain ⟨hx, hcrew⟩ := List.forall_mem_cons.mp hclean
    have hrest := ih hcrew
    obtain ⟨p, s⟩ := x
    rw [List.flatMap_cons, List.length_append, List.map_cons, List.countP_cons]
    cases p with
    | pure a =>
      obtain rfl : s = [] := hx
      simpa [isOver] using hrest
    | op o k =>
      have hlen : s.length ≤ c := hx.1
      simp only [isOver, Bool.not_false, if_true, Nat.mul_add, Nat.mul_one] at hrest ⊢
      omega

/-- What comes of it: an operation works with open handles only, no two threads are about to work
with the same handle, and only threads that are not over have handles, each at most `c`. -/
structure Kept (M : Custody F H) (c : ℕ) (P : Pool F H) : Prop where
  uses_subset : ∀ {β : Type} (o : F β) (k : β → Prog F Unit), .op o k ∈ P.threads →
    M.uses o ⊆ P.live
  apart : ∀ {β γ : Type} (pre mid post : List (Prog F Unit)) (o : F β) (k : β → Prog F Unit)
    (o' : F γ) (k' : γ → Prog F Unit), P.threads = pre ++ .op o k :: mid ++ .op o' k' :: post →
    (M.uses o).Disjoint (M.uses o')
  length_live_le : P.live.length ≤ c * P.threads.countP fun p => !p.isOver
  /-- Every open handle is one thread's. -/
  ledgers : ∃ ledgers : List (List H), P.live.Perm ledgers.flatten ∧ P.live.Nodup ∧
    List.Forall₂ (fun p s => s.length ≤ c ∧ (p.isOver = true → s = [])) P.threads ledgers

theorem Tidy.ledgers (h : Tidy M c P) : ∃ ledgers : List (List H),
    P.live.Perm ledgers.flatten ∧ P.live.Nodup ∧
      List.Forall₂ (fun p s => s.length ≤ c ∧ (p.isOver = true → s = [])) P.threads ledgers := by
  obtain ⟨crew, hthreads, hclean, hlive, hnodup⟩ := h
  refine ⟨crew.map Prod.snd, by rwa [← List.flatMap_def], hnodup, ?_⟩
  rw [hthreads, List.forall₂_map_left_iff, List.forall₂_map_right_iff, List.forall₂_same]
  rintro ⟨p, s⟩ hx
  cases p with
  | pure a =>
    obtain rfl : s = [] := hclean _ hx
    exact ⟨Nat.zero_le c, fun _ => rfl⟩
  | op o k =>
    have hlen : s.length ≤ c := (hclean _ hx).1
    exact ⟨hlen, fun hover => Bool.noConfusion hover⟩

theorem Tidy.kept (h : Tidy M c P) : Kept M c P where
  uses_subset _ _ hp := h.uses_subset hp
  apart _ _ _ _ _ _ _ hp := h.apart hp
  length_live_le := h.length_live_le
  ledgers := h.ledgers

omit [DecidableEq H] in
/-- When all threads are over, nothing is open. -/
theorem Kept.live_eq_nil (h : Kept M c P) (hover : ∀ p ∈ P.threads, p.isOver = true) :
    P.live = [] := by
  have hnone : P.threads.countP (fun p => !p.isOver) = 0 :=
    List.countP_eq_zero.mpr fun p hp => by simp [hover p hp]
  have hlen := h.length_live_le
  rw [hnone, Nat.mul_zero] at hlen
  exact List.eq_nil_of_length_eq_zero (Nat.le_zero.mp hlen)

end Pool

end Prog
