import Mathlib.Data.List.AList
import Mathlib.Data.List.Induction

/-!
# Keyed snapshots and their differences

A `KeyedMap` has at most one value for each key. A snapshot is filled entry by entry, so that of two
entries with one key the later counts, and two snapshots are compared by going through the keys of
the new one and then through those that only the old one has.

A hash map is iterated in an order of its own. Here it is the order of the entries, and nothing is
said about it.

## Main definitions

* `KeyedMap.collect` — a map filled from a list
* `KeyedMap.diffWith` — what a comparison yields
* `KeyedMap.diffAt` — what it yields for one key

## Main results

* `lookup_collect` — the map has the last entry of each key
* `mem_diffWith_iff`, `forall_mem_diffWith_iff` — where a difference comes from
* `count_diffWith` — a difference is counted at its key
-/

/-- A map from keys to values. -/
abbrev KeyedMap (κ β : Type*) := AList fun _ : κ => β

namespace KeyedMap

variable {κ β ε δ : Type*} [DecidableEq κ]

/-! ### Filling a map -/

/-- Insert the entries in their order. -/
def collect (key : ε → κ) (val : ε → β) (es : List ε) : KeyedMap κ β :=
  es.foldl (fun m e => m.insert (key e) (val e)) ∅

/-- The last entry of a key. -/
def lastOf (key : ε → κ) (es : List ε) (k : κ) : Option ε := es.reverse.find? fun e => key e = k

theorem lastOf_concat (key : ε → κ) (es : List ε) (e : ε) (k : κ) :
    lastOf key (es ++ [e]) k = if key e = k then some e else lastOf key es k := by
  simp only [lastOf, List.reverse_append, List.reverse_singleton, List.singleton_append,
    List.find?_cons]
  by_cases h : key e = k <;> simp [h]

theorem key_of_lastOf {key : ε → κ} {es : List ε} {k : κ} {e : ε} (h : lastOf key es k = some e) :
    key e = k := by simpa using List.find?_some h

theorem collect_concat (key : ε → κ) (val : ε → β) (es : List ε) (e : ε) :
    collect key val (es ++ [e]) = (collect key val es).insert (key e) (val e) := by
  simp [collect]

theorem lookup_collect (key : ε → κ) (val : ε → β) (es : List ε) (k : κ) :
    (collect key val es).lookup k = (lastOf key es k).map val := by
  induction es using List.reverseRecOn with
  | nil => rfl
  | append_singleton es e ih =>
    rw [collect_concat, lastOf_concat]
    by_cases h : key e = k
    · subst h
      simp
    · rw [AList.lookup_insert_ne (Ne.symm h), ih, if_neg h]

/-! ### Comparison -/

/-- What comparing `prev` with `next` yields: `onNext` of each value in `next`, with the one that
`prev` has, and `onGone` of each value that only `prev` has. -/
def diffWith (onNext : κ → Option β → β → List δ) (onGone : κ → β → List δ)
    (prev next : KeyedMap κ β) : List δ :=
  (next.entries.flatMap fun e => onNext e.1 (prev.lookup e.1) e.2) ++
    prev.entries.flatMap fun e => if e.1 ∈ next then [] else onGone e.1 e.2

variable {onNext : κ → Option β → β → List δ} {onGone : κ → β → List δ} {prev next : KeyedMap κ β}

theorem mem_entries_iff {m : KeyedMap κ β} {e : Sigma fun _ : κ => β} :
    e ∈ m.entries ↔ m.lookup e.1 = some e.2 := by
  rw [← Option.mem_def, AList.mem_lookup_iff]

theorem mem_diffWith_iff {d : δ} :
    d ∈ diffWith onNext onGone prev next ↔
      (∃ k new, next.lookup k = some new ∧ d ∈ onNext k (prev.lookup k) new) ∨
        ∃ k old, prev.lookup k = some old ∧ next.lookup k = none ∧ d ∈ onGone k old := by
  rw [diffWith, List.mem_append, List.mem_flatMap, List.mem_flatMap]
  refine or_congr ⟨?_, ?_⟩ ⟨?_, ?_⟩
  · rintro ⟨e, he, hd⟩
    exact ⟨e.1, e.2, mem_entries_iff.mp he, hd⟩
  · rintro ⟨k, new, hk, hd⟩
    exact ⟨⟨k, new⟩, mem_entries_iff.mpr hk, hd⟩
  · rintro ⟨e, he, hd⟩
    by_cases hnext : e.1 ∈ next
    · simp [hnext] at hd
    · rw [if_neg hnext] at hd
      exact ⟨e.1, e.2, mem_entries_iff.mp he, AList.lookup_eq_none.mpr hnext, hd⟩
  · rintro ⟨k, old, hk, hnext, hd⟩
    refine ⟨⟨k, old⟩, mem_entries_iff.mpr hk, ?_⟩
    rw [if_neg (AList.lookup_eq_none.mp hnext)]
    exact hd

/-- What holds of all differences, by the keys that are new, that stay and that are gone. -/
theorem forall_mem_diffWith_iff {P : δ → Prop} :
    (∀ d ∈ diffWith onNext onGone prev next, P d) ↔
      (∀ k new, prev.lookup k = none → next.lookup k = some new → ∀ d ∈ onNext k none new, P d) ∧
      (∀ k old new, prev.lookup k = some old → next.lookup k = some new →
        ∀ d ∈ onNext k (some old) new, P d) ∧
      ∀ k old, prev.lookup k = some old → next.lookup k = none → ∀ d ∈ onGone k old, P d := by
  constructor
  · intro h
    refine ⟨fun k new hold hnew d hd => ?_, fun k old new hold hnew d hd => ?_,
      fun k old hold hnew d hd => ?_⟩
    · exact h d (mem_diffWith_iff.mpr (.inl ⟨k, new, hnew, hold ▸ hd⟩))
    · exact h d (mem_diffWith_iff.mpr (.inl ⟨k, new, hnew, hold ▸ hd⟩))
    · exact h d (mem_diffWith_iff.mpr (.inr ⟨k, old, hold, hnew, hd⟩))
  · rintro ⟨hcreated, hkept, hgone⟩ d hd
    rcases mem_diffWith_iff.mp hd with ⟨k, new, hnew, hd⟩ | ⟨k, old, hold, hnew, hd⟩
    · cases hold : prev.lookup k with
      | none => exact hcreated k new hold hnew d (hold ▸ hd)
      | some old => exact hkept k old new hold hnew d (hold ▸ hd)
    · exact hgone k old hold hnew d hd

theorem exists_lookup_iff {m : KeyedMap κ β} {k : κ} : (∃ b, m.lookup k = some b) ↔ k ∈ m := by
  rw [← Option.isSome_iff_exists, AList.lookup_isSome]

/-! ### Counting -/

/-- What comparing yields for one key. -/
def diffAt (onNext : κ → Option β → β → List δ) (onGone : κ → β → List δ) (k : κ) :
    Option β → Option β → List δ
  | old, some new => onNext k old new
  | some old, none => onGone k old
  | none, none => []

section

variable [DecidableEq δ] {keyOf : δ → κ} {f : κ → β → List δ}

/-- What carries its key comes from the entry of that key. -/
theorem count_flatMap_entries (hf : ∀ k b, ∀ d ∈ f k b, keyOf d = k) (m : KeyedMap κ β) (d : δ) :
    (m.entries.flatMap fun e => f e.1 e.2).count d
      = ((m.lookup (keyOf d)).elim [] (f (keyOf d))).count d := by
  obtain ⟨es, hes⟩ := m
  change (es.flatMap fun e => f e.1 e.2).count d
    = ((es.dlookup (keyOf d)).elim [] (f (keyOf d))).count d
  induction es with
  | nil => rfl
  | cons e es ih =>
    obtain ⟨k, b⟩ := e
    obtain ⟨hk, hkeys⟩ := List.nodupKeys_cons.mp hes
    rw [List.flatMap_cons, List.count_append, ih hkeys]
    by_cases h : k = keyOf d
    · subst h
      rw [List.dlookup_cons_eq, List.dlookup_eq_none.mpr hk]
      simp
    · have hnone : (f k b).count d = 0 := List.count_eq_zero.mpr fun hd => h (hf k b d hd).symm
      rw [List.dlookup_cons_ne es ⟨k, b⟩ (Ne.symm h), hnone, Nat.zero_add]

/-- A difference that carries its key is counted among those of the key. -/
theorem count_diffWith (hnext : ∀ k old new, ∀ d ∈ onNext k old new, keyOf d = k)
    (hgone : ∀ k old, ∀ d ∈ onGone k old, keyOf d = k) (d : δ) :
    (diffWith onNext onGone prev next).count d
      = (diffAt onNext onGone (keyOf d) (prev.lookup (keyOf d))
          (next.lookup (keyOf d))).count d := by
  have hgone' : ∀ k old, ∀ d ∈ if k ∈ next then [] else onGone k old, keyOf d = k := by
    intro k old d hd
    split_ifs at hd
    · cases hd
    · exact hgone k old d hd
  rw [diffWith, List.count_append, count_flatMap_entries fun k => hnext k (prev.lookup k),
    count_flatMap_entries hgone']
  cases hnew : next.lookup (keyOf d) with
  | some new =>
    have hmem : keyOf d ∈ next := exists_lookup_iff.mp ⟨new, hnew⟩
    cases prev.lookup (keyOf d) <;> simp [diffAt, hmem]
  | none =>
    have hmem : keyOf d ∉ next := AList.lookup_eq_none.mp hnew
    cases prev.lookup (keyOf d) <;> simp [diffAt, hmem]

end

end KeyedMap
