import Mathlib.Data.List.Perm.Subperm
import WazabiAgent.Lib.KeyedMap

/-!
# Bounded memo tables

A memo table keeps the answers of a source that may answer differently at different times. It is
asked for a key, and asks the source if it does not know the key. A table that has grown over its
limit is emptied before it takes another answer.

## Main definitions

* `Memo.ask` — an answer, and the table after it
* `Memo.Sound` — every answer in the table has been given
* `Memo.Kept` — the table has all the keys that the source has been asked for

## Main results

* `Sound.ask` — an answer is the one of some source so far
* `Kept.ask` — if there are few enough keys, the source is asked at most once for each of them
-/

namespace Memo

variable {κ ν : Type*} [DecidableEq κ]

/-- Ask the table for `k`, and the source if it has to be asked. -/
def ask (limit : ℕ) (source : κ → ν) (m : KeyedMap κ ν) (k : κ) : ν × KeyedMap κ ν :=
  match m.lookup k with
  | some v => (v, m)
  | none =>
    (source k, (if limit < m.entries.length then ∅ else m).insert k (source k))

variable {limit : ℕ} {source : κ → ν} {m : KeyedMap κ ν} {k k' : κ} {v : ν}

theorem ask_of_some (h : m.lookup k = some v) : ask limit source m k = (v, m) := by
  rw [ask, h]

theorem ask_of_none (h : m.lookup k = none) : ask limit source m k =
    (source k, (if limit < m.entries.length then ∅ else m).insert k (source k)) := by
  rw [ask, h]

theorem length_insert_le (m : KeyedMap κ ν) (k : κ) (v : ν) :
    (m.insert k v).entries.length ≤ m.entries.length + 1 := by
  rw [AList.entries_insert, List.length_cons]
  exact Nat.succ_le_succ (List.kerase_sublist k m.entries).length_le

theorem length_ask_le (source : κ → ν) (k : κ) (h : m.entries.length ≤ limit + 1) :
    (ask limit source m k).2.entries.length ≤ limit + 1 := by
  cases hk : m.lookup k with
  | some v => rwa [ask_of_some hk]
  | none =>
    rw [ask_of_none hk]
    refine Nat.le_trans (length_insert_le _ _ _) (Nat.succ_le_succ ?_)
    split_ifs with hfull
    · exact Nat.zero_le _
    · exact Nat.not_lt.mp hfull

/-! ### Answers -/

/-- Every answer in the table is one of these sources'. -/
def Sound (sources : List (κ → ν)) (m : KeyedMap κ ν) : Prop :=
  ∀ k v, m.lookup k = some v → ∃ s ∈ sources, v = s k

theorem sound_empty (sources : List (κ → ν)) : Sound sources ∅ := by
  intro k v h
  rw [AList.lookup_empty] at h
  cases h

variable {sources : List (κ → ν)}

theorem Sound.mono {more : List (κ → ν)} (h : Sound sources m) : Sound (sources ++ more) m := by
  intro k v hk
  obtain ⟨s, hs, hv⟩ := h k v hk
  exact ⟨s, List.mem_append_left _ hs, hv⟩

theorem Sound.insert (h : Sound sources m) {s : κ → ν} (hs : s ∈ sources) (k : κ) :
    Sound sources (m.insert k (s k)) := by
  intro k' v' hk'
  by_cases hne : k' = k
  · subst hne
    rw [AList.lookup_insert] at hk'
    exact ⟨s, hs, (Option.some.inj hk').symm⟩
  · rw [AList.lookup_insert_ne hne] at hk'
    exact h k' v' hk'

/-- What is answered, and what is kept, has been given by a source. -/
theorem Sound.ask (h : Sound sources m) (limit : ℕ) (source : κ → ν) (k : κ) :
    Sound (sources ++ [source]) (ask limit source m k).2 ∧
      ∃ s ∈ sources ++ [source], (ask limit source m k).1 = s k := by
  have hself : source ∈ sources ++ [source] := List.mem_append_right _ (List.mem_singleton_self _)
  cases hk : m.lookup k with
  | some v =>
    rw [ask_of_some hk]
    obtain ⟨s, hs, hv⟩ := h k v hk
    exact ⟨h.mono, s, List.mem_append_left _ hs, hv⟩
  | none =>
    rw [ask_of_none hk]
    refine ⟨Sound.insert ?_ hself k, source, hself, rfl⟩
    split_ifs
    · exact sound_empty _
    · exact h.mono

/-! ### Questions -/

/-- What the source has been asked for is in the table, and was asked for once. -/
structure Kept (keys asked : List κ) (m : KeyedMap κ ν) : Prop where
  nodup : asked.Nodup
  mem_iff : ∀ k, k ∈ m ↔ k ∈ asked
  subset : asked ⊆ keys

omit [DecidableEq κ] in
theorem kept_empty (keys : List κ) : Kept keys [] (∅ : KeyedMap κ ν) where
  nodup := List.nodup_nil
  mem_iff k := by simp [AList.notMem_empty]
  subset := List.nil_subset _

variable {keys asked : List κ}

omit [DecidableEq κ] in
/-- A table is not full while a key is missing. -/
theorem Kept.length_lt (h : Kept keys asked m) (hk : k ∈ keys) (hnew : k ∉ m) :
    m.entries.length < keys.length := by
  have hnodup : (k :: m.keys).Nodup := List.nodup_cons.mpr ⟨hnew, m.keys_nodup⟩
  have hsubset : k :: m.keys ⊆ keys := by
    intro k' hk'
    obtain rfl | hmem := List.mem_cons.mp hk'
    · exact hk
    · exact h.subset ((h.mem_iff k').mp hmem)
  have hle := (List.subperm_of_subset hnodup hsubset).length_le
  rw [List.length_cons, AList.keys, List.keys, List.length_map] at hle
  exact hle

/-- **The source is not asked again**, as long as there are no more keys than the table holds. -/
theorem Kept.ask (h : Kept keys asked m) (hlimit : keys.length ≤ limit + 1) (hk : k ∈ keys)
    (source : κ → ν) :
    Kept keys (if k ∈ m then asked else asked ++ [k]) (ask limit source m k).2 := by
  split_ifs with hknown
  · obtain ⟨v, hv⟩ := Option.isSome_iff_exists.mp (AList.lookup_isSome.mpr hknown)
    rw [ask_of_some hv]
    exact h
  · have hroom : ¬limit < m.entries.length := by
      have hlt := h.length_lt hk hknown
      omega
    rw [ask_of_none (AList.lookup_eq_none.mpr hknown), if_neg hroom]
    have hasked : k ∉ asked := fun hmem => hknown ((h.mem_iff k).mpr hmem)
    refine ⟨?_, fun k' => ?_, ?_⟩
    · exact h.nodup.append (List.nodup_singleton k) (List.disjoint_singleton.mpr hasked)
    · rw [AList.mem_insert, h.mem_iff, List.mem_append, List.mem_singleton]
      exact or_comm
    · exact List.append_subset.mpr ⟨h.subset, List.cons_subset.mpr ⟨hk, List.nil_subset _⟩⟩

end Memo
