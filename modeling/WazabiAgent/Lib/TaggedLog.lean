import Mathlib.Data.List.Basic

/-!
# Streams of one log

Several sources write into one log. Each entry belongs to a source, but it is only the entries
that a reader sees; if what they carry names their sources apart, the reader gets each stream back.

## Main definitions

* `stream` — what one source has written

## Main results

* `filter_entries` — the stream of a source, by what the entries carry
-/

namespace TaggedLog

variable {ι α κ : Type*} [DecidableEq ι]

/-- What the source `i` has written, in order. -/
def stream (i : ι) (log : List (ι × α)) : List α := (log.filter (·.1 = i)).map Prod.snd

theorem stream_append (i : ι) (log log' : List (ι × α)) :
    stream i (log ++ log') = stream i log ++ stream i log' := by
  rw [stream, List.filter_append, List.map_append]
  rfl

theorem stream_concat_self (i : ι) (log : List (ι × α)) (a : α) :
    stream i (log ++ [(i, a)]) = stream i log ++ [a] := by
  rw [stream_append]
  simp [stream]

theorem stream_concat_ne {i j : ι} (h : j ≠ i) (log : List (ι × α)) (a : α) :
    stream i (log ++ [(j, a)]) = stream i log := by
  rw [stream_append]
  simp [stream, h]

theorem stream_eq_nil {i : ι} {log : List (ι × α)} (h : ∀ e ∈ log, e.1 ≠ i) :
    stream i log = [] := by
  rw [stream, List.map_eq_nil_iff, List.filter_eq_nil_iff]
  intro e he
  simpa using h e he

/-- **The stream of a source.** If no source with entries has the name of `i` but `i` itself, the
entries with that name are the stream of `i`. -/
theorem filter_entries [DecidableEq κ] {log : List (ι × α)} {key : α → κ} {name : ι → κ}
    (hkey : ∀ e ∈ log, key e.2 = name e.1) {i : ι}
    (hname : ∀ e ∈ log, name e.1 = name i → e.1 = i) :
    (log.map Prod.snd).filter (fun a => key a = name i) = stream i log := by
  rw [List.filter_map, stream]
  refine congrArg (List.map Prod.snd) (List.filter_congr fun e he => ?_)
  rw [Function.comp_apply, hkey e he, decide_eq_decide]
  exact ⟨hname e he, fun h => by rw [h]⟩

end TaggedLog
