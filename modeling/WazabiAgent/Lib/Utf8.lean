import Mathlib.Data.List.Infix
import Mathlib.Data.String.Basic

/-!
# Text cut at a byte

`&s[..n]` takes the first `n` bytes of a text. A text is a sequence of whole characters, so the cut
has to fall between two of them, and off such a boundary the program panics. Here a text is the list
of its characters, each of which has a size in bytes, and a cut that would panic has no value.

## Main definitions

* `Utf8.takeBytes`, `Utf8.dropBytes`, `Utf8.sliceTo` — the cut
* `Utf8.truncate` — a text cut down to a limit, with the flag that says so

## Main results

* `takeBytes_eq_some_iff` — what a cut returns
* `isSome_sliceTo_iff` — the cut is defined exactly at the positions that are valid in the string
-/

namespace Utf8

open String (utf8Len)

/-- The characters that make up the first `n` bytes. -/
def takeBytes : ℕ → List Char → Option (List Char)
  | 0, _ => some []
  | _ + 1, [] => none
  | n + 1, c :: cs =>
    if c.utf8Size ≤ n + 1 then (takeBytes (n + 1 - c.utf8Size) cs).map (c :: ·) else none

/-- `&s[..n]`. -/
def sliceTo (n : ℕ) (s : String) : Option String := (takeBytes n s.toList).map String.ofList

/-- The text, or its first bytes where it is longer than the limit. -/
def truncate (limit : ℕ) (s : String) : Option (String × Bool) :=
  if limit < s.utf8ByteSize then (sliceTo limit s).map fun cut => (cut, true)
  else some (s, false)

theorem utf8ByteSize_eq (s : String) : s.utf8ByteSize = utf8Len s.toList := by
  rw [← String.utf8ByteSize_ofList, String.ofList_toList]

theorem utf8Len_replicate {c : Char} (h : c.utf8Size = 1) (n : ℕ) :
    utf8Len (List.replicate n c) = n := by
  induction n with
  | zero => rfl
  | succ n ih => rw [List.replicate_succ, String.utf8Len_cons, ih, h]

/-! ### Cuts -/

/-- A cut is a part of the text with that many bytes. -/
theorem takeBytes_eq_some_iff {n : ℕ} {cs cut : List Char} :
    takeBytes n cs = some cut ↔ cut <+: cs ∧ utf8Len cut = n := by
  induction cs generalizing n cut with
  | nil =>
    cases n with
    | zero =>
      simp only [takeBytes, Option.some.injEq, List.prefix_nil, String.utf8Len_eq_zero, and_self]
      exact eq_comm
    | succ n =>
      simp only [takeBytes, List.prefix_nil, reduceCtorEq, false_iff, not_and]
      rintro rfl
      simp
  | cons c cs ih =>
    have hpos : 0 < c.utf8Size := Char.utf8Size_pos c
    cases n with
    | zero =>
      simp only [takeBytes, Option.some.injEq, String.utf8Len_eq_zero]
      constructor
      · rintro rfl
        exact ⟨List.nil_prefix, rfl⟩
      · exact fun h => h.2.symm
    | succ n =>
      simp only [takeBytes, Option.ite_none_right_eq_some, Option.map_eq_some_iff, ih]
      constructor
      · rintro ⟨hle, rest, ⟨hrest, hlen⟩, rfl⟩
        refine ⟨List.cons_prefix_cons.mpr ⟨rfl, hrest⟩, ?_⟩
        rw [String.utf8Len_cons, hlen]
        omega
      · rintro ⟨hpre, hlen⟩
        cases cut with
        | nil => simp at hlen
        | cons d cut =>
          obtain ⟨rfl, hcut⟩ := List.cons_prefix_cons.mp hpre
          simp only [String.utf8Len_cons] at hlen
          exact ⟨by omega, cut, ⟨hcut, by omega⟩, rfl⟩

theorem takeBytes_append (pre cs : List Char) (n : ℕ) :
    takeBytes (utf8Len pre + n) (pre ++ cs) = (takeBytes n cs).map (pre ++ ·) := by
  refine Option.ext fun cut => ?_
  simp only [Option.map_eq_some_iff, takeBytes_eq_some_iff]
  constructor
  · rintro ⟨hpre, hlen⟩
    obtain ⟨rest, rfl⟩ : pre <+: cut := by
      refine List.prefix_of_prefix_length_le (List.prefix_append pre cs) hpre ?_
      by_contra hshort
      -- a shorter cut would be a part of `pre` that has too many bytes
      obtain ⟨more, rfl⟩ := List.prefix_of_prefix_length_le hpre (List.prefix_append pre cs)
        (by omega)
      cases more with
      | nil => simp at hshort
      | cons c more =>
        have hpos : 0 < c.utf8Size := Char.utf8Size_pos c
        simp only [String.utf8Len_append, String.utf8Len_cons] at hlen
        omega
    refine ⟨rest, ⟨(List.prefix_append_right_inj pre).mp hpre, ?_⟩, rfl⟩
    rw [String.utf8Len_append] at hlen
    omega
  · rintro ⟨rest, ⟨hrest, rfl⟩, rfl⟩
    exact ⟨(List.prefix_append_right_inj pre).mpr hrest, String.utf8Len_append pre rest⟩

/-- `&s[n..]`, on characters. -/
def dropBytes : ℕ → List Char → Option (List Char)
  | 0, cs => some cs
  | _ + 1, [] => none
  | n + 1, c :: cs => if c.utf8Size ≤ n + 1 then dropBytes (n + 1 - c.utf8Size) cs else none

theorem dropBytes_append (pre cs : List Char) (n : ℕ) :
    dropBytes (utf8Len pre + n) (pre ++ cs) = dropBytes n cs := by
  induction pre with
  | nil => simp
  | cons c pre ih =>
    have hpos : 0 < c.utf8Size := Char.utf8Size_pos c
    obtain ⟨m, hm⟩ : ∃ m, utf8Len (c :: pre) + n = m + 1 :=
      ⟨utf8Len (c :: pre) + n - 1, by rw [String.utf8Len_cons]; omega⟩
    have hrest : m + 1 - c.utf8Size = utf8Len pre + n := by
      rw [← hm, String.utf8Len_cons]
      omega
    rw [hm, List.cons_append, dropBytes, if_pos (by rw [String.utf8Len_cons] at hm; omega), hrest,
      ih]

/-- A cut behind a part of the text. -/
theorem dropBytes_utf8Len (pre cs : List Char) : dropBytes (utf8Len pre) (pre ++ cs) = some cs := by
  simpa [dropBytes] using dropBytes_append pre cs 0

theorem takeBytes_utf8Len (pre cs : List Char) :
    takeBytes (utf8Len pre) (pre ++ cs) = some pre :=
  takeBytes_eq_some_iff.mpr ⟨List.prefix_append pre cs, rfl⟩

theorem sliceTo_eq_some_iff {n : ℕ} {s cut : String} :
    sliceTo n s = some cut ↔ cut.toList <+: s.toList ∧ cut.utf8ByteSize = n := by
  rw [sliceTo, Option.map_eq_some_iff, utf8ByteSize_eq]
  constructor
  · rintro ⟨cs, hcs, rfl⟩
    rw [String.toList_ofList]
    exact takeBytes_eq_some_iff.mp hcs
  · intro h
    exact ⟨cut.toList, takeBytes_eq_some_iff.mpr h, String.ofList_toList⟩

theorem isSome_sliceTo_iff {n : ℕ} {s : String} :
    (sliceTo n s).isSome = true ↔ (String.Pos.Raw.mk n).IsValid s := by
  rw [Option.isSome_iff_exists, String.Pos.Raw.isValid_iff_exists_append]
  constructor
  · rintro ⟨cut, hcut⟩
    obtain ⟨⟨rest, hrest⟩, hsize⟩ := sliceTo_eq_some_iff.mp hcut
    refine ⟨cut, String.ofList rest, ?_, ?_⟩
    · rw [← String.toList_inj, String.toList_append, String.toList_ofList, hrest]
    · rw [String.Pos.Raw.ext_iff, String.byteIdx_rawEndPos, hsize]
  · rintro ⟨cut, rest, rfl, hsize⟩
    refine ⟨cut, sliceTo_eq_some_iff.mpr ⟨?_, ?_⟩⟩
    · rw [String.toList_append]
      exact List.prefix_append _ _
    · rw [String.Pos.Raw.ext_iff, String.byteIdx_rawEndPos] at hsize
      exact hsize.symm

/-! ### Truncation -/

/-- The limit leaves the text whole, or falls between two of its characters. -/
def Fits (limit : ℕ) (s : String) : Prop :=
  s.utf8ByteSize ≤ limit ∨ (String.Pos.Raw.mk limit).IsValid s

theorem isSome_truncate_iff {limit : ℕ} {s : String} :
    (truncate limit s).isSome = true ↔ Fits limit s := by
  rw [truncate, Fits]
  split_ifs with h
  · rw [Option.isSome_map, isSome_sliceTo_iff]
    exact ⟨.inr, fun hfits => hfits.resolve_left (by omega)⟩
  · exact iff_of_true rfl (.inl (by omega))

/-- What a truncation returns. -/
theorem truncate_eq_some {limit : ℕ} {s cut : String} {truncated : Bool}
    (h : truncate limit s = some (cut, truncated)) :
    cut.toList <+: s.toList ∧ cut.utf8ByteSize ≤ limit ∧
      truncated = decide (limit < s.utf8ByteSize) := by
  rw [truncate] at h
  split_ifs at h with hlong
  · obtain ⟨cut', hcut, hpair⟩ := Option.map_eq_some_iff.mp h
    obtain ⟨rfl, rfl⟩ := Prod.mk.inj hpair
    obtain ⟨hpre, hsize⟩ := sliceTo_eq_some_iff.mp hcut
    exact ⟨hpre, by omega, by simpa using hlong⟩
  · obtain ⟨rfl, rfl⟩ := Prod.mk.inj (Option.some.inj h)
    exact ⟨List.prefix_rfl, by omega, by simpa using hlong⟩

end Utf8
