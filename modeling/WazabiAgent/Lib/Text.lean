import Mathlib.Data.List.DropRight

/-!
# Text operations

The operations of `str` that work by searching, on lists of characters: cutting at the first
occurrence of a pattern, replacing every occurrence, trimming, and the numbers of fixed width that
`format!` writes.
-/

namespace Text

/-- `char::is_whitespace`. -/
def isWhitespace (c : Char) : Bool :=
  let n := c.toNat
  (9 ≤ n && n ≤ 13) || n == 32 || n == 0x85 || n == 0xA0 || n == 0x1680 ||
    (0x2000 ≤ n && n ≤ 0x200A) || n == 0x2028 || n == 0x2029 || n == 0x202F || n == 0x205F ||
    n == 0x3000

/-- `s.trim().is_empty()`. -/
def isBlank (s : String) : Bool := s.toList.all isWhitespace

/-- What is before the first occurrence of the pattern, and what is after it. -/
def cutAt (pat : List Char) : List Char → Option (List Char × List Char)
  | [] => if pat = [] then some ([], []) else none
  | c :: cs =>
    if pat.isPrefixOf (c :: cs) then some ([], (c :: cs).drop pat.length)
    else (cutAt pat cs).map fun p => (c :: p.1, p.2)

/-- A cut takes the text apart. -/
theorem eq_of_cutAt {pat s before after : List Char} (h : cutAt pat s = some (before, after)) :
    s = before ++ pat ++ after := by
  induction s generalizing before with
  | nil =>
    simp only [cutAt, Option.ite_none_right_eq_some, Option.some.injEq, Prod.mk.injEq] at h
    obtain ⟨rfl, rfl, rfl⟩ := h
    rfl
  | cons c cs ih =>
    simp only [cutAt] at h
    split_ifs at h with hp
    · obtain ⟨rfl, rfl⟩ := Prod.mk.inj (Option.some.inj h)
      obtain ⟨t, ht⟩ := List.isPrefixOf_iff_prefix.mp hp
      rw [← ht]
      simp
    · obtain ⟨p, hp', hpair⟩ := Option.map_eq_some_iff.mp h
      obtain ⟨rfl, rfl⟩ := Prod.mk.inj hpair
      rw [ih hp']
      rfl

theorem length_lt_of_cutAt {pat s before after : List Char} (hpat : pat ≠ [])
    (h : cutAt pat s = some (before, after)) : after.length < s.length := by
  have hpos := List.length_pos_of_ne_nil hpat
  rw [eq_of_cutAt h]
  simp only [List.length_append]
  omega

/-- Only a pattern that does not occur is not found. -/
theorem cutAt_eq_none_iff {pat s : List Char} (hpat : pat ≠ []) :
    cutAt pat s = none ↔ ¬ pat <:+: s := by
  induction s with
  | nil => simp [cutAt, hpat, List.infix_nil]
  | cons c s ih =>
    rw [cutAt, List.infix_cons_iff, not_or, ← ih]
    by_cases hp : pat <+: c :: s
    · simp [List.isPrefixOf_iff_prefix.mpr hp, hp]
    · simp [mt List.isPrefixOf_iff_prefix.mp hp, hp]

/-- A single character is found wherever it is. -/
theorem cutAt_char_eq_none {c : Char} {s : List Char} : cutAt [c] s = none ↔ c ∉ s := by
  induction s with
  | nil => simp [cutAt]
  | cons d s ih =>
    rw [cutAt, List.mem_cons]
    by_cases hd : c = d
    · subst hd
      simp
    · simp [hd, ih]

/-- The search for the pattern passes over `u`, whatever comes behind it. -/
def Passes (pat u : List Char) : Prop :=
  ∀ s, cutAt pat (u ++ s) = (cutAt pat s).map fun p => (u ++ p.1, p.2)

section

variable {pat u v : List Char}

theorem passes_nil : Passes pat [] := by
  intro s
  simp

theorem Passes.append (hu : Passes pat u) (hv : Passes pat v) : Passes pat (u ++ v) := by
  intro s
  rw [List.append_assoc, hu, hv, Option.map_map]
  congr 1
  funext p
  simp

/-- What does not have the pattern, before a character that only begins it. -/
theorem cutAt_before {c : Char} (hc : c ∉ pat) (h : ¬ c :: pat <:+: u) (s : List Char) :
    cutAt (c :: pat) (u ++ c :: s)
      = (cutAt (c :: pat) (c :: s)).map fun p => (u ++ p.1, p.2) := by
  induction u with
  | nil => simp
  | cons d u ih =>
    rw [List.infix_cons_iff, not_or] at h
    have hmiss : ¬ c :: pat <+: d :: (u ++ c :: s) := by
      intro hp
      obtain ⟨rfl, hrest⟩ := List.cons_prefix_cons.mp hp
      -- the pattern would have to go on over the next beginning of one
      rcases List.prefix_or_prefix_of_prefix hrest (List.prefix_append u _) with hu | ⟨v, hv⟩
      · exact h.1 (List.cons_prefix_cons.mpr ⟨rfl, hu⟩)
      · cases v with
        | nil => exact h.1 (List.cons_prefix_cons.mpr ⟨rfl, ⟨[], by rw [← hv]; simp⟩⟩)
        | cons e v =>
          rw [← hv, List.prefix_append_right_inj] at hrest
          obtain ⟨rfl, -⟩ := List.cons_prefix_cons.mp hrest
          exact hc (hv ▸ List.mem_append_right u List.mem_cons_self)
    rw [List.cons_append, cutAt, if_neg (mt List.isPrefixOf_iff_prefix.mp hmiss), ih h.2,
      Option.map_map]
    rfl

/-- What has not even the first character of the pattern. -/
theorem passes_of_not_mem {c : Char} (h : c ∉ u) : Passes (c :: pat) u := by
  intro s
  induction u with
  | nil => simp
  | cons d u ih =>
    obtain ⟨hd, hu⟩ := not_or.mp fun h' => h (List.mem_cons.mpr h')
    have hmiss : ¬ (c :: pat).isPrefixOf (d :: (u ++ s)) = true := fun hp =>
      hd (List.cons_prefix_cons.mp (List.isPrefixOf_iff_prefix.mp hp)).1
    rw [List.cons_append, cutAt, if_neg hmiss, ih hu, Option.map_map]
    rfl

theorem passes_cons {c : Char} (h : ∀ s, ¬ pat <+: c :: (u ++ s)) (hu : Passes pat u) :
    Passes pat (c :: u) := by
  intro s
  rw [List.cons_append, cutAt, if_neg fun hp => h s (List.isPrefixOf_iff_prefix.mp hp), hu,
    Option.map_map]
  rfl

theorem cutAt_self (hpat : pat ≠ []) (s : List Char) : cutAt pat (pat ++ s) = some ([], s) := by
  obtain ⟨c, pat, rfl⟩ := List.exists_cons_of_ne_nil hpat
  have hprefix : (c :: pat).isPrefixOf (c :: (pat ++ s)) = true :=
    List.isPrefixOf_iff_prefix.mpr (List.prefix_append _ _)
  rw [List.cons_append, cutAt, if_pos hprefix, ← List.cons_append, List.drop_left]

theorem cutAt_first {c : Char} (hc : c ∉ pat) (h : ¬ c :: pat <:+: u) (s : List Char) :
    cutAt (c :: pat) (u ++ (c :: pat ++ s)) = some (u, s) := by
  rw [List.cons_append, cutAt_before hc h, ← List.cons_append, cutAt_self (List.cons_ne_nil c pat)]
  simp

/-- **The first occurrence** is behind what the search passes over. -/
theorem Passes.cutAt_eq (hu : Passes pat u) (hpat : pat ≠ []) (s : List Char) :
    cutAt pat (u ++ (pat ++ s)) = some (u, s) := by
  rw [hu, cutAt_self hpat]
  simp

theorem Passes.cutAt_eq_none (hu : Passes pat u) (hpat : pat ≠ []) : cutAt pat u = none := by
  have h := hu []
  rw [List.append_nil] at h
  rw [h, cutAt, if_neg hpat]
  rfl

end

/-- `str::replace`: the occurrences do not overlap and are found from the left. The first argument
counts the characters of an occurrence that are still to be passed over. -/
def replaceFrom (pat rep : List Char) : ℕ → List Char → List Char
  | _, [] => []
  | skip + 1, _ :: cs => replaceFrom pat rep skip cs
  | 0, c :: cs =>
    if pat.isPrefixOf (c :: cs) then rep ++ replaceFrom pat rep (pat.length - 1) cs
    else c :: replaceFrom pat rep 0 cs

/-- `str::replace`, for a pattern that is not empty. -/
def replace (pat rep : String) (s : List Char) : List Char :=
  replaceFrom pat.toList rep.toList 0 s

/-- `str::trim`, for a notion of white space. -/
def trim (space : Char → Bool) (s : List Char) : List Char :=
  (s.dropWhile space).rdropWhile space

theorem rdropWhile_append {p : Char → Bool} {t : List Char} (h : t.rdropWhile p ≠ [])
    (a : List Char) : (a ++ t).rdropWhile p = a ++ t.rdropWhile p := by
  have hsome : ¬ (t.reverse.dropWhile p).isEmpty = true := by
    rwa [List.isEmpty_iff, ← List.reverse_eq_nil_iff]
  rw [List.rdropWhile, List.rdropWhile, List.reverse_append, List.dropWhile_append, if_neg hsome,
    List.reverse_append, List.reverse_reverse]

/-- Around a character that is not white space, both ends are trimmed by themselves. -/
theorem trim_around {space : Char → Bool} {b : Char} (hb : space b = false) (u t : List Char) :
    trim space (u ++ b :: t) = u.dropWhile space ++ b :: t.rdropWhile space := by
  have hleft : (u ++ b :: t).dropWhile space = u.dropWhile space ++ b :: t := by
    rw [List.dropWhile_append]
    split_ifs with hu
    · rw [List.isEmpty_iff.mp hu, List.dropWhile_cons_of_neg (by simp [hb])]
      rfl
    · rfl
  have hright : (b :: t).rdropWhile space = b :: t.rdropWhile space := by
    by_cases ht : t.rdropWhile space = []
    · have hall := List.rdropWhile_eq_nil_iff.mp ht
      rw [ht, ← List.singleton_append, List.rdropWhile, List.reverse_append,
        List.dropWhile_append_of_pos fun c hc => hall c (List.mem_reverse.mp hc)]
      simp [hb]
    · exact rdropWhile_append ht [b]
  rw [trim, hleft, rdropWhile_append (by rw [hright]; exact List.cons_ne_nil _ _), hright]

/-- Without white space there is nothing to trim. -/
theorem trim_eq_self {space : Char → Bool} {s : List Char} (h : ∀ c ∈ s, space c = false) :
    trim space s = s := by
  have hleft : s.dropWhile space = s := by
    rw [List.dropWhile_eq_self_iff]
    exact fun hs => by simp [h]
  rw [trim, hleft, List.rdropWhile_eq_self_iff]
  exact fun hs => by simp [h]

/-- What trimming takes away in front. -/
theorem exists_rdropWhile_eq (space : Char → Bool) (t : List Char) :
    ∃ a, (∀ c ∈ a, space c = true) ∧ t.rdropWhile space = a ++ trim space t := by
  have ht : t.takeWhile space ++ t.dropWhile space = t := List.takeWhile_append_dropWhile
  by_cases hblank : (t.dropWhile space).rdropWhile space = []
  · refine ⟨[], by simp, ?_⟩
    rw [trim, hblank, List.append_nil, List.rdropWhile_eq_nil_iff]
    intro c hc
    rw [← ht] at hc
    rcases List.mem_append.mp hc with hc | hc
    · exact List.mem_takeWhile_imp hc
    · exact List.rdropWhile_eq_nil_iff.mp hblank c hc
  · refine ⟨t.takeWhile space, fun c hc => List.mem_takeWhile_imp hc, ?_⟩
    rw [trim, ← rdropWhile_append hblank, ht]

/-- A number with at least so many digits. -/
def padded (width n : ℕ) : String := String.ofList (List.leftpad width '0' (toString n).toList)

/-! ### Replacing -/

section

variable {pat rep : List Char}

theorem replaceFrom_skip (k : ℕ) (s : List Char) :
    replaceFrom pat rep k s = replaceFrom pat rep 0 (s.drop k) := by
  induction k generalizing s with
  | zero => rfl
  | succ k ih =>
    cases s with
    | nil => rfl
    | cons c s => exact ih s

theorem replaceFrom_append (hpat : pat ≠ []) (s : List Char) :
    replaceFrom pat rep 0 (pat ++ s) = rep ++ replaceFrom pat rep 0 s := by
  obtain ⟨c, pat, rfl⟩ := List.exists_cons_of_ne_nil hpat
  have hprefix : (c :: pat).isPrefixOf (c :: (pat ++ s)) = true :=
    List.isPrefixOf_iff_prefix.mpr (List.prefix_append _ _)
  rw [List.cons_append, replaceFrom, if_pos hprefix, replaceFrom_skip, List.length_cons,
    Nat.add_sub_cancel, List.drop_left]

theorem replaceFrom_cons {c : Char} {s : List Char} (h : ¬ pat <+: c :: s) :
    replaceFrom pat rep 0 (c :: s) = c :: replaceFrom pat rep 0 s := by
  rw [replaceFrom, if_neg fun hp => h (List.isPrefixOf_iff_prefix.mp hp)]

/-- A text, as the search takes it apart. -/
theorem replace_induction (hpat : pat ≠ []) {motive : List Char → Prop} (nil : motive [])
    (hit : ∀ s, motive s → motive (pat ++ s))
    (miss : ∀ c s, ¬ pat <+: c :: s → motive s → motive (c :: s)) (s : List Char) : motive s := by
  have hlen := List.length_pos_of_ne_nil hpat
  induction hn : s.length using Nat.strongRecOn generalizing s with
  | ind n ih =>
    subst hn
    by_cases h : pat <+: s
    · obtain ⟨t, rfl⟩ := h
      exact hit t (ih t.length (by rw [List.length_append]; omega) t rfl)
    · cases s with
      | nil => exact nil
      | cons c s => exact miss c s h (ih s.length (by rw [List.length_cons]; omega) s rfl)

theorem infix_cons_of_miss {c : Char} {s : List Char} (h : ¬ pat <+: c :: s) :
    pat <:+: c :: s ↔ pat <:+: s := by
  rw [List.infix_cons_iff]
  exact or_iff_right h

theorem replaceFrom_eq_self (hpat : pat ≠ []) {s : List Char} (h : ¬ pat <:+: s) :
    replaceFrom pat rep 0 s = s := by
  induction s using replace_induction hpat with
  | nil => rfl
  | hit s _ => exact absurd (List.prefix_append pat s).isInfix h
  | miss c s hmiss ih =>
    rw [replaceFrom_cons hmiss, ih fun hs => h (List.infix_cons_iff.mpr (.inr hs))]

/-- Where an occurrence is replaced by less, the text gets shorter. -/
theorem length_replaceFrom (hrep : rep.length < pat.length) (s : List Char) :
    (replaceFrom pat rep 0 s).length ≤ s.length ∧
      (pat <:+: s → (replaceFrom pat rep 0 s).length < s.length) := by
  have hpat : pat ≠ [] := List.ne_nil_of_length_pos (by omega)
  induction s using replace_induction hpat with
  | nil => exact ⟨Nat.le_refl _, fun h => absurd (List.eq_nil_of_infix_nil h) hpat⟩
  | hit s ih =>
    rw [replaceFrom_append hpat, List.length_append, List.length_append]
    exact ⟨by omega, fun _ => by omega⟩
  | miss c s hmiss ih =>
    rw [replaceFrom_cons hmiss, infix_cons_of_miss hmiss, List.length_cons,
      List.length_cons]
    exact ⟨by omega, fun h => by have := ih.2 h; omega⟩

/-- A character that is not in the pattern keeps what is before and after it apart. -/
theorem replaceFrom_barrier (hpat : pat ≠ []) {b : Char} (hb : b ∉ pat) (s t : List Char) :
    replaceFrom pat rep 0 (s ++ b :: t)
      = replaceFrom pat rep 0 s ++ b :: replaceFrom pat rep 0 t := by
  have apart {s : List Char} (h : pat <+: s ++ b :: t) : pat <+: s := by
    rcases List.prefix_or_prefix_of_prefix h (List.prefix_append s _) with hs | ⟨u, hu⟩
    · exact hs
    · cases u with
      | nil => exact ⟨[], by rw [← hu, List.append_nil, List.append_nil]⟩
      | cons d u =>
        rw [← hu, List.prefix_append_right_inj] at h
        obtain rfl := (List.cons_prefix_cons.mp h).1
        exact absurd (hu ▸ List.mem_append_right s List.mem_cons_self) hb
  induction s using replace_induction hpat with
  | nil =>
    refine replaceFrom_cons fun h => ?_
    obtain ⟨c, pat, rfl⟩ := List.exists_cons_of_ne_nil hpat
    exact hb ((List.cons_prefix_cons.mp h).1 ▸ List.mem_cons_self)
  | hit s ih =>
    rw [List.append_assoc, replaceFrom_append hpat, replaceFrom_append hpat, ih, List.append_assoc]
  | miss c s hmiss ih =>
    have hmiss' : ¬ pat <+: c :: (s ++ b :: t) := fun h => hmiss (apart h)
    rw [List.cons_append, replaceFrom_cons hmiss', ih, replaceFrom_cons hmiss, List.cons_append]

end

example : replace "&amp;" "&" "a&amp;amp;b".toList = "a&amp;b".toList := by decide

end Text
