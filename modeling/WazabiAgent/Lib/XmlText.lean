import WazabiAgent.Lib.Text

/-!
# The predefined entities of XML

Five characters are written as entities in the text of an XML document. A way to read them is to
replace one entity after the other in the whole text. While ampersands are escaped, an entity stands
where the character was and nowhere else, so each replacement takes one character out of those that
are escaped. After the ampersand has been replaced, what looks like an entity may be one, or four
characters of the text.

## Main definitions

* `XmlText.escape` — the five characters written as entities
* `XmlText.escapeOnly` — some of them

## Main results

* `replace_escapeOnly_of_amp` — replacing while ampersands are escaped
* `replace_escapeOnly` — replacing afterwards
-/

namespace XmlText

open Text

/-- A character as an entity, or as itself. -/
def entity : Char → List Char
  | '&' => ['&', 'a', 'm', 'p', ';']
  | '<' => ['&', 'l', 't', ';']
  | '>' => ['&', 'g', 't', ';']
  | '"' => ['&', 'q', 'u', 'o', 't', ';']
  | '\'' => ['&', 'a', 'p', 'o', 's', ';']
  | c => [c]

/-- The characters that are written as entities. -/
def specials : List Char := ['&', '<', '>', '"', '\'']

/-- A text with its special characters as entities. -/
def escape (s : List Char) : List Char := s.flatMap entity

/-- Only the given characters are escaped. -/
def escapeOnly (chars : List Char) (s : List Char) : List Char :=
  s.flatMap fun c => if c ∈ chars then entity c else [c]

/-- The text of an entity behind its ampersand. -/
def body (c : Char) : List Char := (entity c).tail

theorem entity_eq_cons {c : Char} (hc : c ∈ specials) : entity c = '&' :: body c := by
  simp only [specials, List.mem_cons, List.not_mem_nil, or_false] at hc
  rcases hc with rfl | rfl | rfl | rfl | rfl <;> rfl

theorem entity_of_not_mem {c : Char} (hc : c ∉ specials) : entity c = [c] := by
  simp only [specials, List.mem_cons, List.not_mem_nil, or_false, not_or] at hc
  obtain ⟨hamp, hlt, hgt, hquot, hapos⟩ := hc
  unfold entity
  split <;> simp_all

/-- There is nothing to escape in an entity but its ampersand. -/
theorem not_special_of_mem_body {c d : Char} (hc : c ∈ specials) (hd : d ∈ body c) :
    d ∉ specials := by
  simp only [specials, List.mem_cons, List.not_mem_nil, or_false] at hc
  intro hs
  simp only [specials, List.mem_cons, List.not_mem_nil, or_false] at hs
  rcases hc with rfl | rfl | rfl | rfl | rfl <;> simp [body, entity] at hd <;>
    rcases hs with rfl | rfl | rfl | rfl | rfl <;> simp at hd

theorem entity_ne_nil (c : Char) : entity c ≠ [] := by
  unfold entity
  split <;> exact List.cons_ne_nil _ _

/-- An entity is not the beginning of another. -/
theorem not_entity_prefix {c d : Char} (hc : c ∈ specials) (hd : d ∈ specials) (hne : d ≠ c)
    (rest : List Char) : ¬ entity c <+: entity d ++ rest := by
  simp only [specials, List.mem_cons, List.not_mem_nil, or_false] at hc hd
  rcases hc with rfl | rfl | rfl | rfl | rfl <;> rcases hd with rfl | rfl | rfl | rfl | rfl <;>
    simp [entity] at hne ⊢

theorem escape_eq (s : List Char) : escape s = escapeOnly specials s := by
  rw [escape, escapeOnly]
  refine List.flatMap_congr fun c _ => ?_
  split_ifs with hc
  · rfl
  · exact entity_of_not_mem hc

theorem escapeOnly_nil (s : List Char) : escapeOnly [] s = s := by
  simp [escapeOnly]

theorem escapeOnly_cons_of_mem {chars : List Char} {c : Char} (hc : c ∈ chars) (s : List Char) :
    escapeOnly chars (c :: s) = entity c ++ escapeOnly chars s := by
  rw [escapeOnly, List.flatMap_cons, if_pos hc, escapeOnly]

theorem escapeOnly_cons_of_not_mem {chars : List Char} {c : Char} (hc : c ∉ chars) (s : List Char) :
    escapeOnly chars (c :: s) = c :: escapeOnly chars s := by
  rw [escapeOnly, List.flatMap_cons, if_neg hc, escapeOnly, List.singleton_append]

/-- A text without any of the characters stays as it is. -/
theorem escapeOnly_append {chars u : List Char} (hu : ∀ c ∈ u, c ∉ chars) (s : List Char) :
    escapeOnly chars (u ++ s) = u ++ escapeOnly chars s := by
  induction u with
  | nil => rfl
  | cons c u ih =>
    rw [List.cons_append, escapeOnly_cons_of_not_mem (hu c List.mem_cons_self),
      ih fun d hd => hu d (List.mem_cons_of_mem _ hd), List.cons_append]

/-! ### Replacing an entity -/

section

variable {c : Char} {chars : List Char}

/-- The search passes over an ampersand that does not begin the entity, and what has none. -/
theorem replaceFrom_pass (hc : c ∈ specials) {u : List Char} (hu : '&' ∉ u) (rep s : List Char) :
    replaceFrom (entity c) rep 0 (u ++ s) = u ++ replaceFrom (entity c) rep 0 s := by
  induction u with
  | nil => rfl
  | cons d u ih =>
    have hmiss : ¬ entity c <+: d :: (u ++ s) := by
      intro h
      rw [entity_eq_cons hc] at h
      exact hu ((List.cons_prefix_cons.mp h).1 ▸ List.mem_cons_self)
    rw [List.cons_append, replaceFrom_cons hmiss, ih fun h => hu (List.mem_cons_of_mem _ h),
      List.cons_append]

theorem amp_not_mem_body {d : Char} (hd : d ∈ specials) : '&' ∉ body d := fun h =>
  not_special_of_mem_body hd h (by decide)

/-- The entity of another character is passed over. -/
theorem replaceFrom_entity_of_ne (hc : c ∈ specials) {d : Char} (hd : d ∈ specials) (hne : d ≠ c)
    (rep s : List Char) :
    replaceFrom (entity c) rep 0 (entity d ++ s) = entity d ++ replaceFrom (entity c) rep 0 s := by
  have hmiss := not_entity_prefix hc hd hne s
  rw [entity_eq_cons hd, List.cons_append] at hmiss ⊢
  rw [replaceFrom_cons hmiss, replaceFrom_pass hc (amp_not_mem_body hd), List.cons_append]

/-- An escaped character in front of what is replaced: the entity itself is one, another stays. -/
theorem replace_cons_of_mem (hchars : ∀ d ∈ chars, d ∈ specials) (hc : c ∈ chars) {d : Char}
    (hd : d ∈ chars) {s t : List Char}
    (h : replaceFrom (entity c) [c] 0 (escapeOnly chars s) = escapeOnly (chars.filter (· ≠ c)) t) :
    replaceFrom (entity c) [c] 0 (escapeOnly chars (d :: s))
      = escapeOnly (chars.filter (· ≠ c)) (d :: t) := by
  rw [escapeOnly_cons_of_mem hd]
  by_cases heq : d = c
  · subst heq
    rw [replaceFrom_append (entity_ne_nil d), h, escapeOnly_cons_of_not_mem (by simp),
      List.singleton_append]
  · rw [replaceFrom_entity_of_ne (hchars c hc) (hchars d hd) heq, h,
      escapeOnly_cons_of_mem (List.mem_filter.mpr ⟨hd, by simpa using heq⟩)]

/-- **While ampersands are escaped**, an entity is one. -/
theorem replace_escapeOnly_of_amp (hchars : ∀ d ∈ chars, d ∈ specials) (hamp : '&' ∈ chars)
    (hc : c ∈ chars) (s : List Char) :
    replaceFrom (entity c) [c] 0 (escapeOnly chars s) = escapeOnly (chars.filter (· ≠ c)) s := by
  have hspecial := hchars c hc
  induction s with
  | nil => rfl
  | cons d s ih =>
    by_cases hd : d ∈ chars
    · exact replace_cons_of_mem hchars hc hd ih
    · have hne : '&' ∉ [d] := by
        rw [List.mem_singleton]
        rintro rfl
        exact hd hamp
      have hpass : replaceFrom (entity c) [c] 0 (d :: escapeOnly chars s)
          = d :: replaceFrom (entity c) [c] 0 (escapeOnly chars s) :=
        replaceFrom_pass hspecial hne [c] _
      rw [escapeOnly_cons_of_not_mem hd, hpass, ih,
        escapeOnly_cons_of_not_mem fun h => hd (List.mem_filter.mp h).1]

/-- What has none of the characters is found before they are escaped, if it is found afterwards. -/
theorem prefix_of_prefix_escapeOnly (hchars : ∀ d ∈ chars, d ∈ specials) {u s : List Char}
    (hu : ∀ d ∈ u, d ∉ specials) (h : u <+: escapeOnly chars s) : u <+: s := by
  induction s generalizing u with
  | nil => exact h
  | cons d s ih =>
    cases u with
    | nil => exact List.nil_prefix
    | cons e u =>
      by_cases hd : d ∈ chars
      · rw [escapeOnly_cons_of_mem hd, entity_eq_cons (hchars d hd), List.cons_append] at h
        obtain rfl := (List.cons_prefix_cons.mp h).1
        exact absurd (by decide) (hu '&' List.mem_cons_self)
      · rw [escapeOnly_cons_of_not_mem hd, List.cons_prefix_cons] at h
        exact List.cons_prefix_cons.mpr
          ⟨h.1, ih (fun e he => hu e (List.mem_cons_of_mem _ he)) h.2⟩

/-- **Afterwards**, it is one as well where the text has it. -/
theorem replace_escapeOnly (hchars : ∀ d ∈ chars, d ∈ specials) (hamp : '&' ∉ chars)
    (hc : c ∈ chars) (s : List Char) :
    replaceFrom (entity c) [c] 0 (escapeOnly chars s)
      = escapeOnly (chars.filter (· ≠ c)) (replaceFrom (entity c) [c] 0 s) := by
  have hspecial := hchars c hc
  have hplain : ∀ d ∈ entity c, d ∉ chars := by
    rw [entity_eq_cons hspecial]
    intro d hd hmem
    rcases List.mem_cons.mp hd with rfl | hd
    · exact hamp hmem
    · exact not_special_of_mem_body hspecial hd (hchars d hmem)
  induction s using replace_induction (entity_ne_nil c) with
  | nil => rfl
  | hit s ih =>
    rw [escapeOnly_append hplain, replaceFrom_append (entity_ne_nil c),
      replaceFrom_append (entity_ne_nil c), ih, List.singleton_append, List.singleton_append,
      escapeOnly_cons_of_not_mem (by simp)]
  | miss d s hmiss ih =>
    rw [replaceFrom_cons hmiss]
    by_cases hd : d ∈ chars
    · exact replace_cons_of_mem hchars hc hd ih
    · have hmiss' : ¬ entity c <+: d :: escapeOnly chars s := by
        intro h
        rw [entity_eq_cons hspecial, List.cons_prefix_cons] at h hmiss
        exact hmiss ⟨h.1, prefix_of_prefix_escapeOnly hchars
          (fun e he => not_special_of_mem_body hspecial he) h.2⟩
      rw [escapeOnly_cons_of_not_mem hd, replaceFrom_cons hmiss', ih,
        escapeOnly_cons_of_not_mem fun h => hd (List.mem_filter.mp h).1]

end

/-! ### One entity after the other -/

/-- The replacements for these characters, the first one first. -/
def unescapeAll (chars : List Char) (s : List Char) : List Char :=
  chars.foldl (fun s c => replaceFrom (entity c) [c] 0 s) s

theorem unescapeAll_escapeOnly {chars : List Char} (hchars : ∀ d ∈ chars, d ∈ specials)
    (hnodup : chars.Nodup) (hamp : '&' ∉ chars) (s : List Char) :
    unescapeAll chars (escapeOnly chars s) = unescapeAll chars s := by
  induction chars generalizing s with
  | nil => rw [escapeOnly_nil]
  | cons c chars ih =>
    obtain ⟨hc, hnodup⟩ := List.nodup_cons.mp hnodup
    have hfilter : (c :: chars).filter (· ≠ c) = chars := by
      rw [List.filter_cons_of_neg (by simp), List.filter_eq_self]
      intro d hd
      rw [decide_eq_true_eq]
      rintro rfl
      exact hc hd
    have hstep := replace_escapeOnly hchars hamp List.mem_cons_self s
    rw [hfilter] at hstep
    rw [unescapeAll, List.foldl_cons, hstep]
    exact ih (fun d hd => hchars d (List.mem_cons_of_mem _ hd)) hnodup
      (fun h => hamp (List.mem_cons_of_mem _ h)) _

theorem length_entity {c : Char} (hc : c ∈ specials) : [c].length < (entity c).length := by
  simp only [specials, List.mem_cons, List.not_mem_nil, or_false] at hc
  rcases hc with rfl | rfl | rfl | rfl | rfl <;> decide

theorem length_unescapeAll_le {chars : List Char} (hchars : ∀ d ∈ chars, d ∈ specials)
    (s : List Char) : (unescapeAll chars s).length ≤ s.length := by
  induction chars generalizing s with
  | nil => exact Nat.le_refl _
  | cons c chars ih =>
    have hrest := ih (fun d hd => hchars d (List.mem_cons_of_mem _ hd))
      (replaceFrom (entity c) [c] 0 s)
    have hstep := (length_replaceFrom (length_entity (hchars c List.mem_cons_self)) s).1
    exact Nat.le_trans hrest hstep

/-- The replacements leave a text alone that has none of the entities, and no other. -/
theorem unescapeAll_eq_self_iff {chars : List Char} (hchars : ∀ d ∈ chars, d ∈ specials)
    {s : List Char} : unescapeAll chars s = s ↔ ∀ c ∈ chars, ¬ entity c <:+: s := by
  induction chars with
  | nil => simp [unescapeAll]
  | cons c chars ih =>
    have hlater := fun d hd => hchars d (List.mem_cons_of_mem _ hd)
    by_cases hc : entity c <:+: s
    · refine iff_of_false (fun heq => ?_) fun h => h c List.mem_cons_self hc
      have hstep := (length_replaceFrom (length_entity (hchars c List.mem_cons_self)) s).2 hc
      have hrest := length_unescapeAll_le hlater (replaceFrom (entity c) [c] 0 s)
      have hlen : (unescapeAll (c :: chars) s).length
          = (unescapeAll chars (replaceFrom (entity c) [c] 0 s)).length := rfl
      rw [heq] at hlen
      omega
    · have hkeep : unescapeAll (c :: chars) s = unescapeAll chars s := by
        rw [unescapeAll, List.foldl_cons, replaceFrom_eq_self (entity_ne_nil c) hc]
        rfl
      rw [hkeep, ih hlater, List.forall_mem_cons]
      exact (and_iff_right hc).symm

/-- A character that is in none of the entities keeps what is before and after it apart. -/
theorem unescapeAll_barrier {chars : List Char} {b : Char} (hb : ∀ c ∈ chars, b ∉ entity c)
    (s t : List Char) :
    unescapeAll chars (s ++ b :: t) = unescapeAll chars s ++ b :: unescapeAll chars t := by
  induction chars generalizing s t with
  | nil => rfl
  | cons c chars ih =>
    have hstep : replaceFrom (entity c) [c] 0 (s ++ b :: t)
        = replaceFrom (entity c) [c] 0 s ++ b :: replaceFrom (entity c) [c] 0 t :=
      replaceFrom_barrier (entity_ne_nil c) (hb c List.mem_cons_self) s t
    rw [unescapeAll, List.foldl_cons, hstep]
    exact ih (fun d hd => hb d (List.mem_cons_of_mem _ hd)) _ _

theorem unescapeAll_nil (chars : List Char) : unescapeAll chars [] = [] := by
  induction chars with
  | nil => rfl
  | cons c chars ih => exact ih

theorem unescapeAll_append {chars a : List Char} (ha : ∀ b ∈ a, ∀ c ∈ chars, b ∉ entity c)
    (s : List Char) : unescapeAll chars (a ++ s) = a ++ unescapeAll chars s := by
  induction a with
  | nil => rfl
  | cons b a ih =>
    have hfirst := unescapeAll_barrier (ha b List.mem_cons_self) [] (a ++ s)
    rw [List.nil_append, unescapeAll_nil, List.nil_append] at hfirst
    rw [List.cons_append, hfirst, ih fun d hd => ha d (List.mem_cons_of_mem _ hd),
      List.cons_append]

end XmlText
