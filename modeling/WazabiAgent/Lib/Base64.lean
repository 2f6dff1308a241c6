import Mathlib.Algebra.Ring.Nat
import Mathlib.Data.List.Chain
import Mathlib.Tactic.SplitIfs

/-!
# Base64

The encoding with the standard alphabet and with padding: three bytes are written as four symbols of
six bits each, and what is left behind the last three as two or three symbols, which padding fills
up to four.

## Main definitions

* `Base64.encode` — the encoding
* `Base64.Standard` — the texts with padding, by the number of bytes that they are of
* `Base64.PaddingLast` — nothing but padding is behind padding

## Main results

* `standard_iff` — the texts with padding, character by character
-/

namespace Base64

/-! ### The alphabet -/

/-- The symbol of six bits. -/
def symbol (n : ℕ) : UInt8 :=
  UInt8.ofNat (if n < 26 then n + 65 else if n < 52 then n + 71 else if n < 62 then n - 4
    else if n = 62 then 43 else 47)

/-- The padding sign. -/
def padding : UInt8 := 61

/-- The 64 symbols in order. -/
def symbols : List UInt8 := (List.range 64).map symbol

example : symbols
    = "ABCDEFGHIJKLMNOPQRSTUVWXYZabcdefghijklmnopqrstuvwxyz0123456789+/".toUTF8.toList := by
  decide +kernel

theorem symbol_mem {n : ℕ} (h : n < 64) : symbol n ∈ symbols :=
  List.mem_map_of_mem (List.mem_range.mpr h)

theorem padding_not_mem : padding ∉ symbols := by decide +kernel

/-! ### Encoding -/

/-- Three bytes in four symbols, with padding at the end. -/
def encode : List UInt8 → List UInt8
  | [] => []
  | [a] =>
    let n := 16 * a.toNat
    [symbol (n / 64), symbol (n % 64), padding, padding]
  | [a, b] =>
    let n := 1024 * a.toNat + 4 * b.toNat
    [symbol (n / 4096), symbol (n / 64 % 64), symbol (n % 64), padding]
  | a :: b :: c :: rest =>
    let n := 65536 * a.toNat + 256 * b.toNat + c.toNat
    symbol (n / 262144) :: symbol (n / 4096 % 64) :: symbol (n / 64 % 64) :: symbol (n % 64) ::
      encode rest

theorem length_encode_mod (bytes : List UInt8) : (encode bytes).length % 4 = 0 := by
  induction bytes using encode.induct with
  | case1 => rfl
  | case2 a => simp [encode]
  | case3 a b => simp [encode]
  | case4 a b c rest ih =>
    rw [encode]
    simp only [List.length_cons]
    omega

/-- `Many hands`, `Many hand` and `Many han`. -/
example : encode "Many hands".toUTF8.toList = "TWFueSBoYW5kcw==".toUTF8.toList ∧
    encode "Many hand".toUTF8.toList = "TWFueSBoYW5k".toUTF8.toList ∧
    encode "Many han".toUTF8.toList = "TWFueSBoYW4=".toUTF8.toList := by
  decide +kernel

/-! ### Texts with padding -/

/-- A text of whole groups, of which the last one or two characters may be padding, and which is of
this number of bytes. -/
def Standard (cs : List UInt8) (n : ℕ) : Prop :=
  ∃ body pad, cs = body ++ List.replicate pad padding ∧ (∀ c ∈ body, c ∈ symbols) ∧ pad ≤ 2 ∧
    cs.length % 4 = 0 ∧ n + pad = 3 * (cs.length / 4)

/-- Nothing but padding is behind padding. -/
def PaddingLast (cs : List UInt8) : Prop := cs.IsChain fun a b => a = padding → b = padding

instance : DecidablePred PaddingLast := fun cs =>
  inferInstanceAs (Decidable (cs.IsChain fun a b => a = padding → b = padding))

variable {cs body : List UInt8} {n pad : ℕ}

theorem count_body (h : ∀ c ∈ body, c ∈ symbols) :
    (body ++ List.replicate pad padding).count padding = pad := by
  have hbody : body.count padding = 0 :=
    List.count_eq_zero.mpr fun hmem => padding_not_mem (h _ hmem)
  rw [List.count_append, hbody, List.count_replicate_self, Nat.zero_add]

theorem paddingLast_replicate (pad : ℕ) : PaddingLast (List.replicate pad padding) :=
  List.isChain_replicate_of_rel pad fun _ => rfl

theorem paddingLast_append (h : ∀ c ∈ body, c ∈ symbols) :
    PaddingLast (body ++ List.replicate pad padding) := by
  induction body with
  | nil => exact paddingLast_replicate pad
  | cons c body ih =>
    have hc : c ≠ padding := fun heq => padding_not_mem (heq ▸ h c List.mem_cons_self)
    refine List.isChain_cons.mpr ⟨fun _ _ heq => absurd heq hc, ?_⟩
    exact ih fun d hd => h d (List.mem_cons_of_mem c hd)

/-- A text where nothing else is behind padding. -/
theorem exists_body (hchars : ∀ c ∈ cs, c ∈ symbols ∨ c = padding) (h : PaddingLast cs) :
    ∃ body pad, cs = body ++ List.replicate pad padding ∧ ∀ c ∈ body, c ∈ symbols := by
  induction cs with
  | nil => exact ⟨[], 0, rfl, fun c hc => absurd hc List.not_mem_nil⟩
  | cons c cs ih =>
    obtain ⟨hnext, htail⟩ := List.isChain_cons.mp h
    obtain ⟨body, pad, rfl, hbody⟩ := ih (fun d hd => hchars d (List.mem_cons_of_mem c hd)) htail
    rcases hchars c List.mem_cons_self with hc | rfl
    · refine ⟨c :: body, pad, rfl, ?_⟩
      rintro d (_ | ⟨_, hd⟩)
      · exact hc
      · exact hbody d hd
    · cases body with
      | nil => exact ⟨[], pad + 1, rfl, hbody⟩
      | cons d body =>
        have hd : d = padding := hnext d rfl rfl
        exact absurd (hbody d List.mem_cons_self) (hd ▸ padding_not_mem)

/-- The texts with padding, character by character. -/
theorem standard_iff : Standard cs n ↔
    (∀ c ∈ cs, c ∈ symbols ∨ c = padding) ∧ cs.length % 4 = 0 ∧ PaddingLast cs ∧
      cs.count padding ≤ 2 ∧ n + cs.count padding = 3 * (cs.length / 4) := by
  constructor
  · rintro ⟨body, pad, rfl, hbody, hpad, hwhole, hlen⟩
    rw [count_body hbody]
    refine ⟨fun c hc => ?_, hwhole, paddingLast_append hbody, hpad, hlen⟩
    rcases List.mem_append.mp hc with hc | hc
    · exact .inl (hbody c hc)
    · exact .inr (List.eq_of_mem_replicate hc)
  · rintro ⟨hchars, hwhole, hlast, hcount, hlen⟩
    obtain ⟨body, pad, rfl, hbody⟩ := exists_body hchars hlast
    rw [count_body hbody] at hcount hlen
    exact ⟨body, pad, rfl, hbody, hcount, hwhole, hlen⟩

end Base64
