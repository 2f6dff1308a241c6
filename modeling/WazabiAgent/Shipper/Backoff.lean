import Mathlib.Algebra.Ring.Int.Defs
import Mathlib.Algebra.Ring.Nat
import Mathlib.Tactic.SplitIfs
import WazabiAgent.Shipper.Run

/-!
# The back-off of the shipper

`next_backoff` doubles the time to wait up to a maximum, and moves it by up to a quarter up or down.
The arithmetic is on machine integers of both signs; `nextBackoffChecked` is the function with every
operation and every cast checked.

Between two successes the time to wait grows by half with each failure, until it is three quarters
of the maximum.

## Main definitions

* `nextBackoffChecked` — the function, `none` where an operation or a cast leaves its type
* `retries`, `noSuccess` — what a run of the shipper meets

## Main results

* `nextBackoff_millis` — the function in milliseconds
* `backoff_in_envelope` — its bounds, and those of the runs
-/

namespace WazabiAgent

namespace Shipper

open LabelledStep

/-! ### With checks -/

/-- `Duration * u32`. A duration has its seconds in 64 bits. -/
def durationMul (d k : ℕ) : Option ℕ := if d * k < 2 ^ 64 * 10 ^ 9 then some (d * k) else none

/-- `as u64`, where it keeps the number. -/
def exactU64 (n : ℕ) : Option UInt64 := if n < 2 ^ 64 then some (UInt64.ofNat n) else none

/-- `as i64`, where it keeps the number. -/
def exactI64 (x : UInt64) : Option Int := if x.toNat < 2 ^ 63 then some x.toNat else none

/-- The remainder, unless the divisor is zero. -/
def checkedRem (a b : UInt64) : Option UInt64 := if b = 0 then none else some (a % b)

/-- The result of an operation on `i64`. -/
def checkedI64 (i : Int) : Option Int := if -2 ^ 63 ≤ i ∧ i < 2 ^ 63 then some i else none

/-- The next waiting time before its jitter; `none` is an overflow. -/
def backoffBase (curr max : ℕ) : Option ℕ :=
  if curr = 0 then some 1000000000 else (durationMul curr 2).map fun doubled => min doubled max

/-- The jitter, and the sum or the difference. -/
def jittered (ms seed : UInt64) : Option Int :=
  (checkedRem seed (ms / 2)).bind fun rem =>
  (exactI64 rem).bind fun jitter =>
  (exactI64 ms).bind fun ms =>
  checkedI64 (if seed &&& 1 = 0 then ms + jitter / 2 else ms - jitter / 2)

/-- `next_backoff`. -/
def nextBackoffChecked (curr max : ℕ) (nanos : UInt64) : Option ℕ :=
  (backoffBase curr max).bind fun base =>
  (exactU64 (base / 1000000)).bind fun ms =>
  if ms < 4 then some base
  else (jittered ms (xorshift (nanos ||| 1))).map fun signed =>
    min ((Max.max signed 1).toNat * 1000000) max

/-! ### In milliseconds -/

theorem toInt_toInt64 {x : UInt64} (h : x.toNat < 2 ^ 63) : x.toInt64.toInt = x.toNat := by
  have hlt : 2 * x.toBitVec.toNat < 2 ^ 64 := by
    rw [UInt64.toNat_toBitVec]
    omega
  exact BitVec.toInt_eq_toNat_of_lt hlt

variable {c m : ℕ}

/-- What the time to wait is varied around. -/
def baseMillis (c m : ℕ) : ℕ := if c = 0 then 1000 else min (2 * c) m

theorem base_millis (c m : ℕ) :
    (if c * 1000000 = 0 then 1000000000 else min (c * 1000000 * 2) (m * 1000000))
      = baseMillis c m * 1000000 := by
  rw [baseMillis]
  by_cases hc : c = 0
  · rw [if_pos (by omega), if_pos hc]
  · rw [if_neg (by omega), if_neg hc]
    omega

theorem backoffBase_millis (hhigh : m ≤ 2 ^ 60) (hcurr : c ≤ m) :
    backoffBase (c * 1000000) (m * 1000000) = some (baseMillis c m * 1000000) := by
  rw [← base_millis, backoffBase]
  split_ifs
  · rfl
  · rw [durationMul, if_pos (by omega)]
    rfl

theorem baseMillis_bounds (hlow : 1000 ≤ m) : 0 < baseMillis c m ∧ baseMillis c m ≤ m := by
  rw [baseMillis]
  split_ifs
  · omega
  · omega

/-- The time to wait before it is capped, from the base and the seed. -/
def signedMillis (ms seed : UInt64) : Int :=
  let jitter := (seed % (ms / 2)).toInt64.toInt
  if seed &&& 1 = 0 then ms.toInt64.toInt + jitter / 2 else ms.toInt64.toInt - jitter / 2

/-- A quarter is added or taken away at most, and no operation leaves its type. -/
theorem jittered_millis (ms : UInt64) (hlow : 4 ≤ ms.toNat) (hhigh : ms.toNat ≤ 2 ^ 60)
    (seed : UInt64) : jittered ms seed = some (signedMillis ms seed) ∧
      ∃ k : ℕ, 4 * k ≤ ms.toNat ∧
        (signedMillis ms seed = ms.toNat + k ∨ signedMillis ms seed = ms.toNat - k) := by
  have hhalf : (ms / 2).toNat = ms.toNat / 2 := UInt64.toNat_div ms 2
  have hne : ms / 2 ≠ 0 := by
    intro hzero
    rw [hzero, UInt64.toNat_zero] at hhalf
    omega
  have hrem : (seed % (ms / 2)).toNat < ms.toNat / 2 := by
    rw [UInt64.toNat_mod, hhalf]
    exact Nat.mod_lt _ (by omega)
  have hms : ms.toInt64.toInt = ms.toNat := toInt_toInt64 (by omega)
  have hjitter : (seed % (ms / 2)).toInt64.toInt = (seed % (ms / 2)).toNat :=
    toInt_toInt64 (by omega)
  have hsigned : signedMillis ms seed = if seed &&& 1 = 0
      then (ms.toNat : Int) + ((seed % (ms / 2)).toNat : Int) / 2
      else (ms.toNat : Int) - ((seed % (ms / 2)).toNat : Int) / 2 := by
    rw [signedMillis, hms, hjitter]
  have hk : ∃ k : ℕ, 4 * k ≤ ms.toNat ∧
      (signedMillis ms seed = ms.toNat + k ∨ signedMillis ms seed = ms.toNat - k) := by
    refine ⟨(seed % (ms / 2)).toNat / 2, by omega, ?_⟩
    rw [hsigned]
    split_ifs
    · exact .inl (by omega)
    · exact .inr (by omega)
  refine ⟨?_, hk⟩
  obtain ⟨k, hk, hvalue⟩ := hk
  have hrange : -2 ^ 63 ≤ signedMillis ms seed ∧ signedMillis ms seed < 2 ^ 63 := by
    rcases hvalue with hvalue | hvalue
    · rw [hvalue]
      omega
    · rw [hvalue]
      omega
  rw [jittered, checkedRem, if_neg hne, Option.bind_some, exactI64, if_pos (by omega),
    Option.bind_some, exactI64, if_pos (by omega), Option.bind_some, ← hsigned, checkedI64,
    if_pos hrange]

/-- The function in milliseconds: no check fails, and what is returned is positive, no more than the
maximum, and no more than a quarter away from the base unless the maximum is in between. -/
theorem nextBackoff_millis (hlow : 1000 ≤ m) (hhigh : m ≤ 2 ^ 60) (hcurr : c ≤ m)
    (nanos : UInt64) : ∃ r : ℕ,
      nextBackoff (c * 1000000) (m * 1000000) nanos = r * 1000000 ∧
      nextBackoffChecked (c * 1000000) (m * 1000000) nanos = some (r * 1000000) ∧
      0 < r ∧ r ≤ m ∧ 4 * r ≤ 5 * baseMillis c m ∧ (m ≤ r ∨ 3 * baseMillis c m ≤ 4 * r) := by
  obtain ⟨hpos, hmax⟩ := baseMillis_bounds (c := c) hlow
  rw [nextBackoffChecked, backoffBase_millis hhigh hcurr, Option.bind_some]
  unfold nextBackoff
  rw [base_millis]
  generalize baseMillis c m = B at hpos hmax
  have hdiv : B * 1000000 / 1000000 = B := Nat.mul_div_cancel B (by decide)
  have hms : (UInt64.ofNat B).toNat = B := UInt64.toNat_ofNat_of_lt' (by
    rw [UInt64.size]
    omega)
  have hsmall : UInt64.ofNat B < 4 ↔ B < 4 := by
    rw [UInt64.lt_iff_toNat_lt, hms]
    rfl
  dsimp only
  have hlt : B < 2 ^ 64 := by omega
  rw [hdiv, exactU64, if_pos hlt, Option.bind_some]
  by_cases hB : B < 4
  · rw [if_pos (hsmall.mpr hB), if_pos (hsmall.mpr hB)]
    exact ⟨B, rfl, rfl, hpos, hmax, by omega, by omega⟩
  · rw [if_neg (mt hsmall.mp hB), if_neg (mt hsmall.mp hB)]
    obtain ⟨hchecked, k, hk, hvalue⟩ :=
      jittered_millis (UInt64.ofNat B) (by omega) (by omega) (xorshift (nanos ||| 1))
    rw [hchecked, Option.map_some]
    rw [hms] at hk hvalue
    have hcap : min ((Max.max (signedMillis (UInt64.ofNat B) (xorshift (nanos ||| 1))) 1).toNat
        * 1000000) (m * 1000000)
        = min (signedMillis (UInt64.ofNat B) (xorshift (nanos ||| 1))).toNat m * 1000000 := by
      have hone : 1 ≤ signedMillis (UInt64.ofNat B) (xorshift (nanos ||| 1)) := by omega
      rw [Int.max_eq_left hone]
      omega
    refine ⟨_, hcap, congrArg some hcap, ?_⟩
    rcases hvalue with hvalue | hvalue
    · rw [hvalue]
      omega
    · rw [hvalue]
      omega

/-! ### Runs -/

/-- A batch has been sent. -/
def Label.succeeds : Label → Bool
  | .finish a _ _ =>
    match sendOne a with
    | .ok => true
    | _ => false
  | _ => false

/-- A batch could not be sent, and is tried again. -/
def Label.retries : Label → Bool
  | .finish a _ _ =>
    match sendOne a with
    | .retry _ => true
    | _ => false
  | _ => false

/-- How often sending has failed. -/
def retries (ls : List Label) : ℕ := ls.countP Label.retries

variable {maxBackoff : ℕ} {s t : ShipperState} {l : Label} {ls : List Label}

/-- What a step does to the time to wait. -/
theorem backoff_step (h : s.step maxBackoff l = some t) :
    (l.succeeds = true ∧ t.backoff = 0) ∨
      (l.succeeds = false ∧ l.retries = true ∧
        ∃ nanos, t.backoff = nextBackoff s.backoff maxBackoff nanos) ∨
      (l.succeeds = false ∧ l.retries = false ∧ t.backoff = s.backoff) := by
  cases l with
  | addBatch dir name =>
    simp only [ShipperState.step] at h
    split_ifs at h
    obtain rfl := Option.some.inj h
    exact .inr (.inr ⟨rfl, rfl, rfl⟩)
  | evict dir name =>
    obtain rfl := Option.some.inj h
    exact .inr (.inr ⟨rfl, rfl, rfl⟩)
  | scan listing =>
    obtain ⟨-, rfl⟩ | ⟨p, -, rfl⟩ := scan_cases h
    · exact .inr (.inr ⟨rfl, rfl, rfl⟩)
    · exact .inr (.inr ⟨rfl, rfl, rfl⟩)
  | finish a nanos removed =>
    simp only [ShipperState.step] at h
    split at h
    · cases h
    · obtain rfl := Option.some.inj h
      rw [Label.succeeds, Label.retries]
      cases sendOne a with
      | ok => exact .inl ⟨rfl, rfl⟩
      | rejected status => exact .inr (.inr ⟨rfl, rfl, rfl⟩)
      | retry why => exact .inr (.inl ⟨rfl, rfl, nanos, rfl⟩)

/-- The time to wait is in whole milliseconds, and at most the maximum. -/
def Capped (m : ℕ) (s : ShipperState) : Prop := ∃ c ≤ m, s.backoff = c * 1000000

theorem Capped.step (hlow : 1000 ≤ m) (hhigh : m ≤ 2 ^ 60) (hs : Capped m s)
    (h : s.step (m * 1000000) l = some t) : Capped m t := by
  obtain ⟨c, hcurr, hc⟩ := hs
  obtain ⟨-, hzero⟩ | ⟨-, -, nanos, hnext⟩ | ⟨-, -, hsame⟩ := backoff_step h
  · exact ⟨0, Nat.zero_le m, hzero⟩
  · obtain ⟨r, hr, -, -, hmax, -⟩ := nextBackoff_millis hlow hhigh hcurr nanos
    exact ⟨r, hmax, by rw [hnext, hc, hr]⟩
  · exact ⟨c, hcurr, hsame.trans hc⟩

theorem capped_of_run (hlow : 1000 ≤ m) (hhigh : m ≤ 2 ^ 60) {dirs : List (List String)}
    (h : run (ShipperState.step (m * 1000000)) (.start dirs) ls = some s) : Capped m s :=
  invariant_of_run (fun _ _ _ hs hstep => hs.step hlow hhigh hstep)
    ⟨0, Nat.zero_le m, (Nat.zero_mul 1000000).symm⟩ h

/-- The time to wait, and half a second where there is none: what it grows from. -/
def fromBackoff (b : ℕ) : ℕ := if b = 0 then 500000000 else b

/-- After this many failures the time to wait has grown by half each time, or it is three quarters
of the maximum. -/
def Grown (max k before after : ℕ) : Prop :=
  3 ^ k * fromBackoff before ≤ 2 ^ k * fromBackoff after ∨ 3 * max ≤ 4 * after

/-- A failure. -/
theorem grown_next (hlow : 1000 ≤ m) (hhigh : m ≤ 2 ^ 60) (hcurr : c ≤ m) (nanos : UInt64) :
    let r := nextBackoff (c * 1000000) (m * 1000000) nanos
    0 < r ∧ (3 * fromBackoff (c * 1000000) ≤ 2 * r ∨ 3 * (m * 1000000) ≤ 4 * r) ∧
      (3 * (m * 1000000) ≤ 4 * (c * 1000000) → 3 * (m * 1000000) ≤ 4 * r) := by
  obtain ⟨r, hr, -, hpos, -, -, hnear⟩ := nextBackoff_millis hlow hhigh hcurr nanos
  intro next
  have hnext : next = r * 1000000 := hr
  rw [hnext, fromBackoff]
  rw [baseMillis] at hnear
  by_cases hc : c = 0
  · rw [if_pos hc] at hnear
    rw [if_pos (by omega)]
    omega
  · rw [if_neg hc] at hnear
    rw [if_neg (by omega)]
    omega

/-- What a run without a success does to the time to wait. -/
theorem grown_of_run (hlow : 1000 ≤ m) (hhigh : m ≤ 2 ^ 60) (hs : Capped m s)
    (h : run (ShipperState.step (m * 1000000)) s ls = some t)
    (hfail : ∀ l ∈ ls, l.succeeds = false) :
    (0 < s.backoff ∨ 0 < retries ls → 0 < t.backoff) ∧
      Grown (m * 1000000) (retries ls) s.backoff t.backoff := by
  induction ls using List.reverseRecOn generalizing t with
  | nil =>
    obtain rfl : s = t := by simpa using h
    exact ⟨fun hpos => hpos.resolve_right (Nat.lt_irrefl 0), .inl (Nat.le_refl _)⟩
  | append_singleton ls l ih =>
    obtain ⟨u, hu, hstep⟩ := run_snoc_iff.mp h
    obtain ⟨hpos, hgrown⟩ := ih hu fun l hl => hfail l (List.mem_append_left _ hl)
    have hl : l.succeeds = false := hfail l (List.mem_append_right _ (List.mem_singleton_self l))
    have hcount : retries (ls ++ [l]) = retries ls + if l.retries then 1 else 0 := by
      rw [retries, List.countP_append, List.countP_singleton]
      rfl
    obtain ⟨c, hcurr, hc⟩ := invariant_of_run (I := Capped m)
      (fun _ _ _ hs hstep => hs.step hlow hhigh hstep) hs hu
    obtain ⟨hok, -⟩ | ⟨-, hretry, nanos, hnext⟩ | ⟨-, hretry, hsame⟩ := backoff_step hstep
    · rw [hok] at hl
      cases hl
    · obtain ⟨hnextpos, hhalf, hstays⟩ := grown_next hlow hhigh hcurr nanos
      rw [← hc, ← hnext] at hnextpos hhalf hstays
      rw [hcount, hretry, if_pos rfl]
      refine ⟨fun _ => hnextpos, ?_⟩
      have hfrom : fromBackoff t.backoff = t.backoff := if_neg (by omega)
      rcases hgrown with hgrown | hthree
      · refine hhalf.imp_left fun hhalf => ?_
        rw [hfrom]
        calc 3 ^ (retries ls + 1) * fromBackoff s.backoff
            = 3 * (3 ^ retries ls * fromBackoff s.backoff) := by
              rw [Nat.pow_succ', Nat.mul_assoc]
          _ ≤ 3 * (2 ^ retries ls * fromBackoff u.backoff) := Nat.mul_le_mul_left 3 hgrown
          _ = 2 ^ retries ls * (3 * fromBackoff u.backoff) := Nat.mul_left_comm _ _ _
          _ ≤ 2 ^ retries ls * (2 * t.backoff) := Nat.mul_le_mul_left _ hhalf
          _ = 2 ^ (retries ls + 1) * t.backoff := by rw [Nat.pow_succ, Nat.mul_assoc]
      · exact .inr (hstays hthree)
    · rw [hcount, hretry, hsame]
      exact ⟨hpos, hgrown⟩

/-- **The envelope of the back-off.** For every time to wait and every clock, no operation fails,
and the next time is positive, at most the maximum and within a quarter of the base. In every run of
the shipper, over steps without a success it grows by half with each failure until it is three
quarters of the maximum, and never becomes zero again; a success makes it zero. -/
theorem backoff_in_envelope (hlow : 1000 ≤ m) (hhigh : m ≤ 2 ^ 60) :
    (∀ c ≤ m, ∀ nanos : UInt64,
      let max := m * 1000000
      let base := if c = 0 then 1000000000 else min (2 * (c * 1000000)) max
      let r := nextBackoff (c * 1000000) max nanos
      nextBackoffChecked (c * 1000000) max nanos = some r ∧ 0 < r ∧ r ≤ max ∧
        r ≤ base + base / 4 ∧ min max (base - base / 4) ≤ r) ∧
    (∀ dirs before ls s t, run (ShipperState.step (m * 1000000)) (.start dirs) before = some s →
      run (ShipperState.step (m * 1000000)) s ls = some t → (∀ l ∈ ls, l.succeeds = false) →
        (0 < s.backoff ∨ 0 < retries ls → 0 < t.backoff) ∧
          Grown (m * 1000000) (retries ls) s.backoff t.backoff) ∧
    ∀ (s t : ShipperState) (l : Label), s.step (m * 1000000) l = some t → l.succeeds = true →
      t.backoff = 0 := by
  refine ⟨fun c hcurr nanos => ?_, fun dirs before ls s t hs ht hfail => ?_, fun s t l h hok => ?_⟩
  · obtain ⟨r, hr, hchecked, hpos, hmax, habove, hbelow⟩ :=
      nextBackoff_millis hlow hhigh hcurr nanos
    intro max base next
    have hnext : next = r * 1000000 := hr
    have hbase : base = baseMillis c m * 1000000 := by
      show (if c = 0 then 1000000000 else min (2 * (c * 1000000)) (m * 1000000)) = _
      rw [baseMillis]
      split_ifs
      · rfl
      · omega
    have hquarter : baseMillis c m * 1000000 / 4 = baseMillis c m * 250000 := by omega
    rw [hnext, hbase, hquarter]
    refine ⟨hchecked, by omega, Nat.mul_le_mul_right _ hmax, by omega, ?_⟩
    show min (m * 1000000) _ ≤ _
    omega
  · exact grown_of_run hlow hhigh (capped_of_run hlow hhigh hs) ht hfail
  · obtain ⟨-, hzero⟩ | ⟨hfail, -⟩ | ⟨hfail, -⟩ := backoff_step h
    · exact hzero
    · rw [hok] at hfail
      cases hfail
    · rw [hok] at hfail
      cases hfail

/-- A maximum of five minutes. -/
theorem five_minutes_envelope : 0 < nextBackoff 0 (300000 * 1000000) 1 ∧
    nextBackoff 0 (300000 * 1000000) 1 ≤ 300000 * 1000000 := by
  have h := (backoff_in_envelope (m := 300000) (by decide) (by decide)).1 0 (by decide) 1
  exact ⟨h.2.1, h.2.2.1⟩

end Shipper

end WazabiAgent
