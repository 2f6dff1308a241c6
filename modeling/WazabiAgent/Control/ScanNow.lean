import Mathlib.Algebra.Ring.Nat
import WazabiAgent.Config.Sections
import WazabiAgent.Control.Isolation

/-!
# Scanning files

`execute_scan_now` (`control/executor.rs`) counts the files below a directory. The walk keeps a
stack of directories and gives up once it has seen too many files or taken too long; it looks at
both limits before it opens a directory and after each file.

What the walk meets is a tree, since a link is neither a directory nor a file to `metadata`. Reading
an entry, its metadata or a directory may fail anywhere. The clock is a parameter: `elapsed n` is
the answer to the n-th question.

## Main definitions

* `walk` — the loop
* `Entry.total` — what there is to be counted
* `executeScanNow` — the command and its report

## Main results

* `scan_exact` — the report is exact, or says that it is cut short
-/

namespace WazabiAgent

namespace Control

namespace ScanNow

/-! ### What there is -/

/-- What an entry of a directory turns out to be. -/
inductive Entry
  /-- The entry or its metadata cannot be read. -/
  | unreadable
  | file (len : ℕ)
  /-- Neither a file nor a directory. -/
  | other
  /-- A directory that cannot be read. -/
  | closed
  | dir (entries : List Entry)

/-- What `read_dir` finds, unless it fails. -/
abbrev Dir := Option (List Entry)

/-- What a scan counts. -/
@[ext] structure Totals where
  files : ℕ := 0
  dirs : ℕ := 0
  bytes : ℕ := 0
  errors : ℕ := 0
  deriving DecidableEq

namespace Totals

instance : Add Totals where
  add a b := ⟨a.files + b.files, a.dirs + b.dirs, a.bytes + b.bytes, a.errors + b.errors⟩

instance : LE Totals where
  le a b := a.files ≤ b.files ∧ a.dirs ≤ b.dirs ∧ a.bytes ≤ b.bytes ∧ a.errors ≤ b.errors

@[simp] theorem files_add (a b : Totals) : (a + b).files = a.files + b.files := rfl

@[simp] theorem dirs_add (a b : Totals) : (a + b).dirs = a.dirs + b.dirs := rfl

@[simp] theorem bytes_add (a b : Totals) : (a + b).bytes = a.bytes + b.bytes := rfl

@[simp] theorem errors_add (a b : Totals) : (a + b).errors = a.errors + b.errors := rfl

theorem le_iff {a b : Totals} : a ≤ b ↔
    a.files ≤ b.files ∧ a.dirs ≤ b.dirs ∧ a.bytes ≤ b.bytes ∧ a.errors ≤ b.errors := Iff.rfl

theorem le_refl (a : Totals) : a ≤ a :=
  ⟨Nat.le_refl _, Nat.le_refl _, Nat.le_refl _, Nat.le_refl _⟩

theorem le_add_right (a b : Totals) : a ≤ a + b :=
  ⟨Nat.le_add_right _ _, Nat.le_add_right _ _, Nat.le_add_right _ _, Nat.le_add_right _ _⟩

/-- A file. -/
def ofFile (len : ℕ) : Totals := { files := 1, bytes := len }

/-- A directory. -/
def ofDir : Totals := { dirs := 1 }

/-- An entry that cannot be read. -/
def ofError : Totals := { errors := 1 }

end Totals

mutual

/-- What there is in an entry, with all below it. -/
def Entry.total : Entry → Totals
  | .unreadable => .ofError
  | .file len => .ofFile len
  | .other => {}
  | .closed => .ofDir + .ofError
  | .dir entries => .ofDir + totalIn entries

/-- What there is in the entries of a directory. -/
def totalIn : List Entry → Totals
  | [] => {}
  | e :: entries => e.total + totalIn entries

end

/-- What there is to be counted in a directory, which is counted itself. -/
def total : Dir → Totals
  | none => .ofDir + .ofError
  | some entries => .ofDir + totalIn entries

/-- What there is below a stack. -/
def pending : List Dir → Totals
  | [] => {}
  | d :: stack => total d + pending stack

/-! ### The walk -/

/-- Where a scan stops. -/
structure Limits where
  maxFiles : ℕ
  maxDuration : ℕ

/-- What has been counted, and how often the clock was asked. -/
structure Progress where
  counted : Totals := {}
  readings : ℕ := 0

/-- Counts more. -/
def Progress.add (p : Progress) (t : Totals) : Progress := { p with counted := p.counted + t }

variable (lim : Limits) (elapsed : ℕ → ℕ)

/-- `*files >= max_files || t0.elapsed() >= max_duration` -/
def exceeded (p : Progress) : Bool × Progress :=
  if lim.maxFiles ≤ p.counted.files then (true, p)
  else (lim.maxDuration ≤ elapsed p.readings, { p with readings := p.readings + 1 })

/-- The entries of a directory. An error is the return in the middle. -/
def drain : List Entry → List Dir → Progress → Except Progress (List Dir × Progress)
  | [], stack, p => .ok (stack, p)
  | .unreadable :: entries, stack, p => drain entries stack (p.add .ofError)
  | .other :: entries, stack, p => drain entries stack p
  | .closed :: entries, stack, p => drain entries (none :: stack) p
  | .dir es :: entries, stack, p => drain entries (some es :: stack) p
  | .file len :: entries, stack, p =>
    match exceeded lim elapsed (p.add (.ofFile len)) with
    | (true, p) => .error p
    | (false, p) => drain entries stack p

/-- Draining puts the directories on the stack, which bounds the walk. -/
theorem dirs_drain {entries : List Entry} {stack stack' : List Dir} {p p' : Progress}
    (h : drain lim elapsed entries stack p = .ok (stack', p')) :
    (pending stack').dirs = (totalIn entries).dirs + (pending stack).dirs := by
  induction entries generalizing stack p with
  | nil =>
    obtain ⟨rfl, -⟩ := Prod.mk.inj (Except.ok.inj h)
    exact (Nat.zero_add _).symm
  | cons e entries ih =>
    cases e with
    | unreadable => simpa [totalIn, Entry.total, Totals.ofError] using ih h
    | other => simpa [totalIn, Entry.total] using ih h
    | closed =>
      have hrest := ih h
      simp only [pending, total, totalIn, Entry.total, Totals.dirs_add] at hrest ⊢
      omega
    | dir es =>
      have hrest := ih h
      simp only [pending, total, totalIn, Entry.total, Totals.dirs_add] at hrest ⊢
      omega
    | file len =>
      rw [drain] at h
      split at h
      · cases h
      · simpa [totalIn, Entry.total, Totals.ofFile] using ih h

/-- `walk`, from a stack. -/
def walk (stack : List Dir) (p : Progress) : Progress × Bool :=
  match stack with
  | [] => (p, false)
  | d :: stack =>
    match exceeded lim elapsed p with
    | (true, p) => (p, true)
    | (false, p) =>
      match d with
      | none => walk stack ((p.add .ofDir).add .ofError)
      | some entries =>
        match _h : drain lim elapsed entries stack (p.add .ofDir) with
        | .error p => (p, true)
        | .ok (stack, p) => walk stack p
termination_by (pending stack).dirs
decreasing_by
  · simp only [pending, total, Totals.dirs_add, Totals.ofDir, Totals.ofError]
    omega
  · rw [dirs_drain lim elapsed _h]
    simp only [pending, total, Totals.dirs_add, Totals.ofDir]
    omega

/-! ### What has been counted -/

/-- One of the limits was found to be reached. -/
def Exceeded (p : Progress) : Prop :=
  lim.maxFiles ≤ p.counted.files ∨ ∃ n < p.readings, lim.maxDuration ≤ elapsed n

variable {lim elapsed}

/-- What looking at the limits says, and that it counts nothing. -/
theorem exceeded_cases {p q : Progress} {stop : Bool} (h : exceeded lim elapsed p = (stop, q)) :
    q.counted = p.counted ∧ (stop = false → p.counted.files < lim.maxFiles) ∧
      (stop = true → Exceeded lim elapsed q) := by
  rw [exceeded] at h
  split_ifs at h with hfiles
  · obtain ⟨rfl, rfl⟩ := Prod.mk.inj h
    exact ⟨rfl, by simp, fun _ => .inl hfiles⟩
  · obtain ⟨rfl, rfl⟩ := Prod.mk.inj h
    refine ⟨rfl, fun _ => Nat.not_le.mp hfiles, fun hstop => .inr ⟨p.readings, ?_, ?_⟩⟩
    · exact Nat.lt_succ_self _
    · exact of_decide_eq_true hstop

/-- What is counted and what is still to be counted make up `t`, or there was a reason to stop. -/
def Accounts (lim : Limits) (elapsed : ℕ → ℕ) (t : Totals) :
    Except Progress (List Dir × Progress) → Prop
  | .ok (stack, q) => q.counted + pending stack = t ∧ q.counted.files < lim.maxFiles
  | .error q => q.counted ≤ t ∧ q.counted.files ≤ lim.maxFiles ∧ Exceeded lim elapsed q

/-- An entry that is dealt with moves from the one side to the other. -/
theorem drained {t : Totals} {entries : List Entry} {stack : List Dir} {p : Progress}
    (ht : p.counted + (totalIn entries + pending stack) = t)
    (hp : p.counted.files < lim.maxFiles) :
    Accounts lim elapsed t (drain lim elapsed entries stack p) := by
  induction entries generalizing stack p with
  | nil =>
    refine ⟨?_, hp⟩
    rw [← ht]
    ext <;> simp [totalIn]
  | cons e entries ih =>
    cases e with
    | unreadable =>
      refine @ih stack (p.add .ofError) ?_ (by simpa [Progress.add, Totals.ofError] using hp)
      rw [← ht]
      ext <;> simp [Progress.add, totalIn, Entry.total] <;> omega
    | other =>
      refine ih ?_ hp
      rw [← ht]
      ext <;> simp [totalIn, Entry.total]
    | closed =>
      refine @ih (none :: stack) p ?_ hp
      rw [← ht]
      ext <;> simp [totalIn, Entry.total, pending, total] <;> omega
    | dir es =>
      refine @ih (some es :: stack) p ?_ hp
      rw [← ht]
      ext <;> simp [totalIn, Entry.total, pending, total] <;> omega
    | file len =>
      have hfiles : (p.add (.ofFile len)).counted.files = p.counted.files + 1 := rfl
      rw [drain]
      split
      · next q hq =>
        obtain ⟨hcounted, -, hstop⟩ := exceeded_cases hq
        refine ⟨?_, ?_, hstop rfl⟩
        · rw [hcounted, ← ht, Totals.le_iff]
          simp [Progress.add, totalIn, Entry.total]
          omega
        · rw [hcounted, hfiles]
          exact hp
      · next q hq =>
        obtain ⟨hcounted, hlt, -⟩ := exceeded_cases hq
        refine ih ?_ (by rw [hcounted]; exact hlt rfl)
        rw [hcounted, ← ht]
        ext <;> simp [Progress.add, totalIn, Entry.total] <;> omega

/-- The walk counts all of `t`, or no more and with a reason to stop. -/
structure Ends (lim : Limits) (elapsed : ℕ → ℕ) (t : Totals) (q : Progress) (truncated : Bool) :
    Prop where
  whole : truncated = false → q.counted = t ∧ q.counted.files < lim.maxFiles
  part : q.counted ≤ t
  files : q.counted.files ≤ lim.maxFiles
  reason : truncated = true → Exceeded lim elapsed q

theorem ends_of_exceeded {t : Totals} {q : Progress} (hpart : q.counted ≤ t)
    (hfiles : q.counted.files ≤ lim.maxFiles) (h : Exceeded lim elapsed q) :
    Ends lim elapsed t q true where
  whole h' := by cases h'
  part := hpart
  files := hfiles
  reason _ := h

/-- What draining accounts for, once a directory may be opened. -/
theorem drained_of_within {t : Totals} {entries : List Entry} {stack : List Dir} {p q : Progress}
    (h : exceeded lim elapsed p = (false, q))
    (ht : p.counted + pending (some entries :: stack) = t) :
    Accounts lim elapsed t (drain lim elapsed entries stack (q.add .ofDir)) := by
  obtain ⟨hcounted, hlt, -⟩ := exceeded_cases h
  refine drained ?_ ?_
  · rw [← ht]
    ext <;> simp [Progress.add, pending, total, hcounted] <;> omega
  · simpa [Progress.add, Totals.ofDir, hcounted] using hlt rfl

theorem walk_ends {t : Totals} {stack : List Dir} {p : Progress}
    (ht : p.counted + pending stack = t)
    (hp : stack = [] → p.counted.files < lim.maxFiles) (hle : p.counted.files ≤ lim.maxFiles) :
    Ends lim elapsed t (walk lim elapsed stack p).1 (walk lim elapsed stack p).2 := by
  induction stack, p using walk.induct lim elapsed with
  | case1 p =>
    rw [walk]
    have hall : p.counted = t := by
      rw [← ht]
      ext <;> rfl
    exact ⟨fun _ => ⟨hall, hp rfl⟩, hall ▸ Totals.le_refl _, hle, by simp⟩
  | case2 p d stack q hx =>
    obtain ⟨hcounted, -, hstop⟩ := exceeded_cases hx
    rw [walk, hx]
    refine ends_of_exceeded ?_ (by rwa [hcounted]) (hstop rfl)
    rw [hcounted, ← ht]
    exact Totals.le_add_right _ _
  | case3 p stack q hx ih =>
    obtain ⟨hcounted, hlt, -⟩ := exceeded_cases hx
    rw [walk, hx]
    refine ih ?_ (fun _ => ?_) ?_
    · rw [← ht]
      ext <;> simp [Progress.add, pending, total, hcounted] <;> omega
    · simpa [Progress.add, Totals.ofDir, Totals.ofError, hcounted] using hlt rfl
    · simpa [Progress.add, Totals.ofDir, Totals.ofError, hcounted] using hle
  | case4 p stack q hx entries r hr =>
    have hdrained := drained_of_within hx ht
    rw [hr] at hdrained
    obtain ⟨hpart, hfiles, hstop⟩ := hdrained
    rw [walk, hx]
    dsimp only
    split
    · next _ h =>
      obtain rfl := Except.error.inj (h.symm.trans hr)
      exact ends_of_exceeded hpart hfiles hstop
    · next _ _ h => cases h.symm.trans hr
  | case5 p stack q hx entries stack' r hr ih =>
    have hdrained := drained_of_within hx ht
    rw [hr] at hdrained
    obtain ⟨hall, hlt⟩ := hdrained
    rw [walk, hx]
    dsimp only
    split
    · next _ h => cases h.symm.trans hr
    · next _ _ h =>
      obtain ⟨rfl, rfl⟩ := Prod.mk.inj (Except.ok.inj (h.symm.trans hr))
      exact ih hall (fun _ => hlt) (Nat.le_of_lt hlt)

/-! ### The command -/

/-- `max_files` and `max_duration`, in milliseconds. -/
def limits : Limits := { maxFiles := 100000, maxDuration := 120 * 1000 }

/-- `target_path`. -/
def target (programData : Option String) (payload : Json) : String :=
  ((payload.get "target_path").bind Json.asStr).getD (programData.getD "C:\\ProgramData")

/-- A numeral of the report. -/
def num (n : ℕ) : Json := .number (toString n)

/-- The report of a walk. `bytes_seen` is a `u64`. -/
def report (executedAt path : String) (p : Progress) (truncated : Bool) (durationMs : ℕ) :
    ExecutionResult where
  status := "success"
  result := .object [("executed_at", .string executedAt),
    ("note", .string "FS walk only — no signature engine in this build"),
    ("target_path", .string path), ("files_seen", num p.counted.files),
    ("dirs_seen", num p.counted.dirs), ("bytes_seen", num (p.counted.bytes % 2 ^ 64)),
    ("errors", num p.counted.errors), ("duration_ms", num durationMs),
    ("truncated", .bool truncated), ("max_files", num limits.maxFiles),
    ("max_duration_secs", num (limits.maxDuration / 1000))]

/-- What the command finds: the disk, the clock, and the time of day. -/
structure Surroundings where
  programData : Option String
  /-- What a path leads to, if it exists. What is not a directory cannot be read as one. -/
  find : String → Option Dir
  /-- The milliseconds since the start, by the n-th question. -/
  elapsed : ℕ → ℕ
  now : String

/-- The command: the scan of a directory within the limits, and its report. -/
def executeScanNow (s : Surroundings) (payload : Json) : ExecutionResult :=
  let path := target s.programData payload
  match s.find path with
  | none => ⟨"failed", .object [("error", .string "target_path does not exist"),
      ("target_path", .string path)]⟩
  | some d =>
    let (p, truncated) := walk limits s.elapsed [d] {}
    report s.now path p truncated (s.elapsed p.readings % 2 ^ 64)

theorem start_ends (elapsed : ℕ → ℕ) (d : Dir) :
    Ends limits elapsed (total d) (walk limits elapsed [d] {}).1
      (walk limits elapsed [d] {}).2 := by
  refine walk_ends ?_ (by simp) (Nat.zero_le _)
  ext <;> simp [pending]

/-- **A scan is exact, or says that it is cut short.** It never reports more than there is, and a
    report that is not cut short has all of it. One that is cut short has seen the 100000 files or
    found the two minutes over; unless the time runs out, it is cut short exactly where there are
    as many files as that. -/
theorem scan_exact (s : Surroundings) (payload : Json) :
    match s.find (target s.programData payload) with
    | none => (executeScanNow s payload).status = "failed"
    | some d => ∃ p truncated ms,
      executeScanNow s payload =
        report s.now (target s.programData payload) p truncated ms ∧
      p.counted ≤ total d ∧ p.counted.files ≤ 100000 ∧
      (truncated = false → p.counted = total d) ∧
      (truncated = true → p.counted.files = 100000 ∨ ∃ n < p.readings, 120000 ≤ s.elapsed n) ∧
      ((∀ n, s.elapsed n < 120000) → (truncated = true ↔ 100000 ≤ (total d).files)) := by
  split
  · next hfind => simp [executeScanNow, hfind]
  · next d hfind =>
    have hends := start_ends s.elapsed d
    refine ⟨_, _, s.elapsed (walk limits s.elapsed [d] {}).1.readings % 2 ^ 64,
      by simp only [executeScanNow, hfind], hends.part,
      hends.files, fun h => (hends.whole h).1, fun h => ?_, fun hclock => ⟨fun h => ?_, ?_⟩⟩
    · exact (hends.reason h).imp_left (Nat.le_antisymm hends.files)
    · obtain hfiles | ⟨n, -, hlate⟩ := hends.reason h
      · exact Nat.le_trans hfiles hends.part.1
      · exact absurd (hclock n) (Nat.not_lt.mpr hlate)
    · intro hmany
      by_contra h
      obtain ⟨hall, hlt⟩ := hends.whole (Bool.eq_false_iff.mpr h)
      rw [hall] at hlt
      exact Nat.not_lt.mpr hmany hlt

end ScanNow

end Control

end WazabiAgent
