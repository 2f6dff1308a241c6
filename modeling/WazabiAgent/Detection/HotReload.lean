import Mathlib.Logic.Function.Basic
import WazabiAgent.Lib.Lookup
import WazabiAgent.Lib.Transition

/-!
# Reloading the rules

The rules are parsed from a root file and from the files that it includes. Three threads do this
with the same steps: `DetectionEngine::load` at the start, the reload thread when a tick finds
another fingerprint of the root than the one of its last reload, and the control plane through
`force_reload`. Reading the files, parsing and installing the engine are separate steps; only the
last one takes the lock.

The Waza parser is not part of the repository. It is a parameter: a program that asks for the
contents of files, whichever it resolves the includes to, and ends with rules or with an error.
Files may be edited between any two steps. The schema affects only warnings and is left out.

Only the root is fingerprinted, and first when the thread starts. What a tick that finds nothing
changed leaves in force is therefore right only where none of the files has changed since it was
read.

## Ghost state

An engine and a parse that is under way come with what was read for them, with the number of edits
that the file had seen by then. A parse also knows which engines have been installed since it
began. `undisturbed` says that there was no edit since the tick under way began, and `settled` that
a whole tick has passed since the last edit.

## Main results

* `moves_of_step` — all that a step can be
* `built_of_current` — an engine whose files still hold what was read is that of the files
* `hotReload_of_along` — when all edits get through
* `edits_not_seen` — two that do not
-/

namespace WazabiAgent

namespace Detection

open LabelledStep Prog

/-! ### Files -/

/-- A rules file as the file system has it. -/
structure RuleFile where
  content : List UInt8
  /-- Nanoseconds since 1970, or 0 where that cannot be told. -/
  modified : ℕ
  deriving DecidableEq

/-- When the two rules files were modified. -/
abbrev Fingerprint := ℕ × ℕ

/-- The time and the size of a file, if it is there. -/
def fingerprint : Option RuleFile → Fingerprint
  | some f => (f.modified, f.content.length)
  | none => (0, 0)

/-- The contents of the files, as the parser asks for them. -/
abbrev RuleParser (R : Type) :=
  String → Prog (Lookup String (Option (List UInt8))) (Except String R)

/-- Ghost: what was read, in which version. -/
structure Read where
  path : String
  content : Option (List UInt8)
  version : ℕ
  deriving DecidableEq

/-- What a parse has been told. -/
def record (reads : List Read) : List (String × Option (List UInt8)) :=
  reads.map fun x => (x.path, x.content)

/-! ### The system -/

/-- An engine, with the reads it was parsed from. -/
structure Engine (R : Type) where
  rules : R
  reads : List Read

/-- A call of `parse_file_with_window` that is under way. -/
structure Parse (R : Type) where
  rest : Prog (Lookup String (Option (List UInt8))) (Except String R)
  reads : List Read := []
  meanwhile : List (Engine R) := []

/-- Who parses: the start of the agent, the reload thread, or the profile synchronisation. -/
inductive Caller
  | load
  | poll
  | control
  deriving DecidableEq

/-- The rules files, the engine in force and the calls that run. -/
structure RuleSystem (R : Type) where
  files : String → Option RuleFile
  /-- Ghost: how often each file has been edited. -/
  edits : String → ℕ := fun _ => 0
  /-- The engine in force. -/
  engine : Option (Engine R) := none
  /-- Ghost: the engines that were in force before, newest first. -/
  replaced : List (Engine R) := []
  running : Caller → Option (Parse R)
  /-- The variable of the reload thread, once it has one. -/
  lastFp : Option Fingerprint := none
  /-- The fingerprint of the tick under way. -/
  fp : Fingerprint := (0, 0)
  undisturbed : Bool := false
  settled : Bool := false

namespace RuleSystem

/-- What happens next. -/
inductive Label
  | edit (path : String) (file : Option RuleFile)
  /-- A read of the parser; at its end, the installation or the error. -/
  | parse (c : Caller)
  | firstFingerprint
  | tick
  | forceReload

variable {R : Type}

/-- The bytes of a file. -/
def content (s : RuleSystem R) (path : String) : Option (List UInt8) :=
  (s.files path).map RuleFile.content

/-- A file is written, or removed. -/
def edit (s : RuleSystem R) (path : String) (file : Option RuleFile) : RuleSystem R :=
  { s with
    files := Function.update s.files path file
    edits := Function.update s.edits path (s.edits path + 1)
    undisturbed := false
    settled := false }

/-- The parser gets the content that it has asked for. -/
def read (s : RuleSystem R) (c : Caller) (r : Parse R) (path : String)
    (rest : Option (List UInt8) → Prog (Lookup String (Option (List UInt8))) (Except String R)) :
    RuleSystem R :=
  { s with running := Function.update s.running c (some { r with
      rest := rest (s.content path)
      reads := r.reads ++ [⟨path, s.content path, s.edits path⟩] }) }

/-- The call is over, and with it the tick if it was made by one. -/
def finish (s : RuleSystem R) (c : Caller) : RuleSystem R :=
  { s with
    running := Function.update s.running c none
    settled := if c = .poll then s.undisturbed else s.settled }

/-- The end of `load` and of `reload`. The reload thread then keeps its fingerprint. -/
def install (s : RuleSystem R) (c : Caller) (e : Engine R) : RuleSystem R :=
  { s.finish c with
    engine := some e
    replaced := s.engine.toList ++ s.replaced
    running := fun c' =>
      ((s.finish c).running c').map fun r => { r with meanwhile := e :: r.meanwhile }
    lastFp := if c = .poll then some s.fp else s.lastFp }

/-- A caller begins to parse the rules. -/
def call (s : RuleSystem R) (parser : RuleParser R) (rulesPath : String) (c : Caller) :
    RuleSystem R :=
  { s with running := Function.update s.running c (some { rest := parser rulesPath }) }

/-- The reload thread and `force_reload` come after a load that has succeeded. -/
def step (parser : RuleParser R) (rulesPath : String) (s : RuleSystem R) :
    Label → Option (RuleSystem R)
  | .edit path file => some (s.edit path file)
  | .parse c =>
    match s.running c with
    | none => none
    | some r =>
      match r.rest with
      | .op (.get path) rest => some (s.read c r path rest)
      | .pure (.ok rules) => some (s.install c ⟨rules, r.reads⟩)
      | .pure (.error _) => some (s.finish c)
  | .firstFingerprint =>
    if s.engine.isSome ∧ s.lastFp = none then
      some { s with lastFp := some (fingerprint (s.files rulesPath)) }
    else none
  | .tick =>
    match s.lastFp, s.running .poll with
    | some lastFp, none =>
      if fingerprint (s.files rulesPath) = lastFp then some { s with settled := true }
      else some { s.call parser rulesPath .poll with
        fp := fingerprint (s.files rulesPath)
        undisturbed := true }
    | _, _ => none
  | .forceReload =>
    if s.engine.isSome ∧ (s.running .control).isNone then
      some (s.call parser rulesPath .control)
    else none

/-- The load begins. -/
def start (parser : RuleParser R) (rulesPath : String) (files : String → Option RuleFile) :
    RuleSystem R where
  files := files
  running := Function.update (fun _ => none) .load (some { rest := parser rulesPath })

/-- The result of parsing the files as they are. -/
def parseNow (parser : RuleParser R) (rulesPath : String) (s : RuleSystem R) : Except String R :=
  Lookup.eval s.content (parser rulesPath)

variable {parser : RuleParser R} {rulesPath : String} {s t : RuleSystem R} {l : Label}

/-- All that a step can be. -/
inductive Moves (parser : RuleParser R) (rulesPath : String) (s : RuleSystem R) :
    Label → RuleSystem R → Prop
  | edit (path : String) (file : Option RuleFile) :
    s.Moves parser rulesPath (.edit path file) (s.edit path file)
  | read {c : Caller} {r : Parse R} {path : String}
    {rest : Option (List UInt8) → Prog (Lookup String (Option (List UInt8))) (Except String R)}
    (hrun : s.running c = some r) (hrest : r.rest = .op (.get path) rest) :
    s.Moves parser rulesPath (.parse c) (s.read c r path rest)
  | install {c : Caller} {r : Parse R} {rules : R} (hrun : s.running c = some r)
    (hrest : r.rest = .pure (.ok rules)) :
    s.Moves parser rulesPath (.parse c) (s.install c ⟨rules, r.reads⟩)
  | fail {c : Caller} {r : Parse R} {e : String} (hrun : s.running c = some r)
    (hrest : r.rest = .pure (.error e)) :
    s.Moves parser rulesPath (.parse c) (s.finish c)
  | firstFingerprint (hengine : s.engine.isSome) (hlast : s.lastFp = none) :
    s.Moves parser rulesPath .firstFingerprint
      { s with lastFp := some (fingerprint (s.files rulesPath)) }
  | unchanged (hlast : s.lastFp = some (fingerprint (s.files rulesPath)))
    (hidle : s.running .poll = none) :
    s.Moves parser rulesPath .tick { s with settled := true }
  | changed {lastFp : Fingerprint} (hlast : s.lastFp = some lastFp)
    (hne : fingerprint (s.files rulesPath) ≠ lastFp) (hidle : s.running .poll = none) :
    s.Moves parser rulesPath .tick { s.call parser rulesPath .poll with
      fp := fingerprint (s.files rulesPath)
      undisturbed := true }
  | forceReload (hengine : s.engine.isSome) (hidle : s.running .control = none) :
    s.Moves parser rulesPath .forceReload (s.call parser rulesPath .control)

theorem moves_of_step (hst : s.step parser rulesPath l = some t) :
    s.Moves parser rulesPath l t := by
  cases l with
  | edit path file =>
    obtain rfl := Option.some.inj hst
    exact .edit path file
  | parse c =>
    rw [step] at hst
    cases hrun : s.running c with
    | none => simp [hrun] at hst
    | some r =>
      simp only [hrun] at hst
      cases hrest : r.rest with
      | op o rest =>
        cases o with
        | get path =>
          simp only [hrest] at hst
          obtain rfl := Option.some.inj hst
          exact .read hrun hrest
      | pure result =>
        cases result with
        | ok rules =>
          simp only [hrest] at hst
          obtain rfl := Option.some.inj hst
          exact .install hrun hrest
        | error e =>
          simp only [hrest] at hst
          obtain rfl := Option.some.inj hst
          exact .fail hrun hrest
  | firstFingerprint =>
    rw [step] at hst
    split_ifs at hst with h
    obtain rfl := Option.some.inj hst
    exact .firstFingerprint h.1 h.2
  | tick =>
    rw [step] at hst
    cases hlast : s.lastFp with
    | none => simp [hlast] at hst
    | some lastFp =>
      cases hidle : s.running .poll with
      | some r => simp [hlast, hidle] at hst
      | none =>
        simp only [hlast, hidle] at hst
        by_cases hfp : fingerprint (s.files rulesPath) = lastFp
        · rw [if_pos hfp] at hst
          obtain rfl := Option.some.inj hst
          exact hlast ▸ .unchanged (by rw [hlast, hfp]) hidle
        · rw [if_neg hfp] at hst
          obtain rfl := Option.some.inj hst
          exact .changed hlast hfp hidle
  | forceReload =>
    rw [step] at hst
    split_ifs at hst with h
    obtain rfl := Option.some.inj hst
    exact .forceReload h.1 (Option.isNone_iff_eq_none.mp h.2)

/-! ### The calls under way -/

theorem running_start {files : String → Option RuleFile} {c : Caller} {r : Parse R}
    (h : (start parser rulesPath files).running c = some r) : r = { rest := parser rulesPath } := by
  have hupdate : Function.update (fun _ => none) Caller.load (some { rest := parser rulesPath }) c
      = some r := h
  rw [Function.update_apply] at hupdate
  split_ifs at hupdate
  exact (Option.some.inj hupdate).symm

theorem running_call {c c' : Caller} {r : Parse R}
    (h : (s.call parser rulesPath c).running c' = some r) :
    (c' = c ∧ r = { rest := parser rulesPath }) ∨ s.running c' = some r := by
  have hupdate : Function.update s.running c (some { rest := parser rulesPath }) c' = some r := h
  rw [Function.update_apply] at hupdate
  split_ifs at hupdate with hc
  · exact .inl ⟨hc, (Option.some.inj hupdate).symm⟩
  · exact .inr hupdate

theorem running_read {c c' : Caller} {r r' : Parse R} {path : String}
    {rest : Option (List UInt8) → Prog (Lookup String (Option (List UInt8))) (Except String R)}
    (h : (s.read c r path rest).running c' = some r') :
    (c' = c ∧ r' = { r with
      rest := rest (s.content path)
      reads := r.reads ++ [⟨path, s.content path, s.edits path⟩] }) ∨ s.running c' = some r' := by
  have hupdate : Function.update s.running c (some { r with
      rest := rest (s.content path)
      reads := r.reads ++ [⟨path, s.content path, s.edits path⟩] }) c' = some r' := h
  rw [Function.update_apply] at hupdate
  split_ifs at hupdate with hc
  · exact .inl ⟨hc, (Option.some.inj hupdate).symm⟩
  · exact .inr hupdate

theorem running_finish {c c' : Caller} {r : Parse R} (h : (s.finish c).running c' = some r) :
    s.running c' = some r := by
  have hupdate : Function.update s.running c none c' = some r := h
  rw [Function.update_apply] at hupdate
  split_ifs at hupdate
  exact hupdate

theorem running_install {c c' : Caller} {e : Engine R} {r : Parse R}
    (h : (s.install c e).running c' = some r) :
    ∃ r', s.running c' = some r' ∧ r = { r' with meanwhile := e :: r'.meanwhile } := by
  obtain ⟨r', hr', rfl⟩ := Option.map_eq_some_iff.mp h
  exact ⟨r', running_finish hr', rfl⟩

/-! ### Which edits get through -/

/-- The files still hold what was read. -/
def Current (s : RuleSystem R) (reads : List Read) : Prop :=
  ∀ x ∈ reads, s.content x.path = x.content

instance (s : RuleSystem R) (reads : List Read) : Decidable (s.Current reads) :=
  inferInstanceAs (Decidable (∀ x ∈ reads, s.content x.path = x.content))

end RuleSystem

/-- The next step of the call installs an engine. -/
def Parse.succeeds {R : Type} (r : Parse R) : Bool :=
  match r.rest with
  | .pure (.ok _) => true
  | _ => false

namespace RuleSystem

variable {R : Type} {parser : RuleParser R} {rulesPath : String} {s t : RuleSystem R} {l : Label}

/-- The condition: where a tick finds the fingerprint of the root unchanged, the files still hold
what was read for the engine in force; and after a whole tick since the last edit no other thread
installs an engine for which an older content was read. -/
def Watched (rulesPath : String) (s : RuleSystem R) : Label → Prop
  | .tick => s.lastFp = some (fingerprint (s.files rulesPath)) →
      ∀ e ∈ s.engine, s.Current e.reads
  | .parse c => c ≠ .poll → s.settled = true →
      ∀ r ∈ s.running c, r.succeeds = true → s.Current r.reads
  | _ => True

instance (rulesPath : String) (s : RuleSystem R) : (l : Label) → Decidable (s.Watched rulesPath l)
  | .tick => inferInstanceAs (Decidable (s.lastFp = some (fingerprint (s.files rulesPath)) →
      ∀ e ∈ s.engine, s.Current e.reads))
  | .parse c => inferInstanceAs (Decidable (c ≠ .poll → s.settled = true →
      ∀ r ∈ s.running c, r.succeeds = true → s.Current r.reads))
  | .edit _ _ | .firstFingerprint | .forceReload => isTrue trivial

/-- The engine in force is that of the files, once a whole tick has passed since the last edit. -/
def HotReloaded (parser : RuleParser R) (rulesPath : String) (s : RuleSystem R) : Prop :=
  s.settled = true → ∀ rules, s.parseNow parser rulesPath = .ok rules →
    ∃ e, s.engine = some e ∧ e.rules = rules

/-- What a parse or an engine was told, the parser has made this of. -/
def Told (parser : RuleParser R) (rulesPath : String) (reads : List Read)
    (rest : Prog (Lookup String (Option (List UInt8))) (Except String R)) : Prop :=
  Lookup.replay (record reads) (parser rulesPath) = some rest

/-- What holds in every reachable state. -/
structure Inv (parser : RuleParser R) (rulesPath : String) (s : RuleSystem R) : Prop where
  told : ∀ c r, s.running c = some r → Told parser rulesPath r.reads r.rest
  engine : ∀ e, s.engine = some e → Told parser rulesPath e.reads (.pure (.ok e.rules))
  started : s.lastFp ≠ none → s.engine.isSome
  poll : s.undisturbed = true → ∀ r, s.running .poll = some r → s.Current r.reads
  hotReloaded : s.HotReloaded parser rulesPath

/-- With the files as they were read, parsing them again comes to the same. -/
theorem parseNow_of_current {reads : List Read} {result : Except String R}
    (h : Told parser rulesPath reads (.pure result)) (hcurrent : s.Current reads) :
    s.parseNow parser rulesPath = result := by
  refine Lookup.eval_of_replay h fun x hx => ?_
  obtain ⟨y, hy, rfl⟩ := List.mem_map.mp hx
  exact hcurrent y hy

/-- An engine whose files still hold what was read is that of the files. -/
theorem built_of_current {e : Engine R} {rules : R}
    (h : Told parser rulesPath e.reads (.pure (.ok e.rules))) (hcurrent : s.Current e.reads)
    (hparse : s.parseNow parser rulesPath = .ok rules) : e.rules = rules :=
  Except.ok.inj ((parseNow_of_current h hcurrent).symm.trans hparse)

theorem told_start : Told parser rulesPath [] (parser rulesPath) := rfl

/-- One more read. -/
theorem told_read {r : Parse R} {path : String}
    {rest : Option (List UInt8) → Prog (Lookup String (Option (List UInt8))) (Except String R)}
    (h : Told parser rulesPath r.reads r.rest) (hrest : r.rest = .op (.get path) rest)
    (v : Option (List UInt8)) (n : ℕ) :
    Told parser rulesPath (r.reads ++ [⟨path, v, n⟩]) (rest v) := by
  rw [Told, hrest] at h
  rw [Told, record, List.map_append]
  exact Lookup.replay_snoc h v

theorem inv_start (files : String → Option RuleFile) :
    (start parser rulesPath files).Inv parser rulesPath := by
  refine ⟨?_, by simp [start], by simp [start], by simp [start], by simp [start, HotReloaded]⟩
  intro c r hr
  obtain rfl := running_start hr
  exact told_start

/-- A call begins. -/
theorem Inv.told_call (h : s.Inv parser rulesPath) {c c' : Caller} {r : Parse R}
    (hr : (s.call parser rulesPath c).running c' = some r) :
    Told parser rulesPath r.reads r.rest := by
  rcases running_call hr with ⟨-, rfl⟩ | hr
  · exact told_start
  · exact h.told c' r hr

theorem Inv.read (h : s.Inv parser rulesPath) {c : Caller} {r : Parse R} {path : String}
    {rest : Option (List UInt8) → Prog (Lookup String (Option (List UInt8))) (Except String R)}
    (hrun : s.running c = some r) (hrest : r.rest = .op (.get path) rest) :
    (s.read c r path rest).Inv parser rulesPath := by
  refine ⟨fun c' r' hr' => ?_, h.engine, h.started, fun hundisturbed r' hr' => ?_, h.hotReloaded⟩
  · rcases running_read hr' with ⟨rfl, rfl⟩ | hr'
    · exact told_read (h.told _ r hrun) hrest _ _
    · exact h.told c' r' hr'
  · rcases running_read hr' with ⟨rfl, rfl⟩ | hr'
    · intro x hx
      rcases List.mem_append.mp hx with hx | hx
      · exact h.poll hundisturbed r hrun x hx
      · obtain rfl := List.mem_singleton.mp hx
        rfl
    · exact h.poll hundisturbed r' hr'

theorem Inv.install (h : s.Inv parser rulesPath) {c : Caller} {r : Parse R} {rules : R}
    (hrun : s.running c = some r) (hrest : r.rest = .pure (.ok rules))
    (hwatched : s.Watched rulesPath (.parse c)) :
    (s.install c ⟨rules, r.reads⟩).Inv parser rulesPath := by
  have htold : Told parser rulesPath r.reads (.pure (.ok rules)) := hrest ▸ h.told c r hrun
  refine ⟨?_, ?_, fun _ => rfl, ?_, ?_⟩
  · intro c' r' hr'
    obtain ⟨r'', hr'', rfl⟩ := running_install hr'
    exact h.told c' r'' hr''
  · intro e he
    obtain rfl := Option.some.inj he
    exact htold
  · intro hundisturbed r' hr'
    obtain ⟨r'', hr'', rfl⟩ := running_install hr'
    exact h.poll hundisturbed r'' hr''
  · intro hsettled rules' hparse
    refine ⟨_, rfl, ?_⟩
    refine built_of_current (s := s) htold ?_ hparse
    by_cases hc : c = .poll
    · subst hc
      exact h.poll hsettled r hrun
    · have hsettled' : s.settled = true := by
        rw [← hsettled]
        simp [RuleSystem.install, finish, hc]
      exact hwatched hc hsettled' r hrun (by rw [Parse.succeeds, hrest])

theorem Inv.fail (h : s.Inv parser rulesPath) {c : Caller} {r : Parse R} {e : String}
    (hrun : s.running c = some r) (hrest : r.rest = .pure (.error e)) :
    (s.finish c).Inv parser rulesPath := by
  refine ⟨fun c' r' hr' => h.told c' r' (running_finish hr'), h.engine, h.started,
    fun hundisturbed r' hr' => h.poll hundisturbed r' (running_finish hr'), ?_⟩
  · intro hsettled rules hparse
    by_cases hc : c = .poll
    · -- the files as they are do not parse
      subst hc
      have htold : Told parser rulesPath r.reads (.pure (.error e)) := hrest ▸ h.told _ r hrun
      have hfail : s.parseNow parser rulesPath = .error e :=
        parseNow_of_current htold (h.poll hsettled r hrun)
      have hparse' : s.parseNow parser rulesPath = .ok rules := hparse
      rw [hfail] at hparse'
      cases hparse'
    · have hsettled' : s.settled = true := by
        rw [← hsettled]
        simp [finish, hc]
      exact h.hotReloaded hsettled' rules hparse

theorem Inv.step (h : s.Inv parser rulesPath) (hwatched : s.Watched rulesPath l)
    (hst : s.step parser rulesPath l = some t) : t.Inv parser rulesPath := by
  cases moves_of_step hst with
  | edit path file =>
    exact ⟨h.told, h.engine, h.started, (by cases ·), (by cases ·)⟩
  | read hrun hrest => exact h.read hrun hrest
  | install hrun hrest => exact h.install hrun hrest hwatched
  | fail hrun hrest => exact h.fail hrun hrest
  | firstFingerprint hengine hlast =>
    exact ⟨h.told, h.engine, fun _ => hengine, h.poll, h.hotReloaded⟩
  | unchanged hlast hidle =>
    refine ⟨h.told, h.engine, h.started, h.poll, fun _ rules hparse => ?_⟩
    have hstarted : s.lastFp ≠ none := by
      rw [hlast]
      exact Option.some_ne_none _
    obtain ⟨e, he⟩ := Option.isSome_iff_exists.mp (h.started hstarted)
    exact ⟨e, he, built_of_current (h.engine e he) (hwatched hlast e he) hparse⟩
  | changed hlast hne hidle =>
    refine ⟨fun c r hr => h.told_call hr, h.engine, h.started, fun _ r hr => ?_, h.hotReloaded⟩
    have hcall : (s.call parser rulesPath .poll).running .poll = some r := hr
    rcases running_call hcall with ⟨-, rfl⟩ | hr
    · exact fun x hx => by cases hx
    · exact absurd (hidle.symm.trans hr) (Option.some_ne_none r).symm
  | forceReload hengine hidle =>
    refine ⟨fun c r hr => h.told_call hr, h.engine, h.started, fun hundisturbed r hr => ?_,
      h.hotReloaded⟩
    rcases running_call hr with ⟨hc, -⟩ | hr
    · cases hc
    · exact h.poll hundisturbed r hr

/-- **When all edits get through.** In every run of edits, ticks and forced reloads that meets the
condition, the engine in force is the one of the files as they are, once a whole tick has passed
since the last edit, if these files parse. -/
theorem hotReload_of_along (parser : RuleParser R) (rulesPath : String)
    (files : String → Option RuleFile) (ls : List Label) (s : RuleSystem R)
    (hr : run (step parser rulesPath) (start parser rulesPath files) ls = some s)
    (hwatched : Along (step parser rulesPath) (Watched rulesPath) (start parser rulesPath files)
      ls) :
    s.HotReloaded parser rulesPath :=
  (invariant_of_along (fun _ _ _ h hw hst => Inv.step h hw hst) (inv_start files) hwatched
    hr).hotReloaded

/-! ### Runs -/

/-- The root, and one file that it includes. -/
def plainParser (included : String) : RuleParser (List UInt8) := fun root => do
  match ← Prog.call (.get root) with
  | none => return .error "not found"
  | some rules =>
    match ← Prog.call (.get included) with
    | none => return .error "include not found"
    | some more => return .ok (rules ++ more)

/-- Two rules files of the same time. -/
def plainFiles : String → Option RuleFile :=
  Function.update (Function.update (fun _ => none) "rules.waza" (some ⟨[1], 10⟩))
    "server.waza" (some ⟨[2], 10⟩)

/-- A whole parse. -/
def wholeParse (c : Caller) : List Label := [.parse c, .parse c, .parse c]

/-- A file gets another content, and a later time. -/
def edited (path : String) (content : List UInt8) (modified : ℕ) : Label :=
  .edit path (some ⟨content, modified⟩)

/-- What there was at a path, and what is put there. -/
def filesAt (files : String → Option RuleFile) (ls : List Label) (path : String) :
    List (Option RuleFile) :=
  files path :: ls.filterMap fun
    | .edit path' file => if path' = path then some file else none
    | _ => none

/-- Distinct contents of a file have distinct times and sizes. -/
def DistinctStamps (files : String → Option RuleFile) (ls : List Label) : Prop :=
  ∀ path, ∀ f ∈ filesAt files ls path, ∀ g ∈ filesAt files ls path,
    fingerprint f = fingerprint g → f.map RuleFile.content = g.map RuleFile.content

/-- The root is edited, and the tick after it reloads. -/
def rootEdited : List Label :=
  wholeParse .load ++ [Label.firstFingerprint, edited "rules.waza" [3] 20, Label.tick] ++
    wholeParse .poll

theorem rootEdited_hotReloaded : ∃ s, run (step (plainParser "server.waza") "rules.waza")
      (start (plainParser "server.waza") "rules.waza" plainFiles) rootEdited = some s ∧
    s.settled = true ∧ s.HotReloaded (plainParser "server.waza") "rules.waza" := by
  refine ⟨_, rfl, by decide +kernel, hotReload_of_along (plainParser "server.waza") "rules.waza"
    plainFiles rootEdited _ rfl (by decide +kernel)⟩

/-- The included file is edited. -/
def includedEdited : List Label :=
  wholeParse .load ++ [Label.firstFingerprint, edited "server.waza" [3] 20, Label.tick]

/-- The root is edited before the reload thread has taken its first fingerprint. -/
def editedEarly : List Label :=
  wholeParse .load ++ [edited "rules.waza" [3] 20, Label.firstFingerprint, Label.tick]

theorem distinctStamps_includedEdited : DistinctStamps plainFiles includedEdited := by
  intro path
  by_cases hpath : path = "server.waza"
  · subst hpath
    decide +kernel
  · have hfiles : filesAt plainFiles includedEdited path = [plainFiles path] := by
      simp [filesAt, includedEdited, edited, wholeParse, eq_comm, hpath]
    simp [hfiles]

theorem distinctStamps_editedEarly : DistinctStamps plainFiles editedEarly := by
  intro path
  by_cases hpath : path = "rules.waza"
  · subst hpath
    decide +kernel
  · have hfiles : filesAt plainFiles editedEarly path = [plainFiles path] := by
      simp [filesAt, editedEarly, edited, wholeParse, eq_comm, hpath]
    simp [hfiles]

/-- **Edits that are not seen**: of a file that is included, and of the root before its first
fingerprint. A whole tick later the engine is still the one that was loaded, although the files
parse, and distinct contents have distinct times. -/
theorem edits_not_seen :
    (DistinctStamps plainFiles includedEdited ∧
      ∃ s, run (step (plainParser "server.waza") "rules.waza")
          (start (plainParser "server.waza") "rules.waza" plainFiles) includedEdited = some s ∧
        s.parseNow (plainParser "server.waza") "rules.waza" = .ok [1, 3] ∧
        ¬s.HotReloaded (plainParser "server.waza") "rules.waza") ∧
    DistinctStamps plainFiles editedEarly ∧
      ∃ s, run (step (plainParser "server.waza") "rules.waza")
          (start (plainParser "server.waza") "rules.waza" plainFiles) editedEarly = some s ∧
        s.parseNow (plainParser "server.waza") "rules.waza" = .ok [3, 2] ∧
        ¬s.HotReloaded (plainParser "server.waza") "rules.waza" := by
  refine ⟨⟨distinctStamps_includedEdited, _, rfl, rfl, fun h => ?_⟩,
    distinctStamps_editedEarly, _, rfl, rfl, fun h => ?_⟩
  · obtain ⟨e, he, hrules⟩ := h rfl [1, 3] rfl
    obtain rfl := Option.some.inj he
    exact absurd hrules (by decide)
  · obtain ⟨e, he, hrules⟩ := h rfl [3, 2] rfl
    obtain rfl := Option.some.inj he
    exact absurd hrules (by decide)

end RuleSystem

end Detection

end WazabiAgent
