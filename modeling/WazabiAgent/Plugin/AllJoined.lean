import WazabiAgent.Plugin.OneProcess

/-!
# The threads that `shutdown` joins

`SupervisorHandle::shutdown` takes the list of handles once and joins what it has taken. The watcher
is in that list, so the scan that it is in comes to its end before `shutdown` returns. What the scan
starts meanwhile goes into a list that nobody takes again, although the comment of `shutdown` counts
it in.

## Main definitions

* `Fleet.AllJoined` — `shutdown` has returned, and no thread is left
* `Fleet.PushesInTime` — no running thread goes into the list after it has been taken

## Main results

* `allJoined_of_along` — then `shutdown` leaves none
* `spawn_after_shutdown` — a scan in progress, and a thread starts its plugin after `shutdown`
-/

namespace WazabiAgent

namespace Plugin

/-- `shutdown` has taken the list. -/
def MainPlace.Taken : MainPlace → Prop
  | .joining _ | .returned => True
  | .initialScan | .pushingWatcher | .running => False

instance (p : MainPlace) : Decidable p.Taken :=
  match p with
  | .joining _ | .returned => inferInstanceAs (Decidable True)
  | .initialScan | .pushingWatcher | .running => inferInstanceAs (Decidable False)

namespace Fleet

open LabelledStep

/-- When `shutdown` has returned, all threads have ended, and there is nobody to start another. -/
def AllJoined (s : Fleet) : Prop :=
  s.main = .returned →
    (∀ th ∈ s.threads, th.place = .done) ∧ s.watcher = .exited ∧ s.scan = none

/-- A handle that the scan is about to push is that of a thread that has ended, or the list has not
been taken. -/
def PushesAt (s : Fleet) : Option Scan → Prop
  | some (.pushing i _) => s.main.Taken → s.Joinable (.supervisor i)
  | _ => True

/-- The condition on a step. -/
def PushesInTime (s : Fleet) : Label → Prop
  | .scan _ => s.PushesAt s.scan
  | _ => True

instance (s : Fleet) (scan : Option Scan) : Decidable (s.PushesAt scan) := by
  unfold PushesAt
  split <;> infer_instance

instance (s : Fleet) (l : Label) : Decidable (s.PushesInTime l) := by
  unfold PushesInTime
  split <;> infer_instance

/-! ### The invariant -/

/-- The handles that `shutdown` has still to join. -/
def toJoin (s : Fleet) : List Handle :=
  match s.main with
  | .initialScan | .pushingWatcher | .running => s.handles
  | .joining rest => rest
  | .returned => []

/-- Whatever was started will be joined. -/
structure JoinInv (s : Fleet) : Prop where
  /-- A thread will be joined, unless it has ended or its handle is still to be pushed. -/
  listed : ∀ (i : ℕ) (th : Supervision), s.threads[i]? = some th →
    th.place = .done ∨ .supervisor i ∈ s.toJoin ∨ ∃ todo, s.scan = some (.pushing i todo)
  /-- And so will the watcher. -/
  watched : s.main ≠ .initialScan → s.main ≠ .pushingWatcher →
    s.watcher = .exited ∨ .watcher ∈ s.toJoin
  /-- A scan is that of the start, or of the watcher. -/
  scanned : s.scan ≠ none →
    (s.main = .initialScan ∧ s.watcher = .unborn) ∨ s.watcher = .scanning

variable {s t : Fleet} {l : Label} {i : ℕ} {th : Supervision} {c : Choice}

theorem joinInv_start : start.JoinInv where
  listed _ _ h := by simp [start] at h
  watched h := absurd rfl h
  scanned _ := .inl ⟨rfl, rfl⟩

theorem toJoin_of_not_taken (h : ¬s.main.Taken) : s.toJoin = s.handles := by
  rw [toJoin]
  split <;> first | rfl | simp_all [MainPlace.Taken]

/-- After `shutdown` nothing is left to join, so nothing is left. -/
theorem JoinInv.allJoined (h : s.JoinInv) : s.AllJoined := by
  intro hmain
  have hempty : s.toJoin = [] := by rw [toJoin, hmain]
  have hwatcher : s.watcher = .exited := by
    refine (h.watched (by rw [hmain]; exact MainPlace.noConfusion)
      (by rw [hmain]; exact MainPlace.noConfusion)).resolve_right fun hmem => ?_
    rw [hempty] at hmem
    cases hmem
  have hscan : s.scan = none := by
    by_contra hscan
    rcases h.scanned hscan with ⟨hinitial, -⟩ | hscanning
    · rw [hmain] at hinitial
      cases hinitial
    · rw [hwatcher] at hscanning
      cases hscanning
  refine ⟨fun th hth => ?_, hwatcher, hscan⟩
  obtain ⟨i, hi⟩ := List.getElem?_of_mem hth
  rcases h.listed i th hi with hdone | hmem | ⟨todo, hpushing⟩
  · exact hdone
  · rw [hempty] at hmem
    cases hmem
  · rw [hscan] at hpushing
    cases hpushing

/-! ### Steps -/

/-- A step that leaves the lists and the scan, and starts no thread over. -/
theorem JoinInv.frame (h : s.JoinInv)
    (hthreads : ∀ (j : ℕ) (ph : Supervision), t.threads[j]? = some ph →
      ∃ th, s.threads[j]? = some th ∧ (th.place = .done → ph.place = .done))
    (hmain : t.main = s.main) (hhandles : t.handles = s.handles) (hscan : t.scan = s.scan)
    (hwatcher : t.watcher = s.watcher) : t.JoinInv := by
  have htoJoin : t.toJoin = s.toJoin := by rw [toJoin, toJoin, hmain, hhandles]
  refine ⟨fun j ph hj => ?_, ?_, ?_⟩
  · obtain ⟨th, hth, hdone⟩ := hthreads j ph hj
    rw [htoJoin, hscan]
    exact (h.listed j th hth).imp_left hdone
  · rw [hmain, htoJoin, hwatcher]
    exact h.watched
  · rw [hmain, hscan, hwatcher]
    exact h.scanned

theorem ThreadMove.frame (h : s.ThreadMove i th c t) :
    (∃ ph, t.threads = s.threads.set i ph) ∧ t.main = s.main ∧ t.handles = s.handles ∧
      t.scan = s.scan ∧ t.watcher = s.watcher := by
  cases h <;> exact ⟨⟨_, rfl⟩, rfl, rfl, rfl, rfl⟩

theorem JoinInv.thread (h : s.JoinInv) (hmove : s.ThreadMove i th c t) (hi : s.Active i th) :
    t.JoinInv := by
  obtain ⟨⟨ph, hthreads⟩, hmain, hhandles, hscan, hwatcher⟩ := hmove.frame
  refine h.frame (fun j ph' hj => ?_) hmain hhandles hscan hwatcher
  rw [hthreads, getElem?_set hi.1] at hj
  split_ifs at hj with hji
  · subst hji
    exact ⟨th, hi.1, fun hdone => absurd hdone hi.2⟩
  · exact ⟨ph', hj, id⟩

/-- The scan goes on from a place where it has no handle in its hands. -/
theorem JoinInv.rescan {scan : Scan} (h : s.JoinInv) (hscan : s.scan = some scan)
    (hpushing : ∀ j todo, scan ≠ .pushing j todo) (hthreads : t.threads = s.threads)
    (hmain : t.main = s.main) (hhandles : t.handles = s.handles)
    (hwatcher : t.watcher = s.watcher) : t.JoinInv := by
  have htoJoin : t.toJoin = s.toJoin := by rw [toJoin, toJoin, hmain, hhandles]
  refine ⟨fun j th hj => ?_, ?_, fun _ => ?_⟩
  · rw [hthreads] at hj
    rcases h.listed j th hj with hdone | hmem | ⟨todo, hscan'⟩
    · exact .inl hdone
    · exact .inr (.inl (htoJoin ▸ hmem))
    · exact absurd (Option.some.inj (hscan.symm.trans hscan')) (hpushing j todo)
  · rw [hmain, htoJoin, hwatcher]
    exact h.watched
  · rw [hmain, hwatcher]
    exact h.scanned (by rw [hscan]; exact Option.some_ne_none _)

theorem JoinInv.scan {scan : Scan} (h : s.JoinInv) (hscan : s.scan = some scan)
    (hok : s.PushesAt (some scan)) (load : Option ManifestStore) :
    (s.stepScan load scan).JoinInv := by
  have hscanned := h.scanned (by rw [hscan]; exact Option.some_ne_none _)
  cases scan with
  | loading => exact h.rescan hscan (fun _ _ => Scan.noConfusion) rfl rfl rfl rfl
  | filtering store => exact h.rescan hscan (fun _ _ => Scan.noConfusion) rfl rfl rfl rfl
  | launching todo =>
    cases todo <;> exact h.rescan hscan (fun _ _ => Scan.noConfusion) rfl rfl rfl rfl
  | inserted m todo =>
    refine ⟨fun j th hj => ?_, h.watched, fun _ => hscanned⟩
    simp only [stepScan, List.getElem?_append] at hj
    split_ifs at hj with hlt
    · rcases h.listed j th hj with hdone | hmem | ⟨todo', hscan'⟩
      · exact .inl hdone
      · exact .inr (.inl hmem)
      · rw [hscan] at hscan'
        cases hscan'
    · -- the new thread
      rw [List.getElem?_singleton] at hj
      split_ifs at hj with hzero
      obtain rfl : j = s.threads.length := by omega
      exact .inr (.inr ⟨todo, rfl⟩)
  | pushing i todo =>
    have hsub : ∀ x ∈ s.toJoin, x ∈ (s.stepScan load (.pushing i todo)).toJoin := by
      intro x hx
      unfold toJoin stepScan at *
      split at hx <;> simp_all
    refine ⟨fun j th hj => ?_, fun hinitial hwatcher => ?_, fun _ => hscanned⟩
    · rcases h.listed j th hj with hdone | hmem | ⟨todo', hscan'⟩
      · exact .inl hdone
      · exact .inr (.inl (hsub _ hmem))
      · obtain ⟨rfl, rfl⟩ := Scan.pushing.inj (Option.some.inj (hscan.symm.trans hscan'))
        by_cases htaken : s.main.Taken
        · obtain ⟨th', hth', hdone⟩ := hok htaken
          obtain rfl : th = th' := Option.some.inj (hj.symm.trans hth')
          exact .inl hdone
        · refine .inr (.inl ?_)
          rw [toJoin_of_not_taken (s := s.stepScan load (.pushing i todo)) htaken]
          exact List.mem_append_right _ List.mem_cons_self
    · exact (h.watched hinitial hwatcher).imp_right (hsub _)

/-- `shutdown` goes on, with as much to join. -/
theorem JoinInv.goOn (h : s.JoinInv) (hinitial : s.main ≠ .initialScan)
    (hpushing : s.main ≠ .pushingWatcher) (htoJoin : t.toJoin = s.toJoin)
    (hthreads : t.threads = s.threads) (hscan : t.scan = s.scan)
    (hwatcher : t.watcher = s.watcher) : t.JoinInv := by
  refine ⟨?_, fun _ _ => ?_, fun hne => .inr ?_⟩
  · rw [hthreads, htoJoin, hscan]
    exact h.listed
  · rw [htoJoin, hwatcher]
    exact h.watched hinitial hpushing
  · rw [hscan] at hne
    rw [hwatcher]
    exact (h.scanned hne).resolve_left fun hs => hinitial hs.1

/-- A handle that has been joined is that of a thread that has ended. -/
theorem JoinInv.join {x : Handle} {rest : List Handle} (h : s.JoinInv)
    (hmain : s.main = .joining (x :: rest)) (hx : s.Joinable x) :
    { s with main := .joining rest : Fleet }.JoinInv := by
  have htoJoin : s.toJoin = x :: rest := by rw [toJoin, hmain]
  have hinitial : s.main ≠ .initialScan := by
    rw [hmain]
    exact MainPlace.noConfusion
  have hpushing : s.main ≠ .pushingWatcher := by
    rw [hmain]
    exact MainPlace.noConfusion
  refine ⟨fun j th hj => ?_, fun _ _ => ?_, fun hscan => .inr ?_⟩
  · rcases h.listed j th hj with hdone | hmem | hpushing
    · exact .inl hdone
    · rw [htoJoin] at hmem
      rcases List.mem_cons.mp hmem with rfl | hmem
      · obtain ⟨th', hth', hdone⟩ := hx
        obtain rfl : th = th' := Option.some.inj (hj.symm.trans hth')
        exact .inl hdone
      · exact .inr (.inl hmem)
    · exact .inr (.inr hpushing)
  · have hwatched := h.watched hinitial hpushing
    rw [htoJoin, List.mem_cons] at hwatched
    rcases hwatched with hexited | rfl | hmem
    · exact .inl hexited
    · exact .inl hx
    · exact .inr hmem
  · exact (h.scanned hscan).resolve_left fun hs => hinitial hs.1

theorem JoinInv.main (h : s.JoinInv) (hst : s.stepMain = some t) : t.JoinInv := by
  cases hmain : s.main with
  | initialScan =>
    simp only [stepMain, hmain] at hst
    split at hst
    · rename_i hscan
      obtain rfl := Option.some.inj hst
      refine ⟨fun j th hj => ?_, fun _ hne => absurd rfl hne, fun hne => absurd hscan hne⟩
      have hlisted := h.listed j th hj
      rwa [toJoin, hmain] at hlisted
    · cases hst
  | pushingWatcher =>
    simp only [stepMain, hmain] at hst
    obtain rfl := Option.some.inj hst
    refine ⟨fun j th hj => ?_, fun _ _ => .inr ?_, fun hscan => .inr ?_⟩
    · have hlisted := h.listed j th hj
      rw [toJoin, hmain] at hlisted
      exact hlisted.imp_right (Or.imp_left (List.mem_append_left _))
    · exact List.mem_append_right _ List.mem_cons_self
    · refine (h.scanned hscan).resolve_left fun hs => ?_
      rw [hmain] at hs
      cases hs.1
  | running =>
    simp only [stepMain, hmain] at hst
    obtain rfl := Option.some.inj hst
    refine h.goOn (by rw [hmain]; exact MainPlace.noConfusion)
      (by rw [hmain]; exact MainPlace.noConfusion) ?_ rfl rfl rfl
    rw [toJoin, toJoin, hmain]
  | joining list =>
    cases list with
    | nil =>
      simp only [stepMain, hmain] at hst
      obtain rfl := Option.some.inj hst
      refine h.goOn (by rw [hmain]; exact MainPlace.noConfusion)
        (by rw [hmain]; exact MainPlace.noConfusion) ?_ rfl rfl rfl
      rw [toJoin, toJoin, hmain]
    | cons x rest =>
      simp only [stepMain, hmain] at hst
      split_ifs at hst with hx
      obtain rfl := Option.some.inj hst
      exact h.join hmain hx
  | returned =>
    simp only [stepMain, hmain] at hst
    cases hst

/-- The watcher goes on, between two scans. -/
theorem JoinInv.between {w : WatcherPlace} (h : s.JoinInv) (hw : s.watcher ≠ .exited)
    (hscan : s.scan = none) : { s with watcher := w : Fleet }.JoinInv := by
  refine ⟨h.listed, fun hinitial hpushing => .inr ?_, fun hne => absurd hscan hne⟩
  exact (h.watched hinitial hpushing).resolve_left hw

theorem JoinInv.watch (h : s.JoinInv) (hst : s.stepWatcher = some t) : t.JoinInv := by
  have hnone (hunborn : s.watcher ≠ .unborn) (hscanning : s.watcher ≠ .scanning) :
      s.scan = none := by
    by_contra hscan
    rcases h.scanned hscan with ⟨-, hw⟩ | hw
    · exact hunborn hw
    · exact hscanning hw
  cases hw : s.watcher with
  | unborn | exited =>
    simp only [stepWatcher, hw] at hst
    cases hst
  | loopHead =>
    simp only [stepWatcher, hw] at hst
    obtain rfl := Option.some.inj hst
    refine h.between (by rw [hw]; exact WatcherPlace.noConfusion) (hnone ?_ ?_) <;>
      (rw [hw]; exact WatcherPlace.noConfusion)
  | sleeping =>
    have hscan : s.scan = none := by
      refine hnone ?_ ?_ <;> (rw [hw]; exact WatcherPlace.noConfusion)
    have hne : s.watcher ≠ .exited := by
      rw [hw]
      exact WatcherPlace.noConfusion
    simp only [stepWatcher, hw] at hst
    split_ifs at hst
    · obtain rfl := Option.some.inj hst
      exact h.between hne hscan
    · obtain rfl := Option.some.inj hst
      refine ⟨fun j th hj => ?_, fun hinitial hpushing => .inr ?_, fun _ => .inr rfl⟩
      · rcases h.listed j th hj with hdone | hmem | ⟨todo, hpushing⟩
        · exact .inl hdone
        · exact .inr (.inl hmem)
        · rw [hscan] at hpushing
          cases hpushing
      · exact (h.watched hinitial hpushing).resolve_left hne
  | scanning =>
    simp only [stepWatcher, hw] at hst
    split at hst
    · rename_i hscan
      obtain rfl := Option.some.inj hst
      exact h.between (by rw [hw]; exact WatcherPlace.noConfusion) hscan
    · cases hst

/-! ### Runs -/

theorem joinInv_step (h : s.JoinInv) (hok : s.PushesInTime l) (hst : s.step l = some t) :
    t.JoinInv := by
  cases l with
  | scan load =>
    obtain ⟨scan, hscan, rfl⟩ := Option.map_eq_some_iff.mp hst
    exact h.scan hscan (by rw [← hscan]; exact hok) load
  | main => exact h.main hst
  | watch => exact h.watch hst
  | thread i c =>
    obtain ⟨th, hi, hst⟩ := Option.bind_eq_some_iff.mp hst
    have hactive : s.Active i th := by
      refine ⟨hi, fun hdone => ?_⟩
      rw [hdone] at hst
      cases hst
    exact h.thread (threadMove_of_step hst) hactive
  | exits k =>
    simp only [step] at hst
    split_ifs at hst
    obtain rfl := Option.some.inj hst
    exact h.frame (fun j ph hj => ⟨ph, hj, id⟩) rfl rfl rfl rfl
  | raiseShutdown =>
    obtain rfl := Option.some.inj hst
    exact h.frame (fun j ph hj => ⟨ph, hj, id⟩) rfl rfl rfl rfl

/-- **`shutdown` joins everything**, in every run in which no handle of a running thread is pushed
after the list has been taken. If the threads moreover let go only of children that are over, no
plugin is left without a thread. -/
theorem allJoined_of_along (ls : List Label) (t : Fleet)
    (hok : Along step PushesInTime start ls) (hr : run step start ls = some t) :
    t.AllJoined ∧ (Along step LetsGo start ls → t.main = .returned →
      ∀ p ∈ t.processes, p.alive = false) := by
  have hinv : t.JoinInv :=
    invariant_of_along (fun _ _ _ h hok hst => joinInv_step h hok hst) joinInv_start hok hr
  refine ⟨hinv.allJoined, fun hlets hreturned p hp => ?_⟩
  have hheld : t.ThreadInv ∧ t.Held :=
    invariant_of_along (I := fun s => s.ThreadInv ∧ s.Held)
      (fun _ _ _ h hok hst => inv_step h hok hst) ⟨threadInv_start, held_start⟩ hlets hr
  by_contra hp'
  have halive : p.alive = true := by simpa using hp'
  obtain ⟨k, hk⟩ := List.getElem?_of_mem hp
  obtain ⟨i, th, hi, hchild, -⟩ := hheld.2 k p hk halive
  have hdone := (hinv.allJoined hreturned).1 th (List.mem_of_getElem? hi)
  exact ne_done_of_child hchild hdone

/-- The signal comes while the children run, and their threads wait for them. -/
def quietRun : List Label :=
  launchBoth ++ ([.main, .main, .watch, .raiseShutdown, .main] : List Label) ++ turns [0, 1] ++
    ([.watch, .exits 0, .exits 1] : List Label) ++ turns [0, 1, 0, 1, 0, 1] ++
    List.replicate 4 Label.main

theorem quietRun_allJoined : ∃ t, run step start quietRun = some t ∧ t.main = .returned ∧
    t.threads.length = 2 ∧ t.AllJoined ∧ ∀ p ∈ t.processes, p.alive = false :=
  have h := allJoined_of_along quietRun _ (by decide +kernel) rfl
  ⟨_, rfl, rfl, rfl, h.1, h.2 (by decide +kernel) rfl⟩

/-- The watcher starts a thread, and the list is taken before its handle is pushed. -/
def lateRun : List Label :=
  ([.scan none, .main, .main, .watch, .watch] : List Label) ++ scans 4 (some twoPlugins) ++
    turns [0] ++ ([.raiseShutdown, .main] : List Label) ++ scans 5 none ++
    ([.watch, .watch, .main, .main] : List Label)

/-- **A plugin is started after `shutdown`**: by a thread that was not joined. -/
theorem spawn_after_shutdown : ∃ t u, run step start lateRun = some t ∧ t.main = .returned ∧
    ¬t.AllJoined ∧ t.step (.thread 0 {}) = some u ∧ t.processes = [] ∧
    u.processes = [⟨"hook", true⟩] := by
  refine ⟨_, _, rfl, rfl, fun h => ?_, rfl, rfl, rfl⟩
  have hdone := (h rfl).1 _ List.mem_cons_self
  cases hdone

end Fleet

end Plugin

end WazabiAgent
