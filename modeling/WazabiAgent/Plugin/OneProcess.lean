import WazabiAgent.Plugin.Fleet

/-!
# One process for each plugin

No plugin may have two processes at a time. That is the work of two things together: the set
`supervised`, by which a plugin has at most one thread, and the handle of the child, of which a
thread has one. The thread lets go of the handle where it takes the child to be over.

It can be wrong about that. A `try_wait` that fails counts as an exit, and the result of
`child.wait` after a kill is not looked at. And a thread that takes up a changed manifest takes its
`plugin_id` too, which is checked against the name of the file when the directory is scanned and not
when a thread reads the file again.

## Main definitions

* `Fleet.OneProcess` — at most one live process for each id
* `Fleet.LetsGo` — a thread lets go only of a child that is over

## Main results

* `oneProcess_of_along` — then there is one at a time
* `two_processes` — a `try_wait` that fails, and there are two
-/

namespace WazabiAgent

namespace Plugin

namespace Fleet

open LabelledStep

/-- Two live processes have different ids. -/
def OneProcess (s : Fleet) : Prop :=
  ∀ (j k : ℕ) (p q : Process), s.processes[j]? = some p → s.processes[k]? = some q →
    p.alive = true → q.alive = true → p.pluginId = q.pluginId → j = k

/-- A manifest that is taken up is one of the plugin. -/
def KeepsId (pluginId : String) : WaitOutcome → Prop
  | .updated m => m.pluginId = pluginId
  | _ => True

/-- A call that would tell whether the child is over fails only if it is. -/
def LetsGoAt (s : Fleet) (c : Choice) (th : Supervision) : Prop :=
  match th.place with
  | .waiting k => c.fails = true → ¬s.Alive k
  | .reaping k outcome => (c.fails = true → ¬s.Alive k) ∧ KeepsId th.pluginId outcome
  | _ => True

/-- The condition on a step. -/
def LetsGo (s : Fleet) : Label → Prop
  | .thread i c => ∀ th ∈ s.threads[i]?, s.LetsGoAt c th
  | _ => True

instance (pluginId : String) (o : WaitOutcome) : Decidable (KeepsId pluginId o) := by
  unfold KeepsId
  split <;> infer_instance

instance (s : Fleet) (c : Choice) (th : Supervision) : Decidable (s.LetsGoAt c th) := by
  unfold LetsGoAt
  split <;> infer_instance

instance (s : Fleet) (l : Label) : Decidable (s.LetsGo l) := by
  unfold LetsGo
  split <;> infer_instance

/-! ### The invariant -/

/-- A thread that has not ended. -/
def Active (s : Fleet) (i : ℕ) (th : Supervision) : Prop :=
  s.threads[i]? = some th ∧ th.place ≠ .done

/-- The plugins that a scan is still to enter. -/
def todo : Option Scan → List PluginManifest
  | some (.launching todo) | some (.inserted _ todo) | some (.pushing _ todo) => todo
  | _ => []

/-- Between the threads and the set. -/
structure ThreadInv (s : Fleet) : Prop where
  entered : ∀ i th, s.Active i th → th.pluginId ∈ s.supervised
  distinct : ∀ i j th ph, s.Active i th → s.Active j ph → th.pluginId = ph.pluginId → i = j
  current : ∀ (i : ℕ) (th : Supervision), s.threads[i]? = some th →
    th.current.pluginId = th.pluginId
  /-- What a scan is still to enter is not in the set. -/
  pending : (todo s.scan).Pairwise fun m n => m.pluginId ≠ n.pluginId
  absent : ∀ m ∈ todo s.scan, m.pluginId ∉ s.supervised
  /-- What it has entered has no thread yet. -/
  inserted : ∀ m rest, s.scan = some (.inserted m rest) →
    m.pluginId ∈ s.supervised ∧ ∀ i th, s.Active i th → th.pluginId ≠ m.pluginId

/-- A live process is in the hands of a thread. -/
def Held (s : Fleet) : Prop :=
  ∀ (k : ℕ) (p : Process), s.processes[k]? = some p → p.alive = true →
    ∃ (i : ℕ) (th : Supervision), s.threads[i]? = some th ∧ th.place.child = some k ∧
      th.pluginId = p.pluginId

variable {s t : Fleet} {l : Label} {i : ℕ} {th ph : Supervision} {c : Choice}

theorem ne_done_of_child {p : Place} {k : ℕ} (h : p.child = some k) : p ≠ .done := by
  rintro rfl
  cases h

/-- A plugin has one thread, and the thread has one child. -/
theorem oneProcess_of_inv (h : s.ThreadInv) (hheld : s.Held) : s.OneProcess := by
  intro j k p q hj hk hp hq hid
  obtain ⟨i, th, hi, hchild, hth⟩ := hheld j p hj hp
  obtain ⟨i', th', hi', hchild', hth'⟩ := hheld k q hk hq
  obtain rfl : i = i' := h.distinct i i' th th' ⟨hi, ne_done_of_child hchild⟩
    ⟨hi', ne_done_of_child hchild'⟩ (by rw [hth, hth', hid])
  obtain rfl : th = th' := Option.some.inj (hi.symm.trans hi')
  exact Option.some.inj (hchild.symm.trans hchild')

theorem threadInv_start : start.ThreadInv where
  entered _ _ h := by simp [Active, start] at h
  distinct _ _ _ _ h := by simp [Active, start] at h
  current _ _ h := by simp [start] at h
  pending := .nil
  absent _ h := by simp [start, todo] at h
  inserted _ _ h := by simp [start] at h

theorem held_start : start.Held := fun _ _ h => by simp [start] at h

/-! ### A thread moves -/

theorem getElem?_set {α : Type} {xs : List α} {a b : α} (h : xs[i]? = some a) (j : ℕ) :
    (xs.set i b)[j]? = if j = i then some b else xs[j]? := by
  have hlt : i < xs.length := (List.getElem?_eq_some_iff.mp h).1
  rw [List.getElem?_set]
  split_ifs with hji hij hij
  · rfl
  · exact absurd hji.symm hij
  · exact absurd hij.symm hji
  · rfl

/-- The active threads after the move are the one that moved and the others. -/
theorem active_set (hi : s.threads[i]? = some th) (ht : t.threads = s.threads.set i ph) {j : ℕ}
    {th' : Supervision} (h : t.Active j th') :
    (j = i ∧ th' = ph) ∨ (j ≠ i ∧ s.Active j th') := by
  obtain ⟨hj, hplace⟩ := h
  rw [ht, getElem?_set hi] at hj
  split_ifs at hj with hji
  · exact .inl ⟨hji, (Option.some.inj hj).symm⟩
  · exact .inr ⟨hji, hj, hplace⟩

theorem ThreadInv.set (h : s.ThreadInv) (hi : s.Active i th) (ht : t.threads = s.threads.set i ph)
    (hid : ph.pluginId = th.pluginId) (hcurrent : ph.current.pluginId = ph.pluginId)
    (hsupervised : t.supervised = s.supervised) (hscan : t.scan = s.scan) : t.ThreadInv where
  entered j th' hj := by
    rw [hsupervised]
    rcases active_set hi.1 ht hj with ⟨rfl, rfl⟩ | ⟨-, hj⟩
    · exact hid ▸ h.entered j th hi
    · exact h.entered j th' hj
  distinct j k th₁ th₂ hj hk heq := by
    rcases active_set hi.1 ht hj with ⟨rfl, rfl⟩ | ⟨-, hj⟩ <;>
      rcases active_set hi.1 ht hk with ⟨rfl, rfl⟩ | ⟨-, hk⟩
    · rfl
    · exact h.distinct j k th th₂ hi hk (hid.symm.trans heq)
    · exact h.distinct j k th₁ th hj hi (heq.trans hid)
    · exact h.distinct j k th₁ th₂ hj hk heq
  current j th' hj := by
    rw [ht, getElem?_set hi.1] at hj
    split_ifs at hj
    · obtain rfl := Option.some.inj hj
      exact hcurrent
    · exact h.current j th' hj
  pending := by
    rw [hscan]
    exact h.pending
  absent := by
    rw [hscan, hsupervised]
    exact h.absent
  inserted m rest hm := by
    rw [hscan] at hm
    obtain ⟨hmem, hnone⟩ := h.inserted m rest hm
    refine ⟨hsupervised ▸ hmem, fun j th' hj => ?_⟩
    rcases active_set hi.1 ht hj with ⟨rfl, rfl⟩ | ⟨-, hj⟩
    · exact hid ▸ hnone j th hi
    · exact hnone j th' hj

/-- The thread ends, and its plugin leaves the set. -/
theorem ThreadInv.finish (h : s.ThreadInv) (hi : s.Active i th)
    (ht : t.threads = s.threads.set i { th with place := .done })
    (hsupervised : t.supervised = s.supervised.filter (· ≠ th.pluginId))
    (hscan : t.scan = s.scan) : t.ThreadInv := by
  have hactive {j : ℕ} {th' : Supervision} (hj : t.Active j th') : j ≠ i ∧ s.Active j th' := by
    rcases active_set hi.1 ht hj with ⟨rfl, rfl⟩ | hother
    · exact absurd rfl hj.2
    · exact hother
  refine ⟨fun j th' hj => ?_, fun j k th₁ th₂ hj hk heq => ?_, fun j th' hj => ?_, ?_, ?_,
    fun m rest hm => ?_⟩
  · obtain ⟨hne, hj⟩ := hactive hj
    rw [hsupervised, List.mem_filter, decide_eq_true_eq]
    exact ⟨h.entered j th' hj, fun heq => hne (h.distinct j i th' th hj hi heq)⟩
  · exact h.distinct j k th₁ th₂ (hactive hj).2 (hactive hk).2 heq
  · rw [ht, getElem?_set hi.1] at hj
    split_ifs at hj
    · obtain rfl := Option.some.inj hj
      exact h.current i th hi.1
    · exact h.current j th' hj
  · rw [hscan]
    exact h.pending
  · rw [hscan, hsupervised]
    exact fun m hm hmem => h.absent m hm (List.mem_filter.mp hmem).1
  · rw [hscan] at hm
    obtain ⟨hmem, hnone⟩ := h.inserted m rest hm
    refine ⟨?_, fun j th' hj => hnone j th' (hactive hj).2⟩
    rw [hsupervised, List.mem_filter, decide_eq_true_eq]
    exact ⟨hmem, (hnone i th hi).symm⟩

/-- The live processes stay in the hands they were in, but for those that the thread takes or lets
go. -/
theorem Held.set (h : s.Held) (hi : s.threads[i]? = some th)
    (ht : t.threads = s.threads.set i ph) (hid : ph.pluginId = th.pluginId)
    (hp : ∀ (k : ℕ) (p : Process), t.processes[k]? = some p → p.alive = true →
      (ph.place.child = some k ∧ ph.pluginId = p.pluginId) ∨
        s.processes[k]? = some p ∧ (th.place.child = some k → ph.place.child = some k)) :
    t.Held := by
  intro k p hk halive
  have hself : t.threads[i]? = some ph := by rw [ht, getElem?_set hi, if_pos rfl]
  rcases hp k p hk halive with ⟨hchild, hplugin⟩ | ⟨hk, hkept⟩
  · exact ⟨i, ph, hself, hchild, hplugin⟩
  · obtain ⟨j, th', hj, hchild, hplugin⟩ := h k p hk halive
    by_cases hji : j = i
    · subst hji
      obtain rfl : th = th' := Option.some.inj (hi.symm.trans hj)
      exact ⟨j, ph, hself, hkept hchild, hid.trans hplugin⟩
    · exact ⟨j, th', by rw [ht, getElem?_set hi, if_neg hji]; exact hj, hchild, hplugin⟩

theorem alive_of_getElem? {k : ℕ} {p : Process} (hk : s.processes[k]? = some p)
    (halive : p.alive = true) : s.Alive k := ⟨p, hk, halive⟩

/-- What is alive after a process has ended was alive before. -/
theorem getElem?_endProcess {k j : ℕ} {p : Process} (hj : (s.endProcess k).processes[j]? = some p)
    (halive : p.alive = true) : s.processes[j]? = some p := by
  simp only [endProcess, List.getElem?_modify, Option.map_eq_map, Option.map_eq_some_iff] at hj
  obtain ⟨q, hq, heq⟩ := hj
  split_ifs at heq
  · rw [← heq] at halive
    cases halive
  · rw [hq, ← heq]

theorem ThreadMove.inv {t : Fleet} (hmove : s.ThreadMove i th c t) (h : s.ThreadInv)
    (hheld : s.Held) (hi : s.Active i th) (hok : s.LetsGo (.thread i c)) :
    t.ThreadInv ∧ t.Held := by
  have hcurrent := h.current i th hi.1
  have hok' : s.LetsGoAt c th := hok th hi.1
  rw [LetsGoAt] at hok'
  cases hmove with
  | go hchild hplace =>
    refine ⟨h.set hi rfl rfl hcurrent rfl rfl, hheld.set hi.1 rfl rfl fun k p hk _ => ?_⟩
    exact .inr ⟨hk, fun hk => hchild.trans hk⟩
  | spawn hplace =>
    refine ⟨h.set hi rfl rfl hcurrent rfl rfl, hheld.set hi.1 rfl rfl fun k p hk _ => ?_⟩
    rw [List.getElem?_append] at hk
    split_ifs at hk with hlt
    · refine .inr ⟨hk, fun hchild => ?_⟩
      rw [hplace] at hchild
      cases hchild
    · -- the new process
      obtain ⟨hle, hk⟩ : k = s.processes.length ∧ ⟨th.current.pluginId, true⟩ = p := by
        rw [List.getElem?_singleton] at hk
        split_ifs at hk with hzero
        exact ⟨by omega, Option.some.inj hk⟩
      exact .inl ⟨by rw [hle]; rfl, by rw [← hk]; exact hcurrent.symm⟩
  | @drop k₀ p₀ hchild hp₀ hplace hover =>
    refine ⟨h.set hi rfl rfl hcurrent rfl rfl, hheld.set hi.1 rfl rfl fun k p hk halive => ?_⟩
    refine .inr ⟨hk, fun hk' => ?_⟩
    obtain rfl : k₀ = k := Option.some.inj (hchild.symm.trans hk')
    have hlive := alive_of_getElem? hk halive
    obtain ⟨hfails, hplace | ⟨o, hplace⟩⟩ := hover hlive
    · rw [hplace] at hok'
      exact absurd hlive (hok' hfails)
    · rw [hplace] at hok'
      exact absurd hlive (hok'.1 hfails)
  | @update k₀ m hplace hover =>
    rw [hplace] at hok'
    have hm : m.pluginId = th.pluginId := hok'.2
    refine ⟨h.set hi rfl rfl hm rfl rfl, hheld.set hi.1 rfl rfl fun k p hk halive => ?_⟩
    refine .inr ⟨hk, fun hk' => ?_⟩
    rw [hplace] at hk'
    obtain rfl : k₀ = k := Option.some.inj hk'
    have hlive := alive_of_getElem? hk halive
    exact absurd hlive (hok'.1 (hover hlive))
  | @kill k₀ o hplace =>
    refine ⟨h.set hi rfl rfl hcurrent rfl rfl, hheld.set hi.1 rfl rfl fun k p hk halive => ?_⟩
    refine .inr ⟨getElem?_endProcess (s := s) hk halive, fun hk' => ?_⟩
    rw [hplace] at hk'
    exact hk'
  | finish hplace =>
    refine ⟨h.finish hi rfl rfl rfl, hheld.set hi.1 rfl rfl fun k p hk _ => ?_⟩
    refine .inr ⟨hk, fun hk' => ?_⟩
    rw [hplace] at hk'
    cases hk'

/-! ### The others -/

theorem mem_toLaunch {store : ManifestStore} {m : PluginManifest} (hm : m ∈ s.toLaunch store) :
    m.pluginId ∉ s.supervised := by
  have hm' := (List.mem_filter.mp hm).2
  rw [Bool.and_eq_true, decide_eq_true_eq] at hm'
  exact hm'.2

theorem pairwise_toLaunch (s : Fleet) (store : ManifestStore) :
    (s.toLaunch store).Pairwise fun m n => m.pluginId ≠ n.pluginId := by
  refine List.Pairwise.filter _ (List.pairwise_map.mpr ?_)
  exact List.pairwise_map.mp store.nodup

/-- A scan takes a step. -/
theorem ThreadInv.scan {scan : Scan} (h : s.ThreadInv) (hscan : s.scan = some scan)
    (load : Option ManifestStore) : (s.stepScan load scan).ThreadInv := by
  have hpending := h.pending
  have habsent := h.absent
  rw [hscan] at hpending habsent
  cases scan with
  | loading =>
    cases load with
    | none =>
      exact ⟨h.entered, h.distinct, h.current, .nil, by simp [stepScan, todo], by simp [stepScan]⟩
    | some store =>
      exact ⟨h.entered, h.distinct, h.current, .nil, by simp [stepScan, todo], by simp [stepScan]⟩
  | filtering store =>
    exact ⟨h.entered, h.distinct, h.current, s.pairwise_toLaunch store, fun m hm => mem_toLaunch hm,
      by simp [stepScan]⟩
  | launching list =>
    cases list with
    | nil =>
      exact ⟨h.entered, h.distinct, h.current, .nil, by simp [stepScan, todo], by simp [stepScan]⟩
    | cons m rest =>
      obtain ⟨hne, hrest⟩ := List.pairwise_cons.mp hpending
      have hm : m.pluginId ∉ s.supervised := habsent m List.mem_cons_self
      refine ⟨fun j th hj => ?_, h.distinct, h.current, hrest, fun n hn hmem => ?_,
        fun m' rest' hm' => ?_⟩
      · exact List.mem_insert_of_mem (h.entered j th hj)
      · rcases List.mem_insert_iff.mp hmem with heq | hmem
        · exact hne n hn heq.symm
        · exact habsent n (List.mem_cons_of_mem m hn) hmem
      · obtain ⟨rfl, rfl⟩ := Scan.inserted.inj (Option.some.inj hm')
        refine ⟨List.mem_insert_self, fun j th hj heq => hm ?_⟩
        exact heq ▸ h.entered j th hj
  | inserted m rest =>
    obtain ⟨hmem, hnone⟩ := h.inserted m rest hscan
    have hget (j : ℕ) (th : Supervision)
        (hj : (s.stepScan load (.inserted m rest)).threads[j]? = some th) :
        s.threads[j]? = some th ∨ j = s.threads.length ∧ th = ⟨m.pluginId, m, .loopHead⟩ := by
      simp only [stepScan] at hj
      rw [List.getElem?_append] at hj
      split_ifs at hj with hlt
      · exact .inl hj
      · rw [List.getElem?_singleton] at hj
        split_ifs at hj with hzero
        exact .inr ⟨by omega, (Option.some.inj hj).symm⟩
    refine ⟨fun j th hj => ?_, fun j k th₁ th₂ hj hk heq => ?_, fun j th hj => ?_, hpending,
      habsent, by simp [stepScan]⟩
    · rcases hget j th hj.1 with hj' | ⟨-, rfl⟩
      · exact h.entered j th ⟨hj', hj.2⟩
      · exact hmem
    · rcases hget j th₁ hj.1 with hj' | ⟨rfl, rfl⟩ <;> rcases hget k th₂ hk.1 with hk' | ⟨rfl, rfl⟩
      · exact h.distinct j k th₁ th₂ ⟨hj', hj.2⟩ ⟨hk', hk.2⟩ heq
      · exact absurd heq (hnone j th₁ ⟨hj', hj.2⟩)
      · exact absurd heq.symm (hnone k th₂ ⟨hk', hk.2⟩)
      · rfl
    · rcases hget j th hj with hj' | ⟨-, rfl⟩
      · exact h.current j th hj'
      · rfl
  | pushing j rest =>
    exact ⟨h.entered, h.distinct, h.current, hpending, habsent, by simp [stepScan]⟩

/-- A scan has no processes, and takes none from a thread. -/
theorem Held.scan {scan : Scan} (h : s.Held) (load : Option ManifestStore) :
    (s.stepScan load scan).Held := by
  have hkeep : (s.stepScan load scan).processes = s.processes ∧
      ∀ (j : ℕ) (th : Supervision), s.threads[j]? = some th →
        (s.stepScan load scan).threads[j]? = some th := by
    cases scan with
    | inserted m rest =>
      refine ⟨rfl, fun j th hj => ?_⟩
      have hlt : j < s.threads.length := (List.getElem?_eq_some_iff.mp hj).1
      simp only [stepScan]
      rwa [List.getElem?_append_left hlt]
    | launching list => cases list <;> exact ⟨rfl, fun _ _ hj => hj⟩
    | loading | filtering store | pushing j rest => exact ⟨rfl, fun _ _ hj => hj⟩
  intro k p hk halive
  rw [hkeep.1] at hk
  obtain ⟨j, th, hj, hchild, hplugin⟩ := h k p hk halive
  exact ⟨j, th, hkeep.2 j th hj, hchild, hplugin⟩

/-- The main thread, the watcher and the signal change neither threads nor processes. -/
theorem ThreadInv.frame (h : s.ThreadInv) (hthreads : t.threads = s.threads)
    (hsupervised : t.supervised = s.supervised) (hscan : t.scan = s.scan ∨ t.scan = some .loading) :
    t.ThreadInv := by
  have hactive {j : ℕ} {th : Supervision} (hj : t.Active j th) : s.Active j th := by
    rw [Active, hthreads] at hj
    exact hj
  refine ⟨fun j th hj => ?_,
    fun j k th₁ th₂ hj hk => h.distinct j k th₁ th₂ (hactive hj) (hactive hk),
    fun j th hj => h.current j th (by rw [← hthreads]; exact hj), ?_, ?_, fun m rest hm => ?_⟩
  · rw [hsupervised]
    exact h.entered j th (hactive hj)
  · rcases hscan with hscan | hscan <;> rw [hscan]
    · exact h.pending
    · exact .nil
  · rcases hscan with hscan | hscan <;> rw [hscan, hsupervised]
    · exact h.absent
    · simp [todo]
  · rcases hscan with hscan | hscan <;> rw [hscan] at hm
    · obtain ⟨hmem, hnone⟩ := h.inserted m rest hm
      exact ⟨hsupervised ▸ hmem, fun j th hj => hnone j th (hactive hj)⟩
    · simp at hm

theorem stepMain_frame (hst : s.stepMain = some t) : t.threads = s.threads ∧
    t.supervised = s.supervised ∧ t.scan = s.scan ∧ t.processes = s.processes := by
  rw [stepMain] at hst
  repeat' split at hst
  all_goals first
    | (obtain rfl := Option.some.inj hst; exact ⟨rfl, rfl, rfl, rfl⟩)
    | cases hst

theorem stepWatcher_frame (hst : s.stepWatcher = some t) : t.threads = s.threads ∧
    t.supervised = s.supervised ∧ (t.scan = s.scan ∨ t.scan = some .loading) ∧
    t.processes = s.processes := by
  rw [stepWatcher] at hst
  split at hst
  · obtain rfl := Option.some.inj hst
    exact ⟨rfl, rfl, .inl rfl, rfl⟩
  · obtain rfl := Option.some.inj hst
    split_ifs
    · exact ⟨rfl, rfl, .inl rfl, rfl⟩
    · exact ⟨rfl, rfl, .inr rfl, rfl⟩
  · split at hst
    · obtain rfl := Option.some.inj hst
      exact ⟨rfl, rfl, .inl rfl, rfl⟩
    · cases hst
  · cases hst
  · cases hst

theorem Held.frame (h : s.Held) (hthreads : t.threads = s.threads)
    (hprocesses : ∀ (k : ℕ) (p : Process), t.processes[k]? = some p → p.alive = true →
      s.processes[k]? = some p) : t.Held := by
  intro k p hk halive
  rw [hthreads]
  exact h k p (hprocesses k p hk halive) halive

/-! ### Runs -/

theorem inv_step (h : s.ThreadInv ∧ s.Held) (hok : s.LetsGo l) (hst : s.step l = some t) :
    t.ThreadInv ∧ t.Held := by
  cases l with
  | scan load =>
    obtain ⟨scan, hscan, rfl⟩ := Option.map_eq_some_iff.mp hst
    exact ⟨h.1.scan hscan load, h.2.scan load⟩
  | main =>
    obtain ⟨hthreads, hsupervised, hscan, hprocesses⟩ := stepMain_frame hst
    exact ⟨h.1.frame hthreads hsupervised (.inl hscan),
      h.2.frame hthreads fun k p hk _ => by rw [← hprocesses]; exact hk⟩
  | watch =>
    obtain ⟨hthreads, hsupervised, hscan, hprocesses⟩ := stepWatcher_frame hst
    exact ⟨h.1.frame hthreads hsupervised hscan,
      h.2.frame hthreads fun k p hk _ => by rw [← hprocesses]; exact hk⟩
  | thread i c =>
    obtain ⟨th, hi, hst⟩ := Option.bind_eq_some_iff.mp hst
    have hactive : s.Active i th := by
      refine ⟨hi, fun hdone => ?_⟩
      rw [hdone] at hst
      cases hst
    exact (threadMove_of_step hst).inv h.1 h.2 hactive hok
  | exits k =>
    simp only [step] at hst
    split_ifs at hst
    obtain rfl := Option.some.inj hst
    exact ⟨h.1.frame rfl rfl (.inl rfl),
      h.2.frame rfl fun k p hk halive => getElem?_endProcess hk halive⟩
  | raiseShutdown =>
    obtain rfl := Option.some.inj hst
    exact ⟨h.1.frame rfl rfl (.inl rfl), h.2.frame rfl fun k p hk _ => hk⟩

/-- **One process for each plugin**, in every state of a run in which threads let go only of
children that are over, and take up only manifests of their own plugin. -/
theorem oneProcess_of_along (ls : List Label) (t : Fleet) (hok : Along step LetsGo start ls)
    (hr : run step start ls = some t) : t.OneProcess := by
  have hinv : t.ThreadInv ∧ t.Held :=
    invariant_of_along (I := fun s => s.ThreadInv ∧ s.Held)
      (fun _ _ _ h hok hst => inv_step h hok hst)
      ⟨threadInv_start, held_start⟩ hok hr
  exact oneProcess_of_inv hinv.1 hinv.2

/-! ### Two at a time -/

/-- The manifest of a plugin of this id and hash. -/
def pluginOf (id sha : String) : PluginManifest where
  pluginId := id
  name := id
  expectedPath := "C:\\plugins\\" ++ id ++ ".exe"
  expectedSha256 := some sha
  expectedSigner := none
  revoked := false
  autoLaunch := true
  env := []

/-- A directory with two plugins. -/
def twoPlugins : ManifestStore where
  manifests := [⟨pluginOf "hook" "f4b9", .inl rfl⟩, ⟨pluginOf "dns" "77a0", .inl rfl⟩]
  nodup := by decide

/-- Steps of a scan, which finds these manifests. -/
def scans (n : ℕ) (found : Option ManifestStore) : List Label := List.replicate n (.scan found)

/-- Undisturbed steps of these threads. -/
def turns (threads : List ℕ) : List Label := threads.map fun i => .thread i {}

/-- The initial scan, and a spawn by either thread. -/
def launchBoth : List Label := scans 9 (some twoPlugins) ++ turns [0, 0, 1, 1]

/-- The first thread backs off, and spawns again. -/
def again : List Label := turns [0, 0, 0, 0]

/-- The child ends, and is started again. -/
def crashRun : List Label := launchBoth ++ [Label.exits 0] ++ turns [0] ++ again

theorem crashRun_oneProcess : ∃ t, run step start crashRun = some t ∧ t.processes.length = 3 ∧
    t.OneProcess :=
  ⟨_, rfl, rfl, oneProcess_of_along crashRun _ (by decide +kernel) rfl⟩

/-- The poll of the first thread finds this manifest, and its child is killed. -/
def pollFinds (m : PluginManifest) : List Label :=
  [.thread 0 {}, .thread 0 { poll := some (.bytes (some m)) }]

/-- **A second process while the first is alive**: after a `try_wait` that fails, after a `kill`
and a `wait` that fail, and after an update whose manifest has the id of another plugin. -/
theorem two_processes :
    (∃ t, run step start (launchBoth ++ [Label.thread 0 { fails := true }] ++ again) = some t ∧
      ¬t.OneProcess) ∧
    (∃ t, run step start (launchBoth ++ pollFinds (pluginOf "hook" "0c1d") ++
      [Label.thread 0 { kills := false }, Label.thread 0 { fails := true }] ++ turns [0, 0])
        = some t ∧ ¬t.OneProcess) ∧
    ∃ t, run step start (launchBoth ++ pollFinds (pluginOf "dns" "0c1d") ++ again) = some t ∧
      ¬t.OneProcess := by
  refine ⟨⟨_, rfl, fun h => ?_⟩, ⟨_, rfl, fun h => ?_⟩, ⟨_, rfl, fun h => ?_⟩⟩
  · exact absurd (h 0 2 _ _ rfl rfl rfl rfl rfl) (by decide)
  · exact absurd (h 0 2 _ _ rfl rfl rfl rfl rfl) (by decide)
  · exact absurd (h 1 2 _ _ rfl rfl rfl rfl rfl) (by decide)

end Fleet

end Plugin

end WazabiAgent
