import Mathlib.Data.List.Sort
import Mathlib.Data.Set.Function
import WazabiAgent.Lib.Binary
import WazabiAgent.Lib.Transition
import WazabiAgent.Plugin.Handshake

/-!
# Reloading the manifests

`reload_loop` (`plugin/server.rs`) takes a fingerprint of the enrolment directory at each tick. If
it is the one of the last load, nothing is done; otherwise the directory is loaded and the store
that sessions are accepted with is replaced. Fingerprint and load are two walks, and either may
meet errors of its own. What the fingerprint cannot read it leaves out, and so does the load, except
where the enumeration itself fails.

The directory is not part of the state. What changes there, before a walk or during it, shows in
what the walk meets, and a tick may meet anything. An unchanged directory is enumerated in one
order.

## Main definitions

* `directoryFingerprint` — the digest of names, times and sizes
* `Reload`, `Reload.tick` — the loop
* `DirContent` — a directory, with the walks that meet all of it
* `Reload.Converges` — an undisturbed tick leaves the store of the directory

## Main results

* `converges_of_undisturbed` — what follows if all loads are undisturbed
* `converges_iff_along` — which loads it takes
-/

namespace WazabiAgent

namespace Plugin

open Binary (fnv1a fnvOffset toLeBytes)

open LabelledStep

/-! ### The fingerprint -/

/-- The metadata of a file that the fingerprint takes. -/
structure FileMeta where
  /-- Nanoseconds since 1970, if the file has a time and it is not earlier. -/
  modified : Option ℕ
  len : ℕ
  deriving DecidableEq

/-- What `directory_fingerprint` meets: nothing that can be enumerated, or entries, of which one
that fails is `none` and one whose metadata fails has none. -/
inductive FpListing
  | unreadable
  | entries (es : List (Option (OsString × Option FileMeta)))
  deriving DecidableEq

/-- The name, the time and the size of a manifest file. -/
def fpTuple (e : Option (OsString × Option FileMeta)) : Option (String × ℕ × ℕ) := do
  let (name, metadata) ← e
  if name.extension.bind OsString.toStr ≠ some "json" then none
  else
    let name ← OsString.toStr name
    let m ← metadata
    return (name, m.modified.getD 0, m.len)

/-- `str::as_bytes`. -/
def utf8 (s : String) : List UInt8 := s.toList.flatMap String.utf8EncodeChar

/-- Adds a name, a time and a length to the fingerprint. -/
def hashTuple (h : UInt64) (t : String × ℕ × ℕ) : UInt64 :=
  fnv1a (fnv1a (fnv1a h (utf8 t.1)) (toLeBytes 16 t.2.1)) (toLeBytes 8 t.2.2)

/-- `directory_fingerprint`. -/
def directoryFingerprint : FpListing → UInt64
  | .unreadable => 0
  | .entries es =>
    ((es.filterMap fpTuple).insertionSort fun a b => a.1 ≤ b.1).foldl hashTuple fnvOffset

/-! ### The loop -/

/-- The live store, the variable of `reload_loop`, and the statistics. -/
structure Reload where
  live : ManifestStore
  lastFp : UInt64
  enrolledPlugins : ℕ
  manifestReloads : ℕ := 0

namespace Reload

/-- `spawn_server` and the head of `reload_loop`: the first load takes a fingerprint, too. -/
def start (w : FpListing) (l : Listing) : Reload :=
  match loadDir l with
  | .ok s =>
    { live := s, lastFp := directoryFingerprint w, enrolledPlugins := s.manifests.length }
  | .error _ => { live := .empty, lastFp := 0, enrolledPlugins := 0 }

/-- One tick, by what the two walks meet. -/
def tick (r : Reload) (w : FpListing) (l : Listing) : Reload :=
  if directoryFingerprint w = r.lastFp then r
  else
    match loadDir l with
    | .ok s =>
      { live := s
        lastFp := directoryFingerprint w
        enrolledPlugins := s.manifests.length
        manifestReloads := r.manifestReloads + 1 }
    -- the fingerprint is not kept, and the next tick tries again
    | .error _ => r

/-- The walks of one tick. -/
structure Walks where
  fingerprint : FpListing
  listing : Listing

/-- A tick is always possible. -/
def step (r : Reload) (ws : Walks) : Option Reload := some (r.tick ws.fingerprint ws.listing)

end Reload

/-! ### Directories -/

/-- A file of the manifest directory, with its metadata. -/
structure EnrolledFile where
  name : OsString
  /-- The content, unless it is no JSON document. -/
  doc : Option Json
  metadata : FileMeta
  deriving DecidableEq

/-- A directory in which everything can be read. -/
inductive DirContent
  | missing
  | files (fs : List EnrolledFile)
  deriving DecidableEq

namespace DirContent

/-- The fingerprint walk that nothing disturbs. -/
def fpListing : DirContent → FpListing
  | .missing => .unreadable
  | .files fs => .entries (fs.map fun f => some (f.name, some f.metadata))

/-- The load that nothing disturbs. -/
def listing : DirContent → Listing
  | .missing => .missing
  | .files fs => .entries ((fs.map fun f => ⟨f.name, .bytes f.doc⟩).map some)

/-- The fingerprint of a directory. -/
def fingerprint (d : DirContent) : UInt64 := directoryFingerprint d.fpListing

/-- `load_dir` of the directory. -/
theorem loadDir_listing (d : DirContent) : ∃ s, loadDir d.listing = .ok s := by
  cases d with
  | missing => exact ⟨.empty, rfl⟩
  | files fs => exact ⟨_, loadEntries_map_some _ _⟩

end DirContent

/-! ### Convergence -/

namespace Reload

variable {C : Set DirContent} {r t : Reload} {w : FpListing} {l : Listing}

/-- A tick that nothing disturbs leaves the store of the directory, whichever of `C` it finds. -/
def Converges (C : Set DirContent) (r : Reload) : Prop :=
  ∀ d ∈ C, loadDir d.listing = .ok (r.tick d.fpListing d.listing).live

/-- What a load has kept is what a directory with the fingerprint taken holds. -/
def Kept (C : Set DirContent) (fp : UInt64) (s : ManifestStore) : Prop :=
  ∀ d ∈ C, d.fingerprint = fp → loadDir d.listing = .ok s

theorem converges_iff_kept : r.Converges C ↔ Kept C r.lastFp r.live := by
  refine forall_congr' fun d => forall_congr' fun hd => ?_
  rw [tick, DirContent.fingerprint]
  by_cases hfp : directoryFingerprint d.fpListing = r.lastFp
  · rw [if_pos hfp]
    exact ⟨fun h _ => h, fun h => h hfp⟩
  · obtain ⟨s, hs⟩ := d.loadDir_listing
    rw [if_neg hfp, hs]
    exact ⟨fun _ h => absurd h hfp, fun _ => rfl⟩

/-- A load that the loop keeps reads what was there when the fingerprint was taken. A tick that
finds the fingerprint unchanged does not load, and a load that fails is not kept. -/
def LoadOk (C : Set DirContent) (r : Reload) (ws : Walks) : Prop :=
  directoryFingerprint ws.fingerprint = r.lastFp ∨
    ∀ s, loadDir ws.listing = .ok s → Kept C (directoryFingerprint ws.fingerprint) s

/-- One tick. -/
theorem converges_tick_iff (h : r.Converges C) (ws : Walks) :
    (r.tick ws.fingerprint ws.listing).Converges C ↔ LoadOk C r ws := by
  rw [LoadOk]
  by_cases hfp : directoryFingerprint ws.fingerprint = r.lastFp
  · rw [tick, if_pos hfp]
    exact iff_of_true h (.inl hfp)
  · cases hload : loadDir ws.listing with
    | error e =>
      have htick : r.tick ws.fingerprint ws.listing = r := by rw [tick, if_neg hfp, hload]
      rw [htick]
      exact iff_of_true h (.inr fun s hs => by cases hs)
    | ok s =>
      rw [converges_iff_kept, tick, if_neg hfp, hload]
      constructor
      · intro hkept
        refine .inr fun s' hs' => ?_
        rw [← Except.ok.inj hs']
        exact hkept
      · rintro (hsame | hkept)
        · exact absurd hsame hfp
        · exact hkept s rfl

/-- **When reloading converges.** Throughout a run of the agent, an undisturbed tick would leave the
store of the directory it finds, exactly if the first load and every later one that the loop kept
read what was there when its fingerprint was taken. -/
theorem converges_iff_along {ticks : List Walks} (hr : run step (start w l) ticks = some t) :
    (∀ ms rest u, ticks = ms ++ rest → run step (start w l) ms = some u → u.Converges C) ↔
      Kept C (start w l).lastFp (start w l).live ∧
        Along step (LoadOk C) (start w l) ticks := by
  have hstep (u v : Reload) (ws : Walks) (hst : step u ws = some v) (hu : u.Converges C) :
      v.Converges C ↔ LoadOk C u ws := by
    rw [← Option.some.inj hst]
    exact converges_tick_iff hu ws
  rw [← converges_iff_kept]
  constructor
  · intro hall
    have hstart : (start w l).Converges C := hall [] ticks _ rfl rfl
    exact ⟨hstart, (forall_split_iff_along hstart
      (fun u ws v _ hu hP hst => (hstep u v ws hst hu).mpr hP)
      (fun u ws v _ hu hst hv => (hstep u v ws hst hu).mp hv) hr).mp hall⟩
  · rintro ⟨hstart, halong⟩
    exact (forall_split_iff_along hstart
      (fun u ws v _ hu hP hst => (hstep u v ws hst hu).mpr hP)
      (fun u ws v _ hu hst hv => (hstep u v ws hst hu).mp hv) hr).mpr halong

/-- Both walks of the tick meet all of one directory of `C`. -/
def Undisturbed (C : Set DirContent) (ws : Walks) : Prop :=
  ∃ d ∈ C, ws.fingerprint = d.fpListing ∧ ws.listing = d.listing

theorem Undisturbed.kept (hinj : C.InjOn DirContent.fingerprint) {ws : Walks}
    (hu : Undisturbed C ws) {s : ManifestStore} (hs : loadDir ws.listing = .ok s) :
    Kept C (directoryFingerprint ws.fingerprint) s := by
  obtain ⟨d, hd, hw, hl⟩ := hu
  intro d' hd' hfp
  have hsame : d' = d := hinj hd' hd (by rw [hfp, hw, DirContent.fingerprint])
  rw [hsame, ← hl]
  exact hs

/-- Fingerprints that tell the directories of `C` apart, and walks that nothing disturbs: then
reloading converges. -/
theorem converges_of_undisturbed (hinj : C.InjOn DirContent.fingerprint)
    (hr : r.Converges C) {ticks : List Walks} (hticks : ∀ ws ∈ ticks, Undisturbed C ws)
    (ht : run step r ticks = some t) : t.Converges C := by
  induction ticks generalizing r with
  | nil =>
    obtain rfl : r = t := Option.some.inj ht
    exact hr
  | cons ws ticks ih =>
    have hok : LoadOk C r ws := .inr fun s hs => (hticks ws List.mem_cons_self).kept hinj hs
    exact ih ((converges_tick_iff hr ws).mpr hok)
      (fun ws' hws' => hticks ws' (List.mem_cons_of_mem _ hws')) ht

/-! ### A file that cannot be read -/

/-- A directory that enrols one plugin. -/
def acmeFiles : DirContent := .files [{
  name := OsString.ofString "acme.json"
  doc := some (.object [
    ("plugin_id", .string "acme"),
    ("name", .string "Acme Telemetry"),
    ("vendor", .string "Acme Corp"),
    ("expected_path", .string "C:\\Acme\\p.exe"),
    ("expected_signer", .string "Acme Corp")])
  metadata := {
    modified := some 1700000000000000000
    len := 196 } }]

/-- The file is written while the agent runs, and scanned by someone else as the loop reads it. -/
def busyTick : Walks where
  fingerprint := acmeFiles.fpListing
  listing := .entries [some ⟨OsString.ofString "acme.json", .unreadable⟩]

/-- The tick of an undisturbed second later. -/
def quietTick : Walks where
  fingerprint := acmeFiles.fpListing
  listing := acmeFiles.listing

/-- The file that could not be read stays out, though the fingerprint tells the directories
apart. -/
theorem unreadable_file_stays_out :
    Set.InjOn DirContent.fingerprint {.missing, acmeFiles} ∧
      ∃ t, run step (start .unreadable .missing) [busyTick] = some t ∧
        loadDir acmeFiles.listing ≠ .ok (t.tick acmeFiles.fpListing acmeFiles.listing).live := by
  have hfp : DirContent.fingerprint .missing ≠ acmeFiles.fingerprint := by decide +kernel
  have hread : (loadDir acmeFiles.listing).toOption.map (·.manifests.length) = some 1 := by
    decide +kernel
  -- the second tick finds the fingerprint of the first
  have hlive : (((start .unreadable .missing).tick busyTick.fingerprint busyTick.listing).tick
      acmeFiles.fpListing acmeFiles.listing).live.manifests.length = 0 := by decide +kernel
  refine ⟨Set.injOn_pair.mpr fun h => absurd h hfp, _, rfl, fun h => ?_⟩
  rw [h] at hread
  exact absurd (hlive.symm.trans (Option.some.inj hread)) (by decide)

/-- A directory that the loop finds undisturbed at each of two ticks. -/
theorem undisturbed_converges :
    (∀ ms rest u, [quietTick, quietTick] = ms ++ rest →
        run step (start .unreadable .missing) ms = some u → u.Converges {.missing, acmeFiles}) ↔
      Kept {.missing, acmeFiles} (start .unreadable .missing).lastFp
          (start .unreadable .missing).live ∧
        Along step (LoadOk {.missing, acmeFiles}) (start .unreadable .missing)
          [quietTick, quietTick] :=
  converges_iff_along rfl

end Reload

end Plugin

end WazabiAgent
