import WazabiAgent.Spool.Writer

/-!
# The ledger of the spool

Where every accepted line is, and what single operations do to the answer. `Accounted` is the
statement for the reader; `Ledger` is `Accounted` with what an induction needs beside it: how far
two of the counters lag behind the operations they count, and that batch names are fresh.

The operations come in three kinds. Most of them leave the places of all lines alone, and one
lemma, `Ledger.of_dir`, serves them. A few move a line or a whole batch from one place to the
next. The steps of the others (producers, shipper, clock) are `Undisturbed`: they keep the ledger
and everything the thread knows about its own files.
-/

namespace WazabiAgent

namespace Spool

/-! ### Where the lines are -/

/-- The lines in the active file, or in its staging copy while it is being sealed. -/
def SpoolState.unsealed (w : SpoolState) : List NdjsonLine :=
  (w.current.bind w.dir).elim [] File.lines

/-- The lines of the batches sealed in this run. -/
def SpoolState.sealedLines (w : SpoolState) : List NdjsonLine :=
  w.batches.flatMap fun b => wholeLines b.chunks

/-- A batch that is present is there, complete. -/
def SpoolState.Holds (w : SpoolState) (b : Batch) : Prop :=
  b.fate = .present → ∃ f ∈ w.dir b.name, f = .zst b.chunks .whole f.size

/-- **Conservation.** Every accepted line is in exactly one place: the channel, the hands of the
thread, the file not yet sealed, a sealed batch, or the lines counted as dropped. A sealed batch
is present with its full content, acknowledged, or evicted and counted. -/
structure Accounted (w : SpoolState) : Prop where
  places : w.accepted.Perm
    (w.queue ++ w.hand.toList ++ w.unsealed ++ w.sealedLines ++ w.dropped)
  dropCount : w.stats.eventsDropped = w.refused + w.dropped.length
  present : ∀ b ∈ w.batches, w.Holds b
  evictCount : w.batches.countP (fun b => b.fate = .evicted) ≤ w.stats.batchesEvicted

/-- The induction hypothesis: `lag` lines are written and not yet counted as written, and `ev`
batches are evicted and not yet counted as evicted. Batch names are distinct and made from numbers
already given out, and the file not yet sealed has no batch name. -/
structure Ledger (w : SpoolState) (lag ev : ℕ) : Prop extends Accounted w where
  writeCount : w.stats.eventsWritten + lag = w.unsealed.length + w.sealedLines.length
  evicting : w.batches.countP (fun b => b.fate = .evicting) ≤ ev
  names : (w.batches.map Batch.name).Nodup
  numbered : ∀ b ∈ w.batches, ∃ ts seq, b.name = batchName ts seq ∧ seq < w.stats.batchesSealed
  plain : ∀ n ∈ w.current, isBatchName n = false

variable {w w' : SpoolState} {lag ev : ℕ}

theorem unsealed_of_current {n : String} {f : File} (hc : w.current = some n)
    (hd : w.dir n = some f) : w.unsealed = f.lines := by
  simp [SpoolState.unsealed, hc, hd]

theorem unsealed_of_none (hc : w.current = none) : w.unsealed = [] := by
  simp [SpoolState.unsealed, hc]

/-- A file of positive size has a line. -/
theorem wholeLines_ne_nil {f : ActiveFile} {cs : List Chunk}
    (hsize : f.bytesWritten = linesSize (wholeLines cs))
    (hpos : 0 < f.bytesWritten) : wholeLines cs ≠ [] := by
  intro hnil
  rw [hnil, linesSize_nil] at hsize
  omega

/-- A file of size zero has none. -/
theorem wholeLines_eq_nil {f : ActiveFile} {cs : List Chunk}
    (hsize : f.bytesWritten = linesSize (wholeLines cs))
    (hzero : ¬ 0 < f.bytesWritten) : wholeLines cs = [] := by
  cases hl : wholeLines cs with
  | nil => rfl
  | cons l ls =>
    rw [hl, linesSize_cons] at hsize
    have := l.length_pos
    omega

/-- Batch names have the form the shipper and the eviction look for. -/
theorem Ledger.isBatchName (h : Ledger w lag ev) {b : Batch} (hb : b ∈ w.batches) :
    isBatchName b.name = true := by
  obtain ⟨ts, seq, hname, -⟩ := h.numbered b hb
  rw [hname, isBatchName_batchName]

theorem Ledger.ne_name (h : Ledger w lag ev) {b : Batch} (hb : b ∈ w.batches) {n : String}
    (hn : Spool.isBatchName n = false) : b.name ≠ n :=
  ne_of_isBatchName hn (h.isBatchName hb)

/-- A number that has not been given out names no batch yet. -/
theorem Ledger.fresh (h : Ledger w lag ev) {b : Batch} (hb : b ∈ w.batches) {ts seq : ℕ}
    (hseq : w.stats.batchesSealed ≤ seq) : b.name ≠ batchName ts seq := by
  obtain ⟨ts', seq', hname, hlt⟩ := h.numbered b hb
  rw [hname]
  intro heq
  have := (batchName_inj.mp heq).2
  omega

theorem SpoolState.Holds.of_dir {b : Batch} (h : w.Holds b) (hd : w'.dir b.name = w.dir b.name) :
    w'.Holds b := by
  intro hf
  rw [hd]
  exact h hf

/-! ### Operations that move nothing -/

/-- The directory may change as long as the unsealed lines stay and no batch is touched. -/
theorem Ledger.of_dir (h : Ledger w lag ev) (hw : w' = { w with
      dir := w'.dir, current := w'.current, encoding := w'.encoding, deadline := w'.deadline })
    (hun : w'.unsealed = w.unsealed) (hd : ∀ b ∈ w.batches, w'.dir b.name = w.dir b.name)
    (hcur : ∀ n ∈ w'.current, Spool.isBatchName n = false) : Ledger w' lag ev := by
  have hq : w'.queue = w.queue := by rw [hw]
  have hh : w'.hand = w.hand := by rw [hw]
  have hb : w'.batches = w.batches := by rw [hw]
  have hdr : w'.dropped = w.dropped := by rw [hw]
  have hst : w'.stats = w.stats := by rw [hw]
  have hac : w'.accepted = w.accepted := by rw [hw]
  have hre : w'.refused = w.refused := by rw [hw]
  have hs : w'.sealedLines = w.sealedLines := by rw [SpoolState.sealedLines, hb]; rfl
  constructor
  · constructor
    · rw [hac, hq, hh, hun, hs, hdr]
      exact h.places
    · rw [hst, hre, hdr]
      exact h.dropCount
    · intro b hmem
      rw [hb] at hmem
      exact (h.present b hmem).of_dir (hd b hmem)
    · rw [hb, hst]
      exact h.evictCount
  · rw [hst, hun, hs]
    exact h.writeCount
  · rw [hb]
    exact h.evicting
  · rw [hb]
    exact h.names
  · rw [hb, hst]
    exact h.numbered
  · exact hcur

theorem Ledger.nextSeq (h : Ledger w lag ev) :
    Ledger { w with stats := { w.stats with batchesSealed := w.stats.batchesSealed + 1 } }
      lag ev where
  places := h.places
  dropCount := h.dropCount
  present := h.present
  evictCount := h.evictCount
  writeCount := h.writeCount
  evicting := h.evicting
  names := h.names
  numbered := fun b hb => by
    obtain ⟨ts, seq, hname, hlt⟩ := h.numbered b hb
    exact ⟨ts, seq, hname, Nat.lt_succ_of_lt hlt⟩
  plain := h.plain

/-! ### Operations on one line -/

theorem Ledger.receive (h : Ledger w lag ev) {l : NdjsonLine} {rest : List NdjsonLine}
    (hq : w.queue = l :: rest) (hh : w.hand = none) :
    Ledger { w with queue := rest, hand := some l, deadline := none } lag ev where
  places := by
    rw [List.perm_iff_count]
    intro x
    have hc := h.places.count_eq x
    simp only [hq, hh, Option.toList_none, Option.toList_some, List.append_nil,
      List.count_append, List.count_cons, List.count_nil] at hc ⊢
    show _ = _ + _ + w.unsealed.count x + w.sealedLines.count x + _
    omega
  dropCount := h.dropCount
  present := h.present
  evictCount := h.evictCount
  writeCount := h.writeCount
  evicting := h.evicting
  names := h.names
  numbered := h.numbered
  plain := h.plain

/-- The line in hand goes to the lines counted as dropped. -/
theorem Ledger.drop (h : Ledger w lag ev) {l : NdjsonLine} (hh : w.hand = some l) :
    Ledger { w with
      stats := { w.stats with eventsDropped := w.stats.eventsDropped + 1 }
      dropped := w.dropped ++ w.hand.toList
      hand := none } lag ev where
  places := by
    rw [List.perm_iff_count]
    intro x
    have hc := h.places.count_eq x
    simp only [hh, Option.toList_none, Option.toList_some, List.append_nil,
      List.count_append] at hc ⊢
    show _ = _ + w.unsealed.count x + w.sealedLines.count x + _
    omega
  dropCount := by
    have := h.dropCount
    simp only [hh, Option.toList_some, List.length_append, List.length_singleton]
    omega
  present := h.present
  evictCount := h.evictCount
  writeCount := h.writeCount
  evicting := h.evicting
  names := h.names
  numbered := h.numbered
  plain := h.plain

/-- The line in hand goes to the end of the active file. -/
theorem Ledger.write (h : Ledger w lag ev) {l : NdjsonLine} {cs : List Chunk}
    (hh : w.hand = some l) (hc : w.current = some activeFileName)
    (hd : w.dir activeFileName = some (.ndjson cs)) :
    Ledger { w with
      dir := Function.update w.dir activeFileName (some (.ndjson (cs ++ [.whole l])))
      hand := none } (lag + 1) ev := by
  have hun : w.unsealed = wholeLines cs := unsealed_of_current hc hd
  have hun' : SpoolState.unsealed { w with
      dir := Function.update w.dir activeFileName (some (.ndjson (cs ++ [.whole l])))
      hand := none } = wholeLines cs ++ [l] := by
    simp [SpoolState.unsealed, hc, File.lines]
  constructor
  · constructor
    · rw [List.perm_iff_count, hun']
      intro x
      have hx := h.places.count_eq x
      simp only [hh, hun, Option.toList_none, Option.toList_some, List.append_nil,
        List.count_append] at hx ⊢
      show _ = _ + _ + w.sealedLines.count x + _
      omega
    · exact h.dropCount
    · intro b hb
      exact (h.present b hb).of_dir
        (Function.update_of_ne (h.ne_name hb isBatchName_activeFileName) _ _)
    · exact h.evictCount
  · have := h.writeCount
    rw [hun', List.length_append, List.length_singleton]
    rw [hun] at this
    show w.stats.eventsWritten + _ = _ + w.sealedLines.length
    omega
  · exact h.evicting
  · exact h.names
  · exact h.numbered
  · exact h.plain

theorem Ledger.countWritten (h : Ledger w (lag + 1) ev) :
    Ledger { w with stats := { w.stats with eventsWritten := w.stats.eventsWritten + 1 } }
      lag ev where
  places := h.places
  dropCount := h.dropCount
  present := h.present
  evictCount := h.evictCount
  writeCount := by
    have := h.writeCount
    show w.stats.eventsWritten + 1 + lag = w.unsealed.length + w.sealedLines.length
    omega
  evicting := h.evicting
  names := h.names
  numbered := h.numbered
  plain := h.plain

/-! ### Operations on a batch -/

@[simp] theorem Batch.lose_name (n : String) (fate : Fate) (b : Batch) :
    (b.lose n fate).name = b.name := by
  rw [Batch.lose]
  split_ifs <;> rfl

@[simp] theorem Batch.lose_chunks (n : String) (fate : Fate) (b : Batch) :
    (b.lose n fate).chunks = b.chunks := by
  rw [Batch.lose]
  split_ifs <;> rfl

@[simp] theorem Batch.count_name (b : Batch) : b.count.name = b.name := by
  rw [Batch.count]
  split_ifs <;> rfl

@[simp] theorem Batch.count_chunks (b : Batch) : b.count.chunks = b.chunks := by
  rw [Batch.count]
  split_ifs <;> rfl

theorem Batch.lose_of_ne {n : String} {fate : Fate} {b : Batch} (h : b.name ≠ n) :
    b.lose n fate = b := by
  rw [Batch.lose, if_neg (fun hb => h hb.1)]

theorem unsealed_delete (n : String) (fate : Fate) (hn : w.current ≠ some n) :
    (w.delete n fate).unsealed = w.unsealed := by
  cases hc : w.current with
  | none => simp [SpoolState.unsealed, SpoolState.delete, hc]
  | some m =>
    have hmn : m ≠ n := fun h => hn (by rw [hc, h])
    simp [SpoolState.unsealed, SpoolState.delete, hc, Function.update_of_ne hmn]

@[simp] theorem sealedLines_delete (n : String) (fate : Fate) :
    (w.delete n fate).sealedLines = w.sealedLines := by
  simp [SpoolState.sealedLines, SpoolState.delete, List.flatMap_map]

/-- Deleting a batch under one of the two fates that mean deletion. -/
theorem Ledger.delete (h : Ledger w lag ev) {n : String} {fate : Fate} {ev' : ℕ}
    (hun : (w.delete n fate).unsealed = w.unsealed) (hf : fate = .evicting ∨ fate = .acknowledged)
    (hev : (w.batches.map (Batch.lose n fate)).countP (fun b => b.fate = .evicting) ≤ ev') :
    Ledger (w.delete n fate) lag ev' where
  places := by
    rw [hun, sealedLines_delete]
    exact h.places
  dropCount := h.dropCount
  present := by
    intro b' hb' hp
    obtain ⟨b, hb, rfl⟩ := List.mem_map.mp hb'
    by_cases hname : b.name = n
    · by_cases hfate : b.fate = .present
      · have hlost : (b.lose n fate).fate = fate := by simp [Batch.lose, hname, hfate]
        rw [hlost] at hp
        rcases hf with rfl | rfl <;> exact absurd hp (by decide)
      · have hkept : (b.lose n fate) = b := by simp [Batch.lose, hfate]
        exact absurd (hkept ▸ hp) hfate
    · rw [Batch.lose_of_ne hname] at hp ⊢
      obtain ⟨f, hd, hsize⟩ := h.present b hb hp
      exact ⟨f, (Function.update_of_ne hname _ _).trans hd, hsize⟩
  evictCount := by
    have hcount : (w.batches.map (Batch.lose n fate)).countP (fun b => b.fate = .evicted) =
        w.batches.countP fun b => b.fate = .evicted := by
      rw [List.countP_map]
      refine List.countP_congr fun b _ => ?_
      rw [Function.comp_apply, Batch.lose]
      split_ifs with hb
      · rcases hf with rfl | rfl <;> simp [hb.2]
      · rfl
    exact hcount.trans_le h.evictCount
  writeCount := by
    rw [hun, sealedLines_delete]
    exact h.writeCount
  evicting := hev
  names := by
    have := h.names
    simpa [SpoolState.delete, Function.comp_def] using this
  numbered := by
    intro b' hb'
    obtain ⟨b, hb, rfl⟩ := List.mem_map.mp hb'
    rw [Batch.lose_name]
    exact h.numbered b hb
  plain := h.plain

/-- No batch becomes evicted when another one is acknowledged. -/
theorem countP_lose_acknowledged (n : String) (bs : List Batch) :
    (bs.map (Batch.lose n .acknowledged)).countP (fun b => b.fate = .evicting) =
      bs.countP fun b => b.fate = .evicting := by
  rw [List.countP_map]
  refine List.countP_congr fun b _ => ?_
  rw [Function.comp_apply, Batch.lose]
  split_ifs with hb
  · simp [hb.2]
  · rfl

/-- One deletion makes at most one batch evicted, since the names are distinct. -/
theorem countP_lose_evicting (n : String) {bs : List Batch} (hnd : (bs.map Batch.name).Nodup) :
    (bs.map (Batch.lose n .evicting)).countP (fun b => b.fate = .evicting) ≤
      bs.countP (fun b => b.fate = .evicting) + 1 := by
  induction bs with
  | nil => simp
  | cons b bs ih =>
    rw [List.map_cons, List.nodup_cons] at hnd
    obtain ⟨hb, hnd⟩ := hnd
    rw [List.map_cons, List.countP_cons, List.countP_cons]
    by_cases hname : b.name = n
    · -- the only one of that name: the others are not touched
      have hrest : bs.map (Batch.lose n .evicting) = bs := by
        refine (List.map_congr_left fun x hx => ?_).trans bs.map_id
        refine Batch.lose_of_ne fun hx' => hb ?_
        rw [hname, ← hx']
        exact List.mem_map_of_mem hx
      rw [hrest]
      split_ifs <;> omega
    · rw [Batch.lose_of_ne hname]
      have := ih hnd
      omega

/-- The eviction is counted. -/
theorem countP_count_evicted (bs : List Batch) :
    (bs.map Batch.count).countP (fun b => b.fate = .evicted) =
      bs.countP (fun b => b.fate = .evicted) + bs.countP fun b => b.fate = .evicting := by
  induction bs with
  | nil => rfl
  | cons b bs ih =>
    rw [List.map_cons, List.countP_cons, List.countP_cons, List.countP_cons, ih]
    cases hf : b.fate <;> simp [Batch.count, hf] <;> omega

theorem countP_count_evicting (bs : List Batch) :
    (bs.map Batch.count).countP (fun b => b.fate = .evicting) = 0 := by
  rw [List.countP_eq_zero]
  intro b hb
  obtain ⟨b, -, rfl⟩ := List.mem_map.mp hb
  cases hf : b.fate <;> simp [Batch.count, hf]

/-- Deleting a file that is no batch. -/
theorem Ledger.deletePlain (h : Ledger w lag ev) {n : String} (hn : Spool.isBatchName n = false)
    (hun : (w.delete n .evicting).unsealed = w.unsealed) :
    Ledger (w.delete n .evicting) lag ev := by
  refine h.delete hun (Or.inl rfl) ?_
  have hsame : w.batches.map (Batch.lose n .evicting) = w.batches :=
    (List.map_congr_left fun b hb => Batch.lose_of_ne (h.ne_name hb hn)).trans w.batches.map_id
  rw [hsame]
  exact h.evicting

theorem Ledger.evict (h : Ledger w lag 0) {n : String} (hn : w.current ≠ some n) :
    Ledger (w.delete n .evicting) lag 1 := by
  refine h.delete (unsealed_delete n _ hn) (Or.inl rfl) ?_
  have h1 := countP_lose_evicting n h.names
  have h0 := h.evicting
  omega

theorem Ledger.countEvicted (h : Ledger w lag 1) :
    Ledger { w with
      stats := { w.stats with batchesEvicted := w.stats.batchesEvicted + 1 }
      batches := w.batches.map .count } lag 0 where
  places := by
    have := h.places
    simpa [SpoolState.unsealed, SpoolState.sealedLines, List.flatMap_map] using this
  dropCount := h.dropCount
  present := by
    intro b' hb' hp
    obtain ⟨b, hb, rfl⟩ := List.mem_map.mp hb'
    have hkept : b.count = b := by
      cases hf : b.fate <;> simp [Batch.count, hf] at hp ⊢
    rw [hkept] at hp ⊢
    exact h.present b hb hp
  evictCount := by
    have h1 := h.evictCount
    have h2 := h.evicting
    rw [countP_count_evicted]
    show _ ≤ w.stats.batchesEvicted + 1
    omega
  writeCount := by
    have := h.writeCount
    simpa [SpoolState.unsealed, SpoolState.sealedLines, List.flatMap_map] using this
  evicting := (countP_count_evicting w.batches).le
  names := by
    have := h.names
    simpa [Function.comp_def] using this
  numbered := by
    intro b' hb'
    obtain ⟨b, hb, rfl⟩ := List.mem_map.mp hb'
    rw [Batch.count_name]
    exact h.numbered b hb
  plain := h.plain

/-- **Sealing.** The lines of the file go to a new batch. -/
theorem Ledger.seal (h : Ledger w lag ev) {cs : List Chunk} {ts seq size : ℕ}
    (hun : w.unsealed = wholeLines cs) (hd : (w.dir (batchName ts seq)).isSome)
    (hseq : seq < w.stats.batchesSealed)
    (hfresh : ∀ b ∈ w.batches, b.name ≠ batchName ts seq) :
    Ledger { w with
      dir := w.dir.overwrite (batchName ts seq) (.zst cs .whole size)
      encoding := none
      current := none
      batches := w.batches ++ [⟨batchName ts seq, cs, .present⟩] } lag ev := by
  constructor
  · constructor
    · rw [List.perm_iff_count]
      intro x
      have hx := h.places.count_eq x
      rw [hun] at hx
      simp only [SpoolState.unsealed, SpoolState.sealedLines, Option.bind_none, Option.elim_none,
        List.flatMap_append, List.flatMap_cons, List.flatMap_nil, List.append_nil,
        List.count_append] at hx ⊢
      omega
    · exact h.dropCount
    · intro b hb
      rcases List.mem_append.mp hb with hb | hb
      · refine (h.present b hb).of_dir ?_
        show w.dir.overwrite _ _ b.name = _
        rw [Dir.overwrite, if_pos hd, Function.update_of_ne (hfresh b hb)]
      · obtain rfl := List.mem_singleton.mp hb
        intro _
        refine ⟨.zst cs .whole size, ?_, rfl⟩
        show w.dir.overwrite _ _ _ = _
        rw [Dir.overwrite, if_pos hd, Function.update_self]
    · have := h.evictCount
      simpa [List.countP_append] using this
  · have hw := h.writeCount
    rw [hun] at hw
    simp only [SpoolState.unsealed, SpoolState.sealedLines, Option.bind_none, Option.elim_none,
      List.flatMap_append, List.flatMap_cons, List.flatMap_nil, List.append_nil,
      List.length_append, List.length_nil] at hw ⊢
    omega
  · have := h.evicting
    simpa [List.countP_append] using this
  · rw [List.map_append, List.nodup_append]
    refine ⟨h.names, by simp, ?_⟩
    intro a ha b hb
    obtain ⟨c, hc, rfl⟩ := List.mem_map.mp ha
    obtain rfl : b = batchName ts seq := by simpa using hb
    exact hfresh c hc
  · intro b hb
    rcases List.mem_append.mp hb with hb | hb
    · exact h.numbered b hb
    · obtain rfl := List.mem_singleton.mp hb
      exact ⟨ts, seq, rfl, hseq⟩
  · simp

/-! ### The others -/

/-- What the thread can rely on while it is between two operations. -/
structure Undisturbed (w w' : SpoolState) : Prop where
  hand : w'.hand = w.hand
  current : w'.current = w.current
  encoding : w'.encoding = w.encoding
  numbers : w'.stats.batchesSealed = w.stats.batchesSealed
  names : w'.batches.map Batch.name = w.batches.map Batch.name
  /-- Files that are no batches stay, and so does the one under the encoder. -/
  files : ∀ n, isBatchName n = false → w'.dir n = w.dir n
  encoder : ∀ e ∈ w.encoding, w'.dir e.1 = w.dir e.1
  ledger : ∀ lag ev, Ledger w lag ev → Ledger w' lag ev

instance : IsPreorder SpoolState Undisturbed where
  refl _ := ⟨rfl, rfl, rfl, rfl, rfl, fun _ _ => rfl, fun _ _ => rfl, fun _ _ => id⟩
  trans _ _ _ h₁ h₂ := {
    hand := h₂.hand.trans h₁.hand
    current := h₂.current.trans h₁.current
    encoding := h₂.encoding.trans h₁.encoding
    numbers := h₂.numbers.trans h₁.numbers
    names := h₂.names.trans h₁.names
    files := fun n hn => (h₂.files n hn).trans (h₁.files n hn)
    encoder := fun e he => (h₂.encoder e (h₁.encoding ▸ he)).trans (h₁.encoder e he)
    ledger := fun lag ev h => h₂.ledger lag ev (h₁.ledger lag ev h) }

/-- The shipper does not delete the file that is under the encoder. -/
def OtherOk (w : SpoolState) : Other → Prop
  | .ship name => ∀ e ∈ w.encoding, e.1 ≠ name
  | _ => True

theorem Ledger.trySubmit (h : Ledger w lag ev) (cfg : SpoolConfig) (l : NdjsonLine) :
    Ledger (w.trySubmit cfg l) lag ev := by
  rw [SpoolState.trySubmit]
  split_ifs
  · refine { h with places := ?_ }
    rw [List.perm_iff_count]
    intro x
    have hx := h.places.count_eq x
    simp only [List.count_append] at hx ⊢
    show _ = _ + w.unsealed.count x + w.sealedLines.count x + _
    omega
  · refine { h with dropCount := ?_ }
    have := h.dropCount
    show w.stats.eventsDropped + 1 = w.refused + 1 + w.dropped.length
    omega

/-- **A step of the others leaves the thread undisturbed.** The only files they touch are batches,
and of those the one under the encoder is excepted. -/
theorem undisturbed_of_other {cfg : SpoolConfig} {l : Other} (hok : OtherOk w l)
    (he : w.other cfg l = some w') : Undisturbed w w' := by
  rcases SpoolState.other_cases he with
    ⟨x, rfl, rfl⟩ | ⟨_, _, _, rfl⟩ | ⟨name, rfl, hname, rfl⟩
  · have hframe : (w.trySubmit cfg x).hand = w.hand ∧ (w.trySubmit cfg x).current = w.current ∧
        (w.trySubmit cfg x).encoding = w.encoding ∧ (w.trySubmit cfg x).dir = w.dir ∧
        (w.trySubmit cfg x).stats.batchesSealed = w.stats.batchesSealed ∧
        (w.trySubmit cfg x).batches = w.batches := by
      rw [SpoolState.trySubmit]
      split_ifs <;> exact ⟨rfl, rfl, rfl, rfl, rfl, rfl⟩
    obtain ⟨hh, hcur, henc, hdir, hnum, hb⟩ := hframe
    exact ⟨hh, hcur, henc, hnum, by rw [hb], fun _ _ => by rw [hdir], fun _ _ => by rw [hdir],
      fun _ _ h => h.trySubmit cfg x⟩
  · exact ⟨rfl, rfl, rfl, rfl, rfl, fun _ _ => rfl, fun _ _ => rfl, fun _ _ h => { h with }⟩
  · refine ⟨rfl, rfl, rfl, rfl, by simp [SpoolState.delete], fun n hn => ?_, fun e henc => ?_,
      fun lag ev h => ?_⟩
    · exact Function.update_of_ne (ne_of_isBatchName hn hname).symm _ _
    · exact Function.update_of_ne (hok e henc) _ _
    · refine h.delete (unsealed_delete name _ fun hcur => ?_) (Or.inr rfl) ?_
      · simp [h.plain name hcur] at hname
      · rw [countP_lose_acknowledged]
        exact h.evicting

end Spool

end WazabiAgent
