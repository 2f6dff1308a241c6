import WazabiAgent.Agent.Lines
import WazabiAgent.Plugin.Reload
import WazabiAgent.Shipper.ExactlyOnce

/-!
# From the sources to the server

The sources submit lines, the spools keep them in batches, and the shipper posts the batches. The
bytes of a line are its UTF-8 encoding. Here the three are put together: what the server has is
taken apart again with the JSON reader, and compared with what the sources have submitted.

## Main definitions

* `documentOf` — the document of a line
* `serverReads` — what the server makes of the body of a batch

## Main results

* `documents_delivered` — the documents at the server and those on their way are those submitted
-/

namespace WazabiAgent

namespace Agent

open LabelledStep Pipeline Spool

open scoped List

/-- What the server makes of a body: UTF-8, and a document on each line. -/
def serverReads (body : List UInt8) : Option (List Json) :=
  body.toByteArray.utf8Decode?.bind fun cs => Json.parseLines cs.toList

/-- The document of a line. -/
def documentOf (l : NdjsonLine) : Json := ((serverReads l.bytes).bind List.head?).getD .null

/-- The line was submitted by one of the sources. -/
def FromSource (l : NdjsonLine) : Prop := ∃ line, Submits line ∧ l.bytes = Plugin.utf8 line

/-! ### Reading lines -/

theorem serverReads_utf8 (cs : List Char) :
    serverReads (cs.flatMap String.utf8EncodeChar) = Json.parseLines cs := by
  rw [serverReads]
  show (List.utf8Encode cs).utf8Decode?.bind _ = _
  rw [List.utf8Decode?_utf8Encode, Option.bind_some, List.toList_toArray]

/-- A line is its document, and nothing else. -/
theorem FromSource.document {l : NdjsonLine} (h : FromSource l) :
    ∃ doc : Json, doc.readable = true ∧
      l.bytes = (doc.compactChars ++ ['\n']).flatMap String.utf8EncodeChar := by
  obtain ⟨line, hline, hbytes⟩ := h
  obtain ⟨doc, hdoc, rfl⟩ := hline.document
  refine ⟨doc, hdoc, hbytes.trans ?_⟩
  rw [Plugin.utf8, String.toList_append, Json.compact, String.toList_ofList]
  rfl

theorem documents_of_lines {ls : List NdjsonLine} (h : ∀ l ∈ ls, FromSource l) :
    ∃ docs : List Json, (∀ doc ∈ docs, doc.readable = true) ∧
      ls.flatMap NdjsonLine.bytes
        = (docs.flatMap fun doc => doc.compactChars ++ ['\n']).flatMap String.utf8EncodeChar ∧
      ls.map documentOf = docs := by
  induction ls with
  | nil => exact ⟨[], by simp, rfl, rfl⟩
  | cons l ls ih =>
    obtain ⟨hl, hls⟩ := List.forall_mem_cons.mp h
    obtain ⟨doc, hdoc, hbytes⟩ := hl.document
    obtain ⟨docs, hdocs, hrest, rfl⟩ := ih hls
    refine ⟨doc :: ls.map documentOf, List.forall_mem_cons.mpr ⟨hdoc, hdocs⟩, ?_, ?_⟩
    · rw [List.flatMap_cons, List.flatMap_cons, List.flatMap_append, hbytes, hrest]
    · have hone := @Json.parseLines_lines [doc] (List.forall_mem_singleton.mpr hdoc)
      rw [List.map_cons, documentOf, hbytes, serverReads_utf8]
      rw [List.flatMap_cons, List.flatMap_nil, List.append_nil] at hone
      rw [hone]
      rfl

/-- The server reads one document for each line, in their order. -/
theorem serverReads_lines {ls : List NdjsonLine} (h : ∀ l ∈ ls, FromSource l) :
    serverReads (ls.flatMap NdjsonLine.bytes) = some (ls.map documentOf) := by
  obtain ⟨docs, hdocs, hbytes, rfl⟩ := documents_of_lines h
  rw [hbytes, serverReads_utf8, Json.parseLines_lines hdocs]

/-! ### What the server has -/

/-- The documents of the acknowledged batches, each batch once. -/
def delivered (log : List Event) (i : ℕ) : List Json :=
  (receipts log i).dedup.flatMap fun e => (serverReads e.2).getD []

/-- The lines that are not in an acknowledged batch. -/
def undelivered (log : List Event) (i : ℕ) (w : SpoolState) : List NdjsonLine :=
  linesOf (unconfirmed log i w) ++ w.unsealed ++ w.hand.toList ++ w.queue ++ w.dropped

section

variable {s : Pipeline.State} {log : List Pipeline.Event} {i : ℕ}

/-- What is confirmed was submitted. -/
theorem fromSource_of_confirmed (h : ExactlyOnce s log i)
    (hsource : ∀ l ∈ (s.spools i).spool.accepted, FromSource l) :
    ∀ b ∈ confirmed log i (s.spools i).spool, ∀ l ∈ wholeLines b.chunks, FromSource l := by
  intro b hb l hl
  refine hsource l (h.places.mem_iff.mpr ?_)
  simp only [List.append_assoc]
  exact List.mem_append_left _ (List.mem_flatMap.mpr ⟨b, hb, hl⟩)

/-- What the server has received can be read, and is what the confirmed batches are made of. -/
theorem delivered_perm (h : ExactlyOnce s log i)
    (hsource : ∀ l ∈ (s.spools i).spool.accepted, FromSource l) :
    (∀ e ∈ receipts log i, (serverReads e.2).isSome = true) ∧
      (delivered log i).Perm
        ((linesOf (confirmed log i (s.spools i).spool)).map documentOf) := by
  have hconfirmed := fromSource_of_confirmed h hsource
  constructor
  · intro e he
    obtain ⟨b, hb, rfl⟩ := List.mem_map.mp
      (h.bodies.mem_iff.mp (List.mem_dedup.mpr he))
    rw [serverReads_lines (hconfirmed b hb)]
    rfl
  · refine (h.bodies.flatMap_right _).trans (.of_eq ?_)
    rw [List.flatMap_map, linesOf, List.map_flatMap]
    refine List.flatMap_congr fun b hb => ?_
    rw [serverReads_lines (hconfirmed b hb)]
    rfl

end

/-- **What the sources say is what the server has, or will have.** In every interleaving of the
    spools with the shipper within the condition, if all that a spool has accepted came from the
    sources: every body that the server has acknowledged can be read, and the documents in them,
    each batch taken once, together with those of the lines that are still with the agent or were
    dropped there, are the documents that were submitted, each as often as it was. -/
theorem documents_delivered (cfgs : ℕ → SpoolConfig) (dirs : ℕ → Dir) (ls : List Pipeline.Label)
    (hclean : ∀ i n f, isBatchName n = true → dirs i n = some f → isWhole f = false)
    (hc : Along (Pipeline.State.step cfgs) Conserving (.start dirs) ls) (t : Pipeline.State)
    (hr : run (Pipeline.State.step cfgs) (.start dirs) ls = some t) (i : ℕ)
    (hsource : ∀ l ∈ (t.spools i).spool.accepted, FromSource l) :
    let log := emitted (Pipeline.State.step cfgs) emits (.start dirs) ls
    (∀ e ∈ receipts log i, (serverReads e.2).isSome = true) ∧
      ((t.spools i).spool.accepted.map documentOf).Perm
        (delivered log i ++ (undelivered log i (t.spools i).spool).map documentOf) := by
  intro log
  have honce : ExactlyOnce t log i :=
    (balanced_of_along cfgs dirs ls hclean hc t hr).exactlyOnce i
  obtain ⟨hread, hperm⟩ := delivered_perm honce hsource
  refine ⟨hread, (honce.places.map documentOf).trans ?_⟩
  simp only [undelivered, List.append_assoc, List.map_append]
  exact hperm.symm.append_right _

/-! ### A run -/

/-- The line of a process that was terminated. -/
def terminatedEvent : NdjsonLine where
  bytes := ((Ipc.envelope (Ipc.terminated.decoded Ipc.quietEnv)).compactChars ++ ['\n']).flatMap
    String.utf8EncodeChar
  terminated := by
    rw [List.flatMap_append]
    exact List.getLast?_concat

theorem terminatedEvent_fromSource : FromSource terminatedEvent := by
  refine ⟨Ipc.terminatedLine,
    .kernel (Ipc.encodeKernelEvent_bytes Ipc.quietEnv (.inl rfl) Ipc.terminated []), ?_⟩
  rw [Plugin.utf8, Ipc.terminatedLine, String.toList_append, Json.compact, String.toList_ofList]
  rfl

/-- The line fills a file, which is sealed and sent. -/
def terminatedSealed : List Spool.Label :=
  settingUp ++ [.other (.submit terminatedEvent)] ++ List.replicate 4 (.op {}) ++
    [.op { unix := 1700000000 }] ++ List.replicate 13 (.op {})

/-- The end of a process, from the driver to the server. -/
def terminatedSent : List Pipeline.Label :=
  terminatedSealed.map (.spool 0) ++ shipping (batchName 1700000000 0) [.whole terminatedEvent]

theorem terminatedSent_delivered : ∃ t,
    run (Pipeline.State.step fun _ => smallSpool) (.start (oneSpool fun _ => none)) terminatedSent
      = some t ∧
    (t.spools 0).spool.accepted = [terminatedEvent] ∧
    let log := emitted (Pipeline.State.step fun _ => smallSpool) emits
      (.start (oneSpool fun _ => none)) terminatedSent
    (receipts log 0).length = 1 ∧
    (∀ e ∈ receipts log 0, (serverReads e.2).isSome = true) ∧
      ((t.spools 0).spool.accepted.map documentOf).Perm
        (delivered log 0 ++ (undelivered log 0 (t.spools 0).spool).map documentOf) := by
  have hrun : (run (Pipeline.State.step fun _ => smallSpool) (.start (oneSpool fun _ => none))
      terminatedSent).map (fun s => (s.spools 0).spool.accepted) = some [terminatedEvent] := by
    decide +kernel
  obtain ⟨t, ht, haccepted⟩ := Option.map_eq_some_iff.mp hrun
  refine ⟨t, ht, haccepted, by decide +kernel, documents_delivered (fun _ => smallSpool)
    (oneSpool fun _ => none) terminatedSent (fun i n f _ hf => ?_) (by decide +kernel) t ht 0 ?_⟩
  · simp [oneSpool] at hf
  · rw [haccepted]
    exact List.forall_mem_singleton.mpr terminatedEvent_fromSource

end Agent

end WazabiAgent
