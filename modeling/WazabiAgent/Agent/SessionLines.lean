import Mathlib.Algebra.Ring.Nat
import WazabiAgent.Agent.Lines
import WazabiAgent.Ipc.Parser
import WazabiAgent.Lib.TaggedLog

/-!
# The sessions can be told apart

The plugin sessions of an agent write into one spool, in any interleaving. What tells them apart is
the `session_id` that `gen_session_id` makes of a counter that all sessions share, the clock, and
the process of the client.

## Main definitions

* `genSessionId` — the identifier
* `Senders.step` — sessions that are opened, and events of theirs

## Main results

* `sessions_told_apart` — what each session has sent, from the text alone
-/

namespace WazabiAgent

namespace Plugin

open LabelledStep

open Ipc (hexPadded)

/-! ### Identifiers -/

/-- `gen_session_id`, where the clock says `ns` and the counter `n`. -/
def genSessionId (pid : UInt32) (ns n : UInt64) : String :=
  "s-" ++ hexPadded 8 pid.toNat ++ "-" ++ hexPadded 4 (ns >>> 48).toUInt16.toNat ++ "-" ++
    hexPadded 4 ((ns >>> 32).toUInt16 &&& 0xffff).toNat ++ "-" ++
    hexPadded 4 (n >>> 48).toUInt16.toNat ++ "-" ++ hexPadded 12 (n &&& 0x0000ffffffffffff).toNat

example : genSessionId 4242 1700000000123456789 3 = "s-00001092-1797-9cfe-0000-000000000003" := by
  decide +kernel

/-- The number that is written in hexadecimal. -/
def hexNumber (cs : List Char) : ℕ :=
  cs.foldl (fun n c => 16 * n + (Json.hexValue c).getD 0) 0

theorem hexNumber_concat (cs : List Char) (c : Char) :
    hexNumber (cs ++ [c]) = 16 * hexNumber cs + (Json.hexValue c).getD 0 := by
  rw [hexNumber, List.foldl_append]
  rfl

theorem hexValue_digitChar : ∀ {n : ℕ}, n < 16 → (Json.hexValue n.digitChar).getD 0 = n := by
  decide

theorem hexNumber_zeros (k : ℕ) : hexNumber (List.replicate k '0') = 0 := by
  induction k with
  | zero => rfl
  | succ k ih =>
    rw [List.replicate_succ', hexNumber_concat, ih]
    rfl

theorem hexNumber_padded (k n : ℕ) :
    hexNumber (List.replicate k '0' ++ Nat.toDigits 16 n) = n := by
  induction n using Nat.strongRecOn with
  | ind n ih =>
    by_cases hn : n < 16
    · rw [Nat.toDigits_of_lt_base hn, hexNumber_concat, hexValue_digitChar hn]
      rw [hexNumber_zeros]
      omega
    · rw [Nat.toDigits_of_base_le (by decide) (by omega), ← List.append_assoc, hexNumber_concat,
        ih (n / 16) (by omega), hexValue_digitChar (Nat.mod_lt n (by decide))]
      omega

theorem hexPadded_injective (w : ℕ) : Function.Injective (hexPadded w) := by
  intro m n h
  have hlist : List.replicate (w - (Nat.toDigits 16 m).length) '0' ++ Nat.toDigits 16 m
      = List.replicate (w - (Nat.toDigits 16 n).length) '0' ++ Nat.toDigits 16 n :=
    String.ofList_injective h
  rw [← hexNumber_padded _ m, hlist, hexNumber_padded]

theorem length_hexPadded {w n : ℕ} (hw : 0 < w) (hn : n < 16 ^ w) :
    (hexPadded w n).toList.length = w := by
  have hlen : (Nat.toDigits 16 n).length ≤ w :=
    (Nat.length_toDigits_le_iff (by decide) hw).mpr hn
  rw [hexPadded, String.toList_ofList, List.length_append, List.length_replicate]
  omega

/-- The counter can be read off an identifier. -/
theorem counter_of_genSessionId {pid pid' : UInt32} {ns ns' n n' : UInt64}
    (h : genSessionId pid ns n = genSessionId pid' ns' n') : n = n' := by
  have hlow (n : UInt64) : (n &&& 0x0000ffffffffffff).toNat = n.toNat % 2 ^ 48 := by
    rw [UInt64.toNat_and]
    exact Nat.and_two_pow_sub_one_eq_mod n.toNat 48
  have hhigh (n : UInt64) : (n >>> 48).toUInt16.toNat = n.toNat / 2 ^ 48 % 2 ^ 16 := by
    rw [UInt64.toNat_toUInt16, UInt64.toNat_shiftRight, Nat.shiftRight_eq_div_pow]
    rfl
  have hlist := congrArg String.toList h
  simp only [genSessionId, String.toList_append] at hlist
  obtain ⟨hlist, hl⟩ := List.append_inj' hlist (by
    rw [length_hexPadded (by decide), length_hexPadded (by decide)] <;> rw [hlow] <;>
      exact Nat.mod_lt _ (by decide))
  obtain ⟨hlist, -⟩ := List.append_inj' hlist rfl
  obtain ⟨-, hh⟩ := List.append_inj' hlist (by
    rw [length_hexPadded (by decide), length_hexPadded (by decide)] <;> rw [hhigh] <;>
      exact Nat.mod_lt _ (by decide))
  have hlowEq := hexPadded_injective 12 (String.toList_injective hl)
  have hhighEq := hexPadded_injective 4 (String.toList_injective hh)
  rw [hlow, hlow] at hlowEq
  rw [hhigh, hhigh] at hhighEq
  have hn := n.toNat_lt
  have hn' := n'.toNat_lt
  exact UInt64.toNat_inj.mp (by omega)

/-! ### Sessions that are open together -/

/-- An event as it was read: the numbers of its payload are numbers. -/
abbrev ReadEvent := { ev : Event // ev.payload.1.readable = true }

/-- A session that was accepted. -/
structure OpenSession where
  manifest : PluginManifest
  identity : ClientIdentity
  id : String
  /-- The events whose lines the spool has taken, with the time of each. -/
  sent : List (ReadEvent × UInt64) := []

/-- What is written for an event. -/
def OpenSession.document (session : OpenSession) (e : ReadEvent × UInt64) : Json :=
  .object (eventObject session.manifest session.identity session.id e.1.1 e.2)

/-- The documents of what the session sent. -/
def OpenSession.documents (session : OpenSession) : List Json := session.sent.map session.document

/-- Sessions that share a counter and a spool. -/
structure Senders where
  /-- `COUNTER`. -/
  counter : UInt64 := 0
  /-- All sessions so far, in the order of their identifiers. -/
  opened : List OpenSession := []
  /-- The lines that the spool has taken. -/
  submitted : List String := []

/-- What happens in the sessions, in any order. -/
inductive Senders.Action
  | opens (manifest : PluginManifest) (identity : ClientIdentity) (ns : UInt64)
  /-- The session `k` emits an event; the channel of the spool may be full. -/
  | emits (k : ℕ) (ev : ReadEvent) (nowNs : UInt64) (now : ℕ) (taken : Bool)

namespace Senders

/-- The lines of an event. -/
def linesOf (sinks : Detection.Sinks) (session : OpenSession) (ev : ReadEvent) (nowNs : UInt64)
    (now : ℕ) : List String :=
  (emitEvent session.manifest session.identity session.id sinks ev.1 nowNs now).submitted

/-- A step of any of the sessions. -/
def step (sinks : Detection.Sinks) (s : Senders) : Action → Option Senders
  | .opens manifest identity ns =>
    some { s with
      counter := s.counter + 1
      opened := s.opened ++ [{
        manifest := manifest
        identity := identity
        id := genSessionId identity.pid ns s.counter }] }
  | .emits k ev nowNs now taken =>
    match s.opened[k]? with
    | none => none
    | some session =>
      -- no line is written where there is no spool or the filter is against it
      if taken ∧ linesOf sinks session ev nowNs now ≠ [] then
        some { s with
          opened := s.opened.set k { session with sent := session.sent ++ [(ev, nowNs)] }
          submitted := s.submitted ++ linesOf sinks session ev nowNs now }
      else some s

/-- The session that a document names. -/
def sessionOf (doc : Json) : Option String := (doc.get "session_id").bind Json.asStr

theorem sessionOf_document (session : OpenSession) (e : ReadEvent × UInt64) :
    sessionOf (session.document e) = some session.id := by
  have hmem : ("session_id", .string session.id) ∈
      envelopeMembers session.manifest session.identity session.id e.1.1 e.2 := by
    simp [envelopeMembers]
  have hget := get_eventObject hmem
  rw [sessionOf, OpenSession.document, hget]
  rfl

theorem readable_document (session : OpenSession) (e : ReadEvent × UInt64) :
    (session.document e).readable = true :=
  readable_eventObject e.1.2 e.2

theorem linesOf_eq {sinks : Detection.Sinks} {session : OpenSession} {ev : ReadEvent}
    {nowNs : UInt64} {now : ℕ} (h : linesOf sinks session ev nowNs now ≠ []) :
    linesOf sinks session ev nowNs now = [(session.document (ev, nowNs)).compact ++ "\n"] := by
  have hline : SubmitsLine sinks
      (emitEvent session.manifest session.identity session.id sinks ev.1 nowNs now)
      (eventObject session.manifest session.identity session.id ev.1 nowNs) :=
    emitEvent_submitsLine sinks ev.1 nowNs now
  rw [linesOf, hline.submitted] at h ⊢
  split_ifs at h ⊢ with hsinks
  · rfl
  · exact absurd rfl h

/-- The name of the session `k`. -/
def nameOf (s : Senders) (k : ℕ) : Option String := s.opened[k]?.map OpenSession.id

/-- `log` has the documents that were written, each with the session it is of. -/
structure Logged (s : Senders) (log : List (ℕ × Json)) : Prop where
  counter : s.counter = UInt64.ofNat s.opened.length
  ids : ∀ k session, s.opened[k]? = some session →
    ∃ ns, session.id = genSessionId session.identity.pid ns (UInt64.ofNat k)
  lines : s.submitted = log.map fun e => e.2.compact ++ "\n"
  streams : ∀ k session, s.opened[k]? = some session →
    TaggedLog.stream k log = session.documents
  origin : ∀ e ∈ log, e.2.readable = true ∧ e.1 < s.opened.length ∧
    sessionOf e.2 = s.nameOf e.1

theorem nameOf_eq {s : Senders} {k : ℕ} {session : OpenSession} (hk : s.opened[k]? = some session) :
    s.nameOf k = some session.id := by
  rw [nameOf, hk]
  rfl

/-- A session is one of those before, or the one that was opened last. -/
theorem eq_of_getElem?_concat {l : List OpenSession} {last session : OpenSession} {k : ℕ}
    (hk : (l ++ [last])[k]? = some session) :
    l[k]? = some session ∨ k = l.length ∧ session = last := by
  rcases Nat.lt_trichotomy k l.length with hlt | rfl | hgt
  · rw [List.getElem?_append_left hlt] at hk
    exact .inl hk
  · rw [List.getElem?_concat_length] at hk
    exact .inr ⟨rfl, (Option.some.inj hk).symm⟩
  · rw [List.getElem?_eq_none (by rw [List.length_append, List.length_singleton]; omega)] at hk
    cases hk

theorem Logged.opens {s : Senders} {log : List (ℕ × Json)} (h : Logged s log)
    (manifest : PluginManifest) (identity : ClientIdentity) (ns : UInt64) :
    Logged { s with
      counter := s.counter + 1
      opened := s.opened ++ [{
        manifest := manifest
        identity := identity
        id := genSessionId identity.pid ns s.counter }] } log where
  counter := by
    rw [h.counter, List.length_append, List.length_singleton, UInt64.ofNat_add]
    rfl
  ids k session hk := by
    rcases eq_of_getElem?_concat hk with hk | ⟨rfl, rfl⟩
    · exact h.ids k session hk
    · exact ⟨ns, by rw [h.counter]⟩
  lines := h.lines
  streams k session hk := by
    rcases eq_of_getElem?_concat hk with hk | ⟨rfl, rfl⟩
    · exact h.streams k session hk
    · refine TaggedLog.stream_eq_nil fun e he => ?_
      exact Nat.ne_of_lt (h.origin e he).2.1
  origin e he := by
    obtain ⟨hread, hlt, hname⟩ := h.origin e he
    refine ⟨hread, ?_, ?_⟩
    · rw [List.length_append]
      exact Nat.lt_add_right _ hlt
    · rw [hname, nameOf, nameOf, List.getElem?_append_left hlt]

theorem Logged.emits {s : Senders} {log : List (ℕ × Json)} (h : Logged s log) {k : ℕ}
    {session : OpenSession} (hk : s.opened[k]? = some session) (e : ReadEvent × UInt64) :
    Logged { s with
      opened := s.opened.set k { session with sent := session.sent ++ [e] }
      submitted := s.submitted ++ [(session.document e).compact ++ "\n"] }
      (log ++ [(k, session.document e)]) := by
  have hlt : k < s.opened.length := (List.getElem?_eq_some_iff.mp hk).1
  have hsame (j : ℕ) : nameOf { s with
      opened := s.opened.set k { session with sent := session.sent ++ [e] }
      submitted := s.submitted ++ [(session.document e).compact ++ "\n"] } j = s.nameOf j := by
    rw [nameOf, nameOf, List.getElem?_set]
    split_ifs with hj
    · rw [← hj, hk]
      rfl
    · rfl
  refine ⟨?_, fun j other hj => ?_, ?_, fun j other hj => ?_, fun d hd => ?_⟩
  · rw [List.length_set]
    exact h.counter
  · rw [List.getElem?_set] at hj
    split_ifs at hj with hjk
    · obtain rfl := hjk
      obtain rfl := Option.some.inj hj
      exact h.ids k session hk
    · exact h.ids j other hj
  · rw [h.lines, List.map_append]
    rfl
  · rw [List.getElem?_set] at hj
    split_ifs at hj with hjk
    · obtain rfl := hjk
      obtain rfl := Option.some.inj hj
      rw [TaggedLog.stream_concat_self, h.streams k session hk]
      show session.sent.map session.document ++ [session.document e]
        = (session.sent ++ [e]).map session.document
      rw [List.map_append]
      rfl
    · rw [TaggedLog.stream_concat_ne hjk]
      exact h.streams j other hj
  · rw [List.length_set, hsame]
    rcases List.mem_append.mp hd with hd | hd
    · exact h.origin d hd
    · obtain rfl := List.mem_singleton.mp hd
      refine ⟨readable_document session e, hlt, ?_⟩
      rw [sessionOf_document, nameOf_eq hk]

theorem Logged.step {sinks : Detection.Sinks} {s t : Senders} {a : Action}
    {log : List (ℕ × Json)} (h : Logged s log) (hst : step sinks s a = some t) :
    ∃ log', Logged t log' := by
  match a with
  | .opens manifest identity ns =>
    obtain rfl := Option.some.inj hst
    exact ⟨log, h.opens manifest identity ns⟩
  | .emits k ev nowNs now taken =>
    rw [Senders.step] at hst
    split at hst
    · cases hst
    · next session hk =>
      split_ifs at hst with hline
      · obtain rfl := Option.some.inj hst
        rw [linesOf_eq hline.2]
        exact ⟨_, h.emits hk (ev, nowNs)⟩
      · obtain rfl := Option.some.inj hst
        exact ⟨log, h⟩

theorem logged_of_run {sinks : Detection.Sinks} {actions : List Action} {s : Senders}
    (h : run (step sinks) {} actions = some s) : ∃ log, Logged s log := by
  refine invariant_of_run (I := fun s => ∃ log, Logged s log) (fun s a t hs hst => ?_) ?_ h
  · obtain ⟨log, hlog⟩ := hs
    exact hlog.step hst
  · exact ⟨[], rfl, nofun, rfl, nofun, nofun⟩

/-- No two sessions have the same identifier, until the counter starts again. -/
theorem Logged.eq_of_id {s : Senders} {log : List (ℕ × Json)} (h : Logged s log)
    (hcount : s.opened.length ≤ 2 ^ 64) {j k : ℕ} {session session' : OpenSession}
    (hj : s.opened[j]? = some session) (hk : s.opened[k]? = some session')
    (hid : session.id = session'.id) : j = k := by
  obtain ⟨ns, hns⟩ := h.ids j session hj
  obtain ⟨ns', hns'⟩ := h.ids k session' hk
  rw [hns, hns'] at hid
  have hjlt : j < 2 ^ 64 := Nat.lt_of_lt_of_le (List.getElem?_eq_some_iff.mp hj).1 hcount
  have hklt : k < 2 ^ 64 := Nat.lt_of_lt_of_le (List.getElem?_eq_some_iff.mp hk).1 hcount
  have hnat := congrArg UInt64.toNat (counter_of_genSessionId hid)
  rwa [UInt64.toNat_ofNat_of_lt' hjlt, UInt64.toNat_ofNat_of_lt' hklt] at hnat

/-- **The sessions can be told apart.** However the sessions interleave and whatever lines the
spool refuses, the text it has taken is read as documents each of which names its session; and
those that name a session are what it has sent, in order. -/
theorem sessions_told_apart (sinks : Detection.Sinks) (actions : List Action) (s : Senders)
    (h : run (step sinks) {} actions = some s) (hcount : s.opened.length ≤ 2 ^ 64) :
    ∃ docs : List Json, Json.parseLines (s.submitted.flatMap String.toList) = some docs ∧
      (∀ doc ∈ docs, ∃ session ∈ s.opened, sessionOf doc = some session.id) ∧
      (s.opened.map OpenSession.id).Nodup ∧
      ∀ session ∈ s.opened,
        docs.filter (fun doc => sessionOf doc = some session.id) = session.documents := by
  obtain ⟨log, hlog⟩ := logged_of_run h
  refine ⟨log.map Prod.snd, ?_, ?_, ?_, ?_⟩
  · have htext : s.submitted = (log.map Prod.snd).map fun doc => doc.compact ++ "\n" := by
      rw [hlog.lines, List.map_map]
      rfl
    rw [htext]
    refine Agent.parseLines_documents fun doc hdoc => ?_
    obtain ⟨e, he, rfl⟩ := List.mem_map.mp hdoc
    exact (hlog.origin e he).1
  · intro doc hdoc
    obtain ⟨e, he, rfl⟩ := List.mem_map.mp hdoc
    obtain ⟨-, hlt, hname⟩ := hlog.origin e he
    refine ⟨s.opened[e.1], List.getElem_mem hlt, ?_⟩
    rw [hname, nameOf_eq (List.getElem?_eq_getElem hlt)]
  · rw [List.nodup_iff_getElem?_ne_getElem?]
    intro i j hij hj hsame
    rw [List.length_map] at hj
    have hi : i < s.opened.length := hij.trans hj
    rw [List.getElem?_map, List.getElem?_map, List.getElem?_eq_getElem hi,
      List.getElem?_eq_getElem hj] at hsame
    exact hij.ne (hlog.eq_of_id hcount (List.getElem?_eq_getElem hi)
      (List.getElem?_eq_getElem hj) (Option.some.inj hsame))
  · intro session hsession
    obtain ⟨k, hk⟩ := List.mem_iff_getElem?.mp hsession
    rw [← hlog.streams k session hk, ← nameOf_eq hk]
    refine TaggedLog.filter_entries (fun e he => (hlog.origin e he).2.2) fun e he hname => ?_
    have hlt := (hlog.origin e he).2.1
    rw [nameOf_eq hk, nameOf_eq (List.getElem?_eq_getElem hlt)] at hname
    exact hlog.eq_of_id hcount (List.getElem?_eq_getElem hlt) hk (Option.some.inj hname)

/-- A session that sends two events, with one of another session between them. -/
theorem two_sessions_told_apart : ∃ s : Senders,
    s.opened.length = 2 ∧ s.submitted.length = 3 ∧
    ∃ docs : List Json, Json.parseLines (s.submitted.flatMap String.toList) = some docs ∧
      (∀ doc ∈ docs, ∃ session ∈ s.opened, sessionOf doc = some session.id) ∧
      (s.opened.map OpenSession.id).Nodup ∧
      ∀ session ∈ s.opened,
        docs.filter (fun doc => sessionOf doc = some session.id) = session.documents := by
  let sinks : Detection.Sinks := ⟨none, false, true, false⟩
  let manifest : PluginManifest := ⟨"acme", "Acme", "C:\\Acme\\p.exe", none, none, false, false, []⟩
  let ev : ReadEvent := ⟨⟨1, 0, "login", ⟨.object [], rfl⟩⟩, rfl⟩
  exact ⟨_, by decide, by decide, sessions_told_apart sinks
    [.opens manifest acmeIdentity 0, .opens manifest acmeIdentity 0, .emits 0 ev 0 0 true,
      .emits 1 ev 0 0 true, .emits 0 ev 0 0 true] _ rfl (by decide)⟩

end Senders

end Plugin

end WazabiAgent
