import WazabiAgent.Agent.Ingestion
import WazabiAgent.Lib.Memo

/-!
# Names of accounts

The kernel reports a SID, and `resolve_user` (`enrich.rs`) asks Windows for the account that it
stands for. That is slow, so the answers are kept, those that are none included. The thread of the
pump is the only one that asks. Nothing panics while it has the mutex, which is thus never poisoned.

Windows may give another answer later, since accounts are created, renamed and deleted.

## Main definitions

* `resolveUser` — the function, with the cache it leaves
* `askedSid` — the SID that an event has to have resolved
* `pumpAll` — the pump with the cache

## Main results

* `decodeKernelEvent_congr` — of the accounts, an event depends on that of `askedSid`
* `pump_cached` — what the cache changes of the outputs, and what it spares Windows
-/

namespace WazabiAgent

namespace Enrich

open Detection Ipc Ingestion

/-- An account and its domain, if Windows has one for the SID. -/
abbrev Account := Option (String × String)

/-- `USER_CACHE_MAX`. -/
def userCacheMax : ℕ := 4096

/-- The accounts by SID. -/
abbrev UserCache := KeyedMap String Account

/-- `resolve_user`, where `lookupSid` is what Windows says at the moment. -/
def resolveUser (lookupSid : String → Account) (cache : UserCache) (sidStr : String) :
    Account × UserCache :=
  if sidStr = "" then (none, cache) else Memo.ask userCacheMax lookupSid cache sidStr

/-! ### Which account an event needs -/

/-- The SID of a new process, unless it is empty. -/
def sidOf (buf : List UInt8) (size : ℕ) : Option String :=
  match readPacked 10672 ProcessCreateEvent.read buf size "ProcessCreate" with
  | .ok evt => some (decodePath userSidMax evt.userSid evt.userSidLen) |>.filter (· ≠ "")
  | .error _ => none

/-- The SID that is looked up for the event in a buffer. -/
def askedSid (buf : List UInt8) : Option String :=
  let h := (EventHeader.read.run buf).1
  if buf.length < headerSize ∨ h.version ≠ eventVersion ∨ h.size > buf.length ∨ h.type ≠ 1 then none
  else sidOf buf h.size

/-- The answers of Windows, with these about accounts. -/
def resolving (env : KernelEnv) (f : String → Account) : KernelEnv := { env with resolveUser := f }

variable {env : KernelEnv} {f g : String → Account} {buf : List UInt8}

theorem insertUser_congr {userSid : String} (h : userSid ≠ "" → f userSid = g userSid)
    (obj : List (String × Json)) :
    insertUser (resolving env f) userSid obj = insertUser (resolving env g) userSid obj := by
  rw [insertUser, insertUser]
  split_ifs with hsid
  · rfl
  · show (match f userSid with | none => _ | some (account, domain) => _)
      = (match g userSid with | none => _ | some (account, domain) => _)
    rw [h hsid]

theorem encodeProcessCreate_congr {size : ℕ}
    (h : ∀ sid, sidOf buf size = some sid → f sid = g sid) :
    encodeProcessCreate (resolving env f) buf size
      = encodeProcessCreate (resolving env g) buf size := by
  rw [encodeProcessCreate, encodeProcessCreate]
  rw [sidOf] at h
  cases hread : readPacked 10672 ProcessCreateEvent.read buf size "ProcessCreate" with
  | error e => rfl
  | ok evt =>
    rw [hread] at h
    have huser : decodePath userSidMax evt.userSid evt.userSidLen ≠ "" →
        f (decodePath userSidMax evt.userSid evt.userSidLen)
          = g (decodePath userSidMax evt.userSid evt.userSidLen) :=
      fun hsid => h _ (Option.filter_eq_some_iff.mpr ⟨rfl, decide_eq_true hsid⟩)
    show Except.ok _ = Except.ok _
    simp only [insertUser_congr huser]
    rfl

theorem encodePayload_congr {h : EventHeader}
    (hsid : h.type = 1 → ∀ sid, sidOf buf h.size = some sid → f sid = g sid) :
    encodePayload (resolving env f) buf h = encodePayload (resolving env g) buf h := by
  rw [encodePayload, encodePayload]
  dsimp only
  split
  · next htype => rw [encodeProcessCreate_congr (hsid htype)]
  all_goals rfl

/-- **Of the accounts, an event depends on the one that is looked up for it.** -/
theorem decodeKernelEvent_congr (h : ∀ sid, askedSid buf = some sid → f sid = g sid) :
    decodeKernelEvent (resolving env f) buf = decodeKernelEvent (resolving env g) buf := by
  rw [decodeKernelEvent, decodeKernelEvent]
  split_ifs with hlen
  · rfl
  · dsimp only
    split_ifs with hversion hsize
    · rfl
    · rfl
    · rw [encodePayload_congr]
      · rfl
      · intro htype sid hsid
        refine h sid ?_
        rw [askedSid, if_neg (by simp [hlen, hversion, hsize, htype])]
        exact hsid

theorem pumpEvent_congr (sinks : Sinks) (now : ℕ)
    (h : ∀ sid, askedSid buf = some sid → f sid = g sid) :
    pumpEvent sinks (resolving env f) buf now = pumpEvent sinks (resolving env g) buf now := by
  rw [pumpEvent, pumpEvent, encodeKernelEventAndLog, encodeKernelEventAndLog, encodeKernelEvent,
    encodeKernelEvent, decodeKernelEvent_congr h]

theorem ne_empty_of_askedSid {sid : String} (h : askedSid buf = some sid) : sid ≠ "" := by
  rw [askedSid] at h
  split_ifs at h
  rw [sidOf] at h
  split at h
  · exact of_decide_eq_true (Option.filter_eq_some_iff.mp h).2
  · cases h

/-! ### The pump -/

/-- A buffer, and what Windows says when it arrives. -/
structure Arrival where
  env : KernelEnv
  buf : List UInt8
  now : ℕ

/-- The account that is looked up. Without a consumer, nothing is decoded. -/
def Arrival.asks (sinks : Sinks) (a : Arrival) : Option String :=
  if sinks.detection || sinks.spool then askedSid a.buf else none

/-- The answers that the encoding gets, some of them from the cache. -/
def Arrival.cached (a : Arrival) (cache : UserCache) : KernelEnv :=
  resolving a.env fun sid => (resolveUser a.env.resolveUser cache sid).1

/-- One buffer, with the cache. -/
def pumpStep (sinks : Sinks) (cache : UserCache) (a : Arrival) : Outputs × UserCache :=
  (pumpEvent sinks (a.cached cache) a.buf a.now,
    match a.asks sinks with
    | some sid => (resolveUser a.env.resolveUser cache sid).2
    | none => cache)

/-- The steps of the pump, and the cache they leave. -/
def pumpAll (sinks : Sinks) : UserCache → List Arrival → List Outputs × UserCache
  | cache, [] => ([], cache)
  | cache, a :: as =>
    let (out, cache) := pumpStep sinks cache a
    let (outs, cache) := pumpAll sinks cache as
    (out :: outs, cache)

/-- What Windows is asked about. -/
def Arrival.misses (sinks : Sinks) (cache : UserCache) (a : Arrival) : List String :=
  match a.asks sinks with
  | some sid => if sid ∈ cache then [] else [sid]
  | none => []

/-- The SIDs that are looked up, in order. -/
def lookups (sinks : Sinks) : UserCache → List Arrival → List String
  | _, [] => []
  | cache, a :: as => a.misses sinks cache ++ lookups sinks (pumpStep sinks cache a).2 as

section

variable {sinks : Sinks} {cache : UserCache} {a : Arrival}

theorem pumpStep_of_asks {sid : String} (h : a.asks sinks = some sid) :
    (pumpStep sinks cache a).2 = (Memo.ask userCacheMax a.env.resolveUser cache sid).2 := by
  rw [pumpStep, h]
  rw [Arrival.asks] at h
  split_ifs at h
  exact congrArg Prod.snd (if_neg (ne_empty_of_askedSid h))

theorem pumpStep_of_not (h : a.asks sinks = none) : (pumpStep sinks cache a).2 = cache := by
  rw [pumpStep, h]

theorem pumpStep_length (h : cache.entries.length ≤ userCacheMax + 1) :
    (pumpStep sinks cache a).2.entries.length ≤ userCacheMax + 1 := by
  cases hasks : a.asks sinks with
  | none => rwa [pumpStep_of_not hasks]
  | some sid =>
    rw [pumpStep_of_asks hasks]
    exact Memo.length_ask_le _ _ h

/-- A buffer is encoded with the answers of one moment so far. -/
theorem pumpStep_sound (sinks : Sinks) (a : Arrival) {sources : List (String → Account)}
    (h : Memo.Sound sources cache) :
    Memo.Sound (sources ++ [a.env.resolveUser]) (pumpStep sinks cache a).2 ∧
      ∃ s ∈ sources ++ [a.env.resolveUser],
        (pumpStep sinks cache a).1 = pumpEvent sinks (resolving a.env s) a.buf a.now := by
  constructor
  · cases hasks : a.asks sinks with
    | none =>
      rw [pumpStep_of_not hasks]
      exact h.mono
    | some sid =>
      rw [pumpStep_of_asks hasks]
      exact (h.ask _ _ _).1
  · cases hsid : askedSid a.buf with
    | none =>
      refine ⟨a.env.resolveUser, List.mem_append_right _ (List.mem_singleton_self _), ?_⟩
      exact pumpEvent_congr sinks a.now (by simp [hsid])
    | some sid =>
      obtain ⟨s, hs, hanswer⟩ := (h.ask userCacheMax a.env.resolveUser sid).2
      refine ⟨s, hs, pumpEvent_congr sinks a.now fun sid' hsid' => ?_⟩
      obtain rfl := Option.some.inj (hsid.symm.trans hsid')
      rw [← hanswer]
      exact congrArg Prod.fst (if_neg (ne_empty_of_askedSid hsid))

theorem pumpStep_kept (sinks : Sinks) {keys asked : List String} (h : Memo.Kept keys asked cache)
    (hlimit : keys.length ≤ userCacheMax + 1) (ha : ∀ sid, askedSid a.buf = some sid → sid ∈ keys) :
    Memo.Kept keys (asked ++ a.misses sinks cache) (pumpStep sinks cache a).2 := by
  cases hasks : a.asks sinks with
  | none =>
    rw [pumpStep_of_not hasks, Arrival.misses, hasks]
    simpa using h
  | some sid =>
    rw [pumpStep_of_asks hasks]
    have hkey : sid ∈ keys := by
      rw [Arrival.asks] at hasks
      split_ifs at hasks
      exact ha sid hasks
    have hkept := h.ask hlimit hkey a.env.resolveUser
    rw [Arrival.misses, hasks]
    dsimp only
    split_ifs at hkept ⊢ with hknown
    · rwa [List.append_nil]
    · exact hkept

end

variable {sinks : Sinks}

theorem pumpAll_length (as : List Arrival) {cache : UserCache}
    (h : cache.entries.length ≤ userCacheMax + 1) :
    (pumpAll sinks cache as).2.entries.length ≤ userCacheMax + 1 := by
  induction as generalizing cache with
  | nil => exact h
  | cons a as ih => exact ih (pumpStep_length h)

theorem pumpAll_outputs (as : List Arrival) (cache : UserCache) :
    (pumpAll sinks cache as).1.length = as.length := by
  induction as generalizing cache with
  | nil => rfl
  | cons a as ih => exact congrArg Nat.succ (ih _)

theorem pumpAll_sound (sinks : Sinks) (before as : List Arrival) {cache : UserCache}
    (h : Memo.Sound (before.map (·.env.resolveUser)) cache) (i : ℕ) (a : Arrival)
    (ha : as[i]? = some a) :
    ∃ j ≤ before.length + i, ∃ b, (before ++ as)[j]? = some b ∧
      (pumpAll sinks cache as).1[i]?
        = some (pumpEvent sinks (resolving a.env b.env.resolveUser) a.buf a.now) := by
  induction as generalizing before cache i with
  | nil => simp at ha
  | cons a' as ih =>
    obtain ⟨hnext, s, hs, hout⟩ := pumpStep_sound sinks a' h
    have hmap : before.map (·.env.resolveUser) ++ [a'.env.resolveUser]
        = (before ++ [a']).map (·.env.resolveUser) := by simp
    rw [hmap] at hnext hs
    match i with
    | 0 =>
      obtain rfl := Option.some.inj ha
      obtain ⟨b, hb, rfl⟩ := List.mem_map.mp hs
      obtain ⟨j, hj, hget⟩ := List.getElem_of_mem hb
      have hle : j ≤ before.length := by
        rw [List.length_append, List.length_singleton] at hj
        omega
      refine ⟨j, hle, b, ?_, congrArg some hout⟩
      rw [List.append_cons, List.getElem?_append_left hj, ← hget, List.getElem?_eq_getElem hj]
    | i + 1 =>
      obtain ⟨j, hj, b, hb, hi⟩ := ih (before ++ [a']) hnext i ha
      refine ⟨j, ?_, b, ?_, hi⟩
      · rw [List.length_append, List.length_singleton] at hj
        omega
      · rwa [List.append_assoc] at hb

theorem lookups_kept (as : List Arrival) {cache : UserCache} {keys asked : List String}
    (h : Memo.Kept keys asked cache) (hlimit : keys.length ≤ userCacheMax + 1)
    (has : ∀ a ∈ as, ∀ sid, askedSid a.buf = some sid → sid ∈ keys) :
    (asked ++ lookups sinks cache as).Nodup := by
  induction as generalizing cache asked with
  | nil =>
    rw [lookups, List.append_nil]
    exact h.nodup
  | cons a as ih =>
    have hnext := pumpStep_kept sinks h hlimit (has a List.mem_cons_self)
    rw [lookups, ← List.append_assoc]
    exact ih hnext fun b hb => has b (List.mem_cons_of_mem _ hb)

/-- **The cache of account names.** It has at most 4097 entries. Each buffer is handled as it would
    be without a cache, had Windows said the same of accounts as it said when one of the buffers up
    to this one arrived; so if it always says the same, the cache makes no difference. And as long
    as there are no more than 4097 SIDs, Windows is asked about none of them twice. -/
theorem pump_cached (sinks : Sinks) (as : List Arrival) :
    (pumpAll sinks ∅ as).2.entries.length ≤ 4097 ∧
      (∀ (i : ℕ) (a : Arrival), as[i]? = some a → ∃ j ≤ i, ∃ b : Arrival, as[j]? = some b ∧
        (pumpAll sinks ∅ as).1[i]?
          = some (pumpEvent sinks (resolving a.env b.env.resolveUser) a.buf a.now)) ∧
      ((∃ f, ∀ a ∈ as, a.env.resolveUser = f) →
        (pumpAll sinks ∅ as).1 = as.map fun a => pumpEvent sinks a.env a.buf a.now) ∧
      ∀ keys : List String, keys.length ≤ 4097 →
        (∀ a ∈ as, ∀ sid, askedSid a.buf = some sid → sid ∈ keys) → (lookups sinks ∅ as).Nodup := by
  have hanswers (i : ℕ) (a : Arrival) (ha : as[i]? = some a) :=
    pumpAll_sound sinks [] as (Memo.sound_empty _) i a ha
  refine ⟨pumpAll_length as (Nat.zero_le _), fun i a ha => ?_, ?_, fun keys hkeys has => ?_⟩
  · simpa using hanswers i a ha
  · rintro ⟨f, hf⟩
    refine List.ext_getElem? fun i => ?_
    rw [List.getElem?_map]
    cases ha : as[i]? with
    | none =>
      rw [List.getElem?_eq_none_iff] at ha
      exact List.getElem?_eq_none_iff.mpr (by rwa [pumpAll_outputs])
    | some a =>
      obtain ⟨j, -, b, hb, hi⟩ := hanswers i a ha
      rw [List.nil_append] at hb
      have hsame : b.env.resolveUser = a.env.resolveUser :=
        (hf b (List.mem_of_getElem? hb)).trans (hf a (List.mem_of_getElem? ha)).symm
      rw [hi, hsame]
      rfl
  · exact lookups_kept as (Memo.kept_empty keys) hkeys has

end Enrich

end WazabiAgent
