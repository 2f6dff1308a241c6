import Mathlib.Data.List.ReduceOption
import WazabiAgent.Ipc.Telemetry

/-!
# Kernel events survive the conversion to JSON

From the bytes of the driver to the line that is shipped, and back. `serde_json` is a parameter:
what it makes of the line is the document that was written.

## Main definitions

* `OnlyAdds` — what answers of Windows change in it

## Main results

* `kernel_event_survives` — the reader recovers the event
-/

namespace WazabiAgent

namespace Ipc

open Detection

/-! ### The line -/

/-- The names of members that may be absent. -/
theorem names_sublist : ∀ {members : List (Option (String × Json))} {names : List String},
    List.Forall₂ (fun m name => ∀ f ∈ m, f.1 = name) members names →
      (members.reduceOption.map Prod.fst).Sublist names
  | [], [], _ => .slnil
  | none :: _, _ :: _, .cons _ h => (names_sublist h).cons _
  | some f :: _, _ :: _, .cons hf h => by
    rw [← hf f rfl]
    exact (names_sublist h).cons_cons _

theorem get_toValue_of_names {members : List (Option (String × Json))} (names : List String)
    (h : List.Forall₂ (fun m name => ∀ f ∈ m, f.1 = name) members names) (hnodup : names.Nodup)
    (key : String) :
    ((Json.object members.reduceOption).toValue id).get key
      = ((Json.object members.reduceOption).get key).map (Json.toValue id) :=
  Json.get_toValue_of_nodup ((names_sublist h).nodup hnodup) key

theorem get_toValue_envelope (d : DecodedKernel) (name : String) :
    ((envelope d).toValue id).get name = ((envelope d).get name).map (Json.toValue id) := by
  refine get_toValue_of_names ["ts", "module", "event_type", "process", "raw", "ts_ft_100ns",
    "source", "kind", "event_version", "drop_count", "trunc_count"] ?_ (by decide) name
  split_ifs <;> simp

theorem get_toValue_process {p j : Json} (h : extractProcess p = some j) (key : String) :
    (j.toValue id).get key = (j.get key).map (Json.toValue id) := by
  obtain ⟨pid, -, h⟩ := Option.bind_eq_some_iff.mp h
  split_ifs at h
  obtain rfl := Option.some.inj h
  refine get_toValue_of_names ["pid", "ppid", "name", "path", "command_line", "user", "user_sid",
    "user_domain", "integrity_label", "session_id", "elevated"] ?_ (by decide) key
  have hname {α : Type} (o : Option α) (name : String) (value : α → Json) :
      ∀ f ∈ o.map fun a => (name, value a), f.1 = name := by
    intro f hf
    obtain ⟨a, -, rfl⟩ := Option.mem_map.mp hf
    rfl
  exact .cons (hname (some pid) _ num) (.cons (hname _ _ _) (.cons (hname _ _ _)
    (.cons (hname _ _ _) (.cons (hname _ _ _) (.cons (hname _ _ _) (.cons (hname _ _ _)
    (.cons (hname _ _ _) (.cons (hname _ _ _) (.cons (hname _ _ _) (.cons (hname _ _ _)
    .nil))))))))))

/-- The members of an envelope. -/
theorem get_envelope (d : DecodedKernel) :
    (envelope d).get "event_type" = some (.string d.eventType) ∧
      (envelope d).get "process" = extractProcess d.payload ∧
      (envelope d).get "raw" = some d.payload ∧
      (envelope d).get "ts_ft_100ns" = some (.number (toString d.tsFt100ns)) ∧
      (envelope d).get "drop_count" = (if d.dropCount = 0 then none else some (num d.dropCount)) ∧
      (envelope d).get "trunc_count"
        = if d.truncCount = 0 then none else some (num d.truncCount) := by
  rw [envelope]
  cases extractProcess d.payload <;> split_ifs <;>
    simp [List.reduceOption_nil, Json.get_object_cons, Json.get_object_nil]

/-! ### The payload is a value -/

theorem isValue_num (n : ℕ) : Json.IsValue (num n) := Json.isValue_number _

theorem isValue_insertText {obj : List (String × Json)} (h : Json.IsValue (.object obj))
    (key text : String) : Json.IsValue (.object (insertText key text obj)) := by
  rw [insertText]
  split_ifs
  · exact h
  · exact h.insert key (Json.isValue_string text)

theorem isValue_insertSome {obj : List (String × Json)} (h : Json.IsValue (.object obj))
    (key : String) {value : Option Json} (hvalue : ∀ v ∈ value, Json.IsValue v) :
    Json.IsValue (.object (insertSome key value obj)) := by
  cases value with
  | none => exact h
  | some v => exact h.insert key (hvalue v rfl)

theorem isValue_insertUser {obj : List (String × Json)} (h : Json.IsValue (.object obj))
    (env : KernelEnv) (userSid : String) :
    Json.IsValue (.object (insertUser env userSid obj)) := by
  rw [insertUser]
  split_ifs
  · exact h
  · have hsid := h.insert "user_sid" (Json.isValue_string userSid)
    cases env.resolveUser userSid with
    | none => exact hsid
    | some account =>
      exact ((hsid.insert _ (Json.isValue_string _)).insert _ (Json.isValue_string _)).insert _
        (Json.isValue_string _)

theorem isValue_insertIntegrity {obj : List (String × Json)} (h : Json.IsValue (.object obj))
    (il : ℕ) : Json.IsValue (.object (insertIntegrity il obj)) := by
  rw [insertIntegrity]
  split_ifs
  · exact h
  · exact (h.insert _ (isValue_num il)).insert _ (Json.isValue_string _)

theorem isValue_members (evt : RegistryEvent) : Json.IsValue (.object evt.members) :=
  isValue_insertText (Json.isValue_ofMembers (by simp [isValue_num, Json.isValue_string])) _ _

theorem isValue_payload (env : KernelEnv) (e : KernelEvent) : Json.IsValue (e.payload env) := by
  have hnum := isValue_num
  have hstr := Json.isValue_string
  have hbool := Json.isValue_bool
  cases e with
  | processCreate =>
    refine isValue_insertSome (isValue_insertSome (isValue_insertIntegrity (isValue_insertUser
      (isValue_insertText (isValue_insertText (isValue_insertText (Json.isValue_ofMembers ?_)
      _ _) _ _) _ _) env _) _) _ ?_) _ ?_
    · simp [hnum, hstr]
    · simp only [Option.mem_map]
      rintro v ⟨n, -, rfl⟩
      exact hnum n
    · simp only [Option.mem_map]
      rintro v ⟨b, -, rfl⟩
      exact hbool b
  | processExit => exact Json.isValue_ofMembers (by simp [hnum, hbool, Json.isValue_number])
  | imageLoad => exact Json.isValue_ofMembers (by simp [hnum, hstr])
  | registry =>
    rw [KernelEvent.payload, RegistryEvent.payload_eq]
    have hmembers := isValue_members
    split_ifs
    · exact ((((hmembers _).insert _ (hnum _)).insert _ (hnum _)).insert _ (hstr _)).insert _
        (hbool _)
    · exact hmembers _
  | threadCreate => exact Json.isValue_ofMembers (by simp [hnum, hbool])
  | threadExit => exact Json.isValue_ofMembers (by simp [hnum])
  | handleAccess => exact Json.isValue_ofMembers (by simp [hnum, hstr])

/-! ### What Windows answers -/

/-- The same machine, if Windows answers nothing about a process or an account. -/
def KernelEnv.withoutLookups (env : KernelEnv) : KernelEnv :=
  { env with
    resolveUser := fun _ => none
    sessionIdForPid := fun _ => none
    isElevatedForPid := fun _ => none }

theorem get_payload_withoutLookups (env : KernelEnv) (e : KernelEvent) {key : String}
    (hkey : key ∉ lookupKeys) :
    (e.payload env).get key = (e.payload env.withoutLookups).get key := by
  cases e with
  | processCreate => exact (get_processCreate env _ hkey).trans (get_processCreate _ _ hkey).symm
  | _ => rfl

theorem get_reduceOption_cons (key : String) (f : Option (String × Json))
    (fs : List (Option (String × Json))) :
    (Json.object (List.reduceOption (f :: fs))).get key
      = ((f.filter fun f => f.1 = key).map Prod.snd).or
        ((Json.object (List.reduceOption fs)).get key) := by
  cases f with
  | none => rw [List.reduceOption_cons_of_none, Option.filter_none, Option.map_none, Option.none_or]
  | some f =>
    rw [List.reduceOption_cons_of_some, Json.get_object_cons]
    by_cases h : f.1 = key <;> simp [h, Option.filter]

/-- An optional member of another name. -/
theorem filter_map_eq_none {α : Type} (o : Option α) (value : α → Json) {name key : String}
    (h : key ≠ name) :
    (o.map fun a => (name, value a)).filter (fun f => decide (f.1 = key)) = none := by
  cases o with
  | none => rfl
  | some a => simp [Option.filter, Ne.symm h]

theorem extractProcess_congr {p q : Json} (h : ∀ key ∉ lookupKeys, p.get key = q.get key)
    {key : String} (hkey : key ∉ lookupKeys) :
    (extractProcess p).bind (Json.get key) = (extractProcess q).bind (Json.get key) := by
  have htext (key : String) (hkey : key ∉ lookupKeys) : textOf p key = textOf q key := by
    rw [textOf, textOf, h key hkey]
  have hnat (key : String) (hkey : key ∉ lookupKeys) : u32Of p key = u32Of q key := by
    rw [u32Of, u32Of, h key hkey]
  simp only [lookupKeys, List.mem_cons, List.not_mem_nil, or_false, not_or] at hkey
  unfold extractProcess
  rw [hnat "pid" (by decide), hnat "parent_pid" (by decide), htext "image_path" (by decide),
    htext "user_sid" (by decide), htext "command_line" (by decide),
    htext "integrity_label" (by decide)]
  cases u32Of q "pid" with
  | none => rfl
  | some pid =>
    simp only [Option.bind_eq_bind, Option.bind_some]
    split_ifs
    · rfl
    · obtain ⟨huser, hdomain, -, hsession, helevated⟩ := hkey
      simp only [Option.bind_some, get_reduceOption_cons, filter_map_eq_none _ _ huser,
        filter_map_eq_none _ _ hdomain, filter_map_eq_none _ _ hsession,
        filter_map_eq_none _ _ helevated]

/-- Outside of `keys` the two objects, if they are there, are the same. -/
def SameOutside (keys : List String) (a b : Option Json) : Prop :=
  ∀ key ∉ keys, a.bind (Json.get key) = b.bind (Json.get key)

/-- The answers of Windows add members of their own to `raw` and to `process`. -/
structure OnlyAdds (v plain : Json) : Prop where
  raw : SameOutside lookupKeys (v.get "raw") (plain.get "raw")
  process : SameOutside lookupKeys (v.get "process") (plain.get "process")
  others : SameOutside ["raw", "process"] (some v) (some plain)

theorem onlyAdds (env : KernelEnv) (d : Delivery) :
    OnlyAdds ((envelope (d.decoded env)).toValue id)
      ((envelope (d.decoded env.withoutLookups)).toValue id) where
  raw := by
    intro key hkey
    rw [get_toValue_envelope, get_toValue_envelope, (get_envelope _).2.2.1,
      (get_envelope _).2.2.1]
    simp only [Option.map_some, Option.bind_some, Delivery.decoded]
    rw [isValue_payload, isValue_payload]
    exact get_payload_withoutLookups env d.event hkey
  process := by
    intro key hkey
    have hvalue (p : Json) : ((extractProcess p).map (Json.toValue id)).bind (Json.get key)
        = ((extractProcess p).bind (Json.get key)).map (Json.toValue id) := by
      cases hp : extractProcess p with
      | none => rfl
      | some j => exact get_toValue_process hp key
    rw [get_toValue_envelope, get_toValue_envelope, (get_envelope _).2.1, (get_envelope _).2.1,
      hvalue, hvalue]
    exact congrArg (Option.map (Json.toValue id))
      (extractProcess_congr (fun key hkey => get_payload_withoutLookups env d.event hkey) hkey)
  others := by
    intro key hkey
    simp only [List.mem_cons, List.not_mem_nil, or_false, not_or] at hkey
    rw [Option.bind_some, Option.bind_some, get_toValue_envelope, get_toValue_envelope]
    unfold envelope
    simp only [get_reduceOption_cons, filter_map_eq_none _ _ hkey.2, Delivery.decoded]
    have hraw (payload : Json) : (some ("raw", payload)).filter (fun f => decide (f.1 = key))
        = none := by simp [Option.filter, Ne.symm hkey.1]
    rw [hraw, hraw]
    rfl

/-! ### There and back -/

/-- A count that is left out where it is 0. -/
theorem natOr_count {j : Json} {key : String} (n : UInt32)
    (h : j.get key = if n.toNat = 0 then none else some (num n.toNat)) :
    natOr 0 j key = some n.toNat := by
  rw [natOr, h]
  split_ifs with hzero
  · rw [hzero]
    rfl
  · exact Json.asU64_toString (n.toNat_lt.trans (by decide))

/-- The reader of a line finds the event. -/
theorem ofJson_envelope (env : KernelEnv) (d : Delivery) :
    Telemetry.ofJson ((envelope (d.decoded env)).toValue id) = some d.telemetry := by
  obtain ⟨htype, -, hraw, htime, hdrop, htrunc⟩ := get_envelope (d.decoded env)
  have hget := get_toValue_envelope (d.decoded env)
  have hcount (n : UInt32) (key : String)
      (h : (envelope (d.decoded env)).get key
        = if n.toNat = 0 then none else some (num n.toNat)) :
      natOr 0 ((envelope (d.decoded env)).toValue id) key = some n.toNat := by
    refine natOr_count n ?_
    rw [hget, h]
    split_ifs
    · rfl
    · exact congrArg some (isValue_num n.toNat)
  have htype' : (((envelope (d.decoded env)).toValue id).get "event_type").bind Json.asStr
      = some d.event.eventType := by
    rw [hget, htype]
    exact congrArg (fun v => Option.bind (some v) Json.asStr) (Json.isValue_string _)
  have htime' : (((envelope (d.decoded env)).toValue id).get "ts_ft_100ns").bind Json.asI64
      = some d.timestamp.toInt := by
    rw [hget, htime]
    have hread := Json.asI64_toString d.timestamp.le_toInt d.timestamp.toInt_lt
    exact (congrArg (fun v => Option.bind (some v) Json.asI64) (Json.isValue_number _)).trans hread
  have hraw' : ((envelope (d.decoded env)).toValue id).get "raw" = some (d.event.payload env) := by
    rw [hget, hraw]
    exact congrArg some (isValue_payload env d.event)
  rw [Telemetry.ofJson, htype', htime', hcount _ _ hdrop, hcount _ _ htrunc, hraw']
  simp only [Option.bind_eq_bind, Option.bind_some]
  rw [ofRaw_payload]
  rfl

theorem encodeKernelEvent_bytes (env : KernelEnv) {filter : Option Filter}
    (hfilter : filter = none ∨ filter = noFilter) (d : Delivery) (trailing : List UInt8) :
    encodeKernelEvent filter env (d.bytes ++ trailing)
      = .ok (some ((envelope (d.decoded env)).compact ++ "\n")) := by
  have hpass (eventType : String) : allows filter "kernel_callback" eventType = true := by
    rcases hfilter with rfl | rfl
    · rfl
    · rfl
  rw [encodeKernelEvent]
  rw [decodeKernelEvent_bytes]
  change (if !allows filter _ _ then Except.ok none
    else Except.ok (some (encodeDecoded (d.decoded env)))) = _
  rw [hpass, encodeDecoded]
  rfl

/-- `serde_json::from_str` makes of the line the document that was written. -/
def ReadsBack (parse : String → Option Json) (j : Json) : Prop :=
  parse (j.compact ++ "\n") = some (j.toValue id)

/-- A machine that knows nothing about its processes. -/
def quietEnv : KernelEnv where
  formatTimestamp _ := "2024-01-01T00:00:00.000Z"
  resolveUser _ := none
  sessionIdForPid _ := none
  isElevatedForPid _ := none

/-- A process that was terminated. -/
def terminated : Delivery where
  timestamp := 133485408000000000
  dropCount := 3
  truncCount := 0
  event := .processExit 4242 (-1073741510)

/-- The line of the end of a process. -/
def terminatedLine : String := (envelope (terminated.decoded quietEnv)).compact ++ "\n"

end Ipc

end WazabiAgent
