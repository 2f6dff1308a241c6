import WazabiAgent.Control.Isolation
import WazabiAgent.Lib.Text

/-!
# The way back from isolation

An isolated host is to be released by a command that it receives with a heartbeat. So the rules of
the isolation have to let the heartbeat through: the connection to the server and, if `server_url`
has a name for it, the request to a name server.

The rules are made from what the allowed hosts resolve to before the reset, one address for each
host that has an IPv4 address. A host that does not resolve gets none, and a name server gets one
only if it is an allowed host itself. None of this affects the status of the command.

What is looked up and how the calls of `netsh` end is recorded beside the run.

## Main definitions

* `Policy`, `advfirewall` — a firewall that knows its default and the rules that were added
* `WayBack` — the flows that the next heartbeat needs are let through
* `CanReturn` — what has to be resolved for that

## Main results

* `wayBack_iff` — an isolation that succeeds leaves a way back exactly if that is
* `no_way_back` — a server that is known by its name
-/

namespace WazabiAgent

namespace Control

open Prog

/-! ### Addresses -/

/-- How addresses are read and written, as far as it matters here: what is written is read again,
and has no comma. -/
structure IpText (A : Type) where
  parse : String → Option A
  toString : A → String
  isV4 : A → Bool
  parse_toString : ∀ a, parse (toString a) = some a
  no_comma : ∀ a, ',' ∉ (toString a).toList

variable {A : Type}

/-- The address that a host gets. What the name service answers is `lookup`. -/
def IpText.resolve (text : IpText A) (lookup : Option (List A)) (host : String) : Option A :=
  match text.parse host with
  | some ip => some ip
  | none => lookup.bind fun addrs => addrs.find? fun a => text.isV4 a

/-- `resolve_host_to_ipv4`. -/
def resolveHostToIpv4 (text : IpText A) (lookup : Option (List A)) (host : String) :
    Option String :=
  (text.resolve lookup host).map text.toString

/-- The addresses of `127.0.0.1,::1`. -/
def IpText.IsLoopback (text : IpText A) (a : A) : Prop :=
  text.parse "127.0.0.1" = some a ∨ text.parse "::1" = some a

/-! ### The firewall -/

/-- The outbound side of the firewall's policy. -/
structure Policy where
  blockOutbound : Bool := false
  /-- Each rule as the arguments that it was added with. -/
  rules : List (List String) := []
  deriving DecidableEq

/-- A reset takes out all rules. -/
def advfirewall : Firewall Policy where
  reset := {}
  stateOn p := p
  firewallPolicy policy p :=
    { p with blockOutbound := decide (policy = "blockinbound,blockoutbound") }
  addRule args p := { p with rules := p.rules ++ [args] }

/-- The protocols of a flow. -/
inductive Protocol
  | tcp
  | udp
  deriving DecidableEq

/-- As an argument of `netsh`. -/
def Protocol.name : Protocol → String
  | .tcp => "tcp"
  | .udp => "udp"

/-- A flow from this host to another. -/
structure Flow (A : Type) where
  protocol : Protocol
  remoteIp : A
  localPort : ℕ
  remotePort : ℕ

/-- The value of an argument `key=value`. -/
def argument (key : String) (args : List String) : Option (List Char) :=
  args.findSome? fun arg =>
    match Text.cutAt ['='] arg.toList with
    | some (name, value) => if name = key.toList then some value else none
    | none => none

/-- An argument that is not there stands for any value. -/
def Covers (value : Option (List Char)) (p : List Char → Prop) : Prop :=
  ∀ v, value = some v → ∃ x ∈ v.splitOn ',', p x

/-- A rule is for the flow, and lets it out. -/
structure RuleAllows (text : IpText A) (args : List String) (f : Flow A) : Prop where
  dir : argument "dir" args = some "out".toList
  action : argument "action" args = some "allow".toList
  protocol : Covers (argument "protocol" args) fun x => x = f.protocol.name.toList
  remoteIp : Covers (argument "remoteip" args) fun x =>
    text.parse (String.ofList x) = some f.remoteIp
  localPort : Covers (argument "localport" args) fun x => x = (Nat.repr f.localPort).toList
  remotePort : Covers (argument "remoteport" args) fun x => x = (Nat.repr f.remotePort).toList

/-- A flow gets out: outbound traffic is not blocked, or a rule lets it through. -/
def Policy.Allows (text : IpText A) (p : Policy) (f : Flow A) : Prop :=
  p.blockOutbound = false ∨ ∃ args ∈ p.rules, RuleAllows text args f

/-! ### What the heartbeat needs -/

/-- The host and the port that `server_url` names. -/
structure Server (text : IpText A) where
  host : String
  port : ℕ
  addresses : Set A
  /-- An IP literal names its address. -/
  literal : ∀ a, text.parse host = some a → a ∈ addresses

/-- The connection to the server gets through, and so does the request to a name server if there is
a name to be resolved. -/
def WayBack (text : IpText A) (server : Server text) (dns : Set A) (p : Policy) : Prop :=
  (∃ a ∈ server.addresses, ∀ localPort, p.Allows text ⟨.tcp, a, localPort, server.port⟩) ∧
    (text.parse server.host = none →
      ∃ d ∈ dns, ∀ localPort, p.Allows text ⟨.udp, d, localPort, 53⟩)

/-! ### The record -/

/-- A lookup and its answer, or a command and its outcome. -/
inductive NetEvent (A : Type)
  | looked (host : String) (lookup : Option (List A))
  | called (cmd : Netsh) (ok : Bool)

/-- The operations, with the name service. -/
def performNet {P : Type} [DecidableEq P] (text : IpText A) (fw : Firewall P) :
    Handler FwOp (Host P) (Choice P × Option (List A)) :=
  fun {_} o w c =>
    match o with
    | .resolveHostToIpv4 host => (resolveHostToIpv4 text c.2 host, w)
    | o => perform fw o w c.1

/-- What is recorded of an operation. -/
def noted {P : Type} : {β : Type} → FwOp β → Choice P × Option (List A) → β → Option (NetEvent A)
  | _, .resolveHostToIpv4 host, c, _ => some (.looked host c.2)
  | _, .netsh cmd, _, out => some (.called cmd out.ok)
  | _, _, _, _ => none

/-- The addresses that were found. -/
def resolved (text : IpText A) (events : List (NetEvent A)) : List A :=
  events.filterMap fun e =>
    match e with
    | .looked host lookup => text.resolve lookup host
    | .called _ _ => none

/-- A call of `netsh` failed; or the server is an IP literal; or an address of it was found, or is
always let through, and so was one of a name server. -/
def CanReturn (text : IpText A) (server : Server text) (dns : Set A)
    (events : List (NetEvent A)) : Prop :=
  (∃ cmd, .called cmd false ∈ events) ∨ (text.parse server.host).isSome = true ∨
    ((∃ a ∈ server.addresses, text.IsLoopback a ∨ a ∈ resolved text events) ∧
      ∃ d ∈ dns, d ∈ resolved text events)

/-! ### The rules -/

variable {text : IpText A}

theorem cutAt_append {c : Char} {name : List Char} (h : c ∉ name) (value : List Char) :
    Text.cutAt [c] (name ++ c :: value) = some (name, value) := by
  induction name with
  | nil => simp [Text.cutAt]
  | cons d name ih =>
    have hd : c ≠ d := List.ne_of_not_mem_cons h
    have hname : c ∉ name := List.not_mem_of_not_mem_cons h
    simp [Text.cutAt, ih hname, hd]

/-- An argument with this name. -/
theorem argument_cons {key arg : String} (name value : List Char) {args : List String}
    (harg : arg.toList = name ++ '=' :: value) (hname : '=' ∉ name) :
    argument key (arg :: args) = if name = key.toList then some value else argument key args := by
  rw [argument, List.findSome?_cons, harg, cutAt_append hname]
  dsimp only
  split_ifs <;> rfl

/-- The arguments that all rules have, and those of their own. -/
theorem argument_addRule (key suffix dir : String) (scope : List String) :
    argument key ((Netsh.addRule suffix dir scope).args "") =
      if "name".toList = key.toList then
        some ((isolateRulePrefix ++ "-").toList ++ suffix.toList)
      else if "dir".toList = key.toList then some dir.toList
      else if "action".toList = key.toList then some "allow".toList
      else if "enable".toList = key.toList then some "yes".toList
      else if "profile".toList = key.toList then some "any".toList
      else argument key scope := by
  have hverb (args : List String) :
      argument key ("advfirewall" :: "firewall" :: "add" :: "rule" :: args) = argument key args :=
    rfl
  simp only [Netsh.args, List.cons_append, List.nil_append]
  rw [hverb, argument_cons "name".toList ((isolateRulePrefix ++ "-").toList ++ suffix.toList)
      (by simp) (by decide),
    argument_cons "dir".toList dir.toList (by simp) (by decide),
    argument_cons "action".toList "allow".toList (by decide) (by decide),
    argument_cons "enable".toList "yes".toList (by decide) (by decide),
    argument_cons "profile".toList "any".toList (by decide) (by decide)]

/-- The arguments that a flow is compared with. -/
def scopeKeys : List String := ["protocol", "remoteip", "localport", "remoteport"]

theorem argument_scope {key : String} (hkey : key ∈ scopeKeys) (suffix dir : String)
    (scope : List String) :
    argument key ((Netsh.addRule suffix dir scope).args "") = argument key scope := by
  rw [argument_addRule]
  simp only [scopeKeys, List.mem_cons, List.not_mem_nil, or_false] at hkey
  rcases hkey with rfl | rfl | rfl | rfl <;> rfl

theorem argument_dir (suffix dir : String) (scope : List String) :
    argument "dir" ((Netsh.addRule suffix dir scope).args "") = some dir.toList := by
  rw [argument_addRule]
  rfl

theorem argument_action (suffix dir : String) (scope : List String) :
    argument "action" ((Netsh.addRule suffix dir scope).args "") = some "allow".toList := by
  rw [argument_addRule]
  rfl

/-- A rule for what comes in lets nothing out. -/
theorem not_ruleAllows_in {suffix : String} {scope : List String} {f : Flow A} :
    ¬RuleAllows text ((Netsh.addRule suffix "in" scope).args "") f := by
  intro h
  have hdir := h.dir
  rw [argument_dir] at hdir
  exact absurd (Option.some.inj hdir) (by decide)

theorem argument_remoteIp (key csv : String) :
    argument key ["remoteip=" ++ csv]
      = if "remoteip".toList = key.toList then some csv.toList else none :=
  argument_cons "remoteip".toList csv.toList (by simp) (by decide)

/-- A rule with no restriction but on the address. -/
theorem ruleAllows_addAllow_iff {suffix csv : String} {f : Flow A} :
    RuleAllows text ((Netsh.addAllow suffix "out" csv).args "") f ↔
      ∃ x ∈ csv.toList.splitOn ',', text.parse (String.ofList x) = some f.remoteIp := by
  have hscope {key : String} (hkey : key ∈ scopeKeys) (hne : "remoteip".toList ≠ key.toList) :
      argument key ((Netsh.addAllow suffix "out" csv).args "") = none := by
    rw [Netsh.addAllow, argument_scope hkey, argument_remoteIp, if_neg hne]
  have hremote : argument "remoteip" ((Netsh.addAllow suffix "out" csv).args "")
      = some csv.toList := by
    rw [Netsh.addAllow, argument_scope (by decide), argument_remoteIp, if_pos rfl]
  have hany {key : String} (hkey : key ∈ scopeKeys) (hne : "remoteip".toList ≠ key.toList)
      (p : List Char → Prop) :
      Covers (argument key ((Netsh.addAllow suffix "out" csv).args "")) p := by
    intro v hv
    rw [hscope hkey hne] at hv
    cases hv
  constructor
  · intro h
    exact h.remoteIp _ hremote
  · intro h
    refine ⟨argument_dir _ _ _, argument_action _ _ _, hany (by decide) (by decide) _, ?_,
      hany (by decide) (by decide) _, hany (by decide) (by decide) _⟩
    intro v hv
    obtain rfl := Option.some.inj (hremote.symm.trans hv)
    exact h

/-- The rule for DHCP is for another port than the heartbeat's requests. -/
theorem not_ruleAllows_dhcp {suffix : String} {f : Flow A}
    (hf : f.protocol = .tcp ∨ f.remotePort = 53) :
    ¬RuleAllows text ((Netsh.addDhcp suffix "out").args "") f := by
  intro h
  rcases hf with htcp | hport
  · have hprotocol := h.protocol "udp".toList
      (by rw [Netsh.addDhcp, argument_scope (by decide)]; rfl)
    rw [htcp] at hprotocol
    exact absurd hprotocol (by decide)
  · have hports := h.remotePort "67,547".toList
      (by rw [Netsh.addDhcp, argument_scope (by decide)]; rfl)
    rw [hport] at hports
    exact absurd hports (by decide)

/-! ### The policy of the isolation -/

/-- What a call of `netsh` makes of the policy. -/
def Netsh.apply {P : Type} (fw : Firewall P) (policy : P) : Netsh → P
  | .reset => fw.reset
  | .stateOn => fw.stateOn policy
  | .firewallPolicy value => fw.firewallPolicy value policy
  | .addRule suffix dir scope => fw.addRule ((Netsh.addRule suffix dir scope).args "") policy
  | .exportTo | .importFrom => policy

/-- What the calls of a list make of it. -/
def applyAll {P : Type} (fw : Firewall P) : List Planned → P → P
  | [], policy => policy
  | .step _ :: ps, policy => applyAll fw ps policy
  | .netsh cmd :: ps, policy => applyAll fw ps (cmd.apply fw policy)

/-- The rules that let something out. -/
theorem rules_isolationScript (ips : List String) (policy : Policy) :
    applyAll advfirewall (isolationScript ips) policy =
      { blockOutbound := true
        rules :=
          [(Netsh.addAllow "LoopOut" "out" "127.0.0.1,::1").args "",
            (Netsh.addAllow "LoopIn" "in" "127.0.0.1,::1").args ""] ++
          (if ips = [] then []
          else [(Netsh.addAllow "ServerOut" "out" (",".intercalate ips)).args "",
            (Netsh.addAllow "ServerIn" "in" (",".intercalate ips)).args ""]) ++
          [(Netsh.addDhcp "DHCP-Out" "out").args "", (Netsh.addDhcp "DHCP-In" "in").args ""] } := by
  by_cases hips : ips = [] <;> simp [isolationScript, hips, applyAll, Netsh.apply, advfirewall,
    Netsh.addAllow, Netsh.addDhcp]

theorem mem_csv_iff (addrs : List A) (hne : addrs ≠ []) (a : A) :
    (∃ x ∈ (",".intercalate (addrs.map text.toString)).toList.splitOn ',',
      text.parse (String.ofList x) = some a) ↔ a ∈ addrs := by
  have hsplit : (",".intercalate (addrs.map text.toString)).toList.splitOn ','
      = addrs.map fun a => (text.toString a).toList := by
    rw [String.toList_intercalate, List.map_map]
    refine List.splitOn_intercalate ',' (fun l hl => ?_) (by simpa using hne)
    obtain ⟨b, -, rfl⟩ := List.mem_map.mp hl
    exact text.no_comma b
  rw [hsplit]
  constructor
  · rintro ⟨x, hx, hparse⟩
    obtain ⟨b, hb, rfl⟩ := List.mem_map.mp hx
    rw [String.ofList_toList, text.parse_toString] at hparse
    exact Option.some.inj hparse ▸ hb
  · intro ha
    refine ⟨_, List.mem_map.mpr ⟨a, ha, rfl⟩, ?_⟩
    rw [String.ofList_toList, text.parse_toString]

/-- **What an isolation lets out**, but for DHCP: the loopback, and what was resolved. -/
theorem allows_iff (addrs : List A) (policy : Policy) {f : Flow A}
    (hf : f.protocol = .tcp ∨ f.remotePort = 53) :
    (applyAll advfirewall (isolationScript (addrs.map text.toString)) policy).Allows text f ↔
      text.IsLoopback f.remoteIp ∨ f.remoteIp ∈ addrs := by
  have hloopback : RuleAllows text ((Netsh.addAllow "LoopOut" "out" "127.0.0.1,::1").args "") f ↔
      text.IsLoopback f.remoteIp := by
    have hsplit : "127.0.0.1,::1".toList.splitOn ',' = ["127.0.0.1".toList, "::1".toList] := by
      decide
    rw [ruleAllows_addAllow_iff, hsplit]
    simp [IpText.IsLoopback]
  have hin (suffix csv : String) :
      ¬RuleAllows text ((Netsh.addAllow suffix "in" csv).args "") f := not_ruleAllows_in
  have hdhcpIn : ¬RuleAllows text ((Netsh.addDhcp "DHCP-In" "in").args "") f := not_ruleAllows_in
  have hdhcpOut : ¬RuleAllows text ((Netsh.addDhcp "DHCP-Out" "out").args "") f :=
    not_ruleAllows_dhcp hf
  rw [rules_isolationScript, Policy.Allows]
  by_cases haddrs : addrs = []
  · subst haddrs
    simp [hloopback, hin, hdhcpIn, hdhcpOut]
  · have hserver : RuleAllows text ((Netsh.addAllow "ServerOut" "out"
        (",".intercalate (addrs.map text.toString))).args "") f ↔ f.remoteIp ∈ addrs :=
      ruleAllows_addAllow_iff.trans (mem_csv_iff addrs haddrs f.remoteIp)
    simp [haddrs, hloopback, hserver, hin, hdhcpIn, hdhcpOut]

/-! ### The run -/

section Run

variable {P : Type} [DecidableEq P] {fw : Firewall P} {path : String} {w : Host P}
  {es : List (NetEvent A)}

/-- `wp` for the operations with their record. -/
abbrev Notes (text : IpText A) (fw : Firewall P) {α : Type} (p : Prog FwOp α)
    (Q : α → Host P × List (NetEvent A) → Prop) (s : Host P × List (NetEvent A)) : Prop :=
  wp (logged (performNet text fw) noted) (fun _ _ _ => True) Eq (fun _ => True) p Q s

theorem notes_op {α β : Type} {o : FwOp β} {k : β → Prog FwOp α}
    {Q : α → Host P × List (NetEvent A) → Prop} {s : Host P × List (NetEvent A)}
    (h : ∀ c, Notes text fw (k (logged (performNet text fw) noted o s c).1) Q
      (logged (performNet text fw) noted o s c).2) : Notes text fw (.op o k) Q s :=
  (wp_alone_op o k Q s).mpr ⟨trivial, fun c _ => h c⟩

theorem notes_pure {α : Type} {a : α} {Q : α → Host P × List (NetEvent A) → Prop}
    {s : Host P × List (NetEvent A)} (h : Q a s) : Notes text fw (.pure a) Q s :=
  (wp_alone_pure a Q s).mpr h

/-- No call has failed. -/
def NoFailure (events : List (NetEvent A)) : Prop := ∀ cmd, .called cmd false ∉ events

/-- Calls only. -/
def CallsOnly (events : List (NetEvent A)) : Prop := ∀ host lookup, .looked host lookup ∉ events

theorem resolved_append (es es' : List (NetEvent A)) :
    resolved text (es ++ es') = resolved text es ++ resolved text es' :=
  List.filterMap_append

theorem resolved_of_callsOnly {events : List (NetEvent A)} (h : CallsOnly events) :
    resolved text events = [] := by
  refine List.filterMap_eq_nil_iff.mpr fun e he => ?_
  cases e with
  | looked host lookup => exact absurd he (h host lookup)
  | called cmd ok => rfl

/-- The hosts are looked up, and that is all. -/
theorem notes_resolveAll (hosts : List String) :
    Notes text fw (resolveAll hosts)
      (fun r s => ∃ looks, s = (w, es ++ looks) ∧ NoFailure looks ∧
        r.1 = (resolved text looks).map text.toString ∧
        ∀ host ∈ hosts, ∃ lookup, .looked host lookup ∈ looks)
      (w, es) := by
  have : IsPreorder (Host P × List (NetEvent A)) Eq := {}
  induction hosts generalizing es with
  | nil => exact notes_pure ⟨[], by simp, by simp [NoFailure], rfl, by simp⟩
  | cons host hosts ih =>
    simp only [resolveAll, call_bind]
    refine notes_op fun c => wp_bind.mpr (wp_mono ?_ ih)
    rintro ⟨ips, unresolved⟩ s ⟨looks, hs, hcalls, hips, hlooked⟩
    have hevents : s = (w, es ++ .looked host c.2 :: looks) := by
      rw [hs]
      simp [noted]
    have hfailure : NoFailure (.looked host c.2 :: looks) := by
      intro cmd hmem
      exact hcalls cmd (by simpa using hmem)
    have hall : ∀ x ∈ host :: hosts, ∃ lookup, .looked x lookup ∈ .looked host c.2 :: looks := by
      intro x hx
      rcases List.mem_cons.mp hx with rfl | hx
      · exact ⟨c.2, List.mem_cons_self⟩
      · obtain ⟨lookup, hmem⟩ := hlooked x hx
        exact ⟨lookup, List.mem_cons_of_mem _ hmem⟩
    simp only [logged, performNet, resolveHostToIpv4]
    simp only at hips
    cases hresolve : text.resolve c.2 host with
    | none =>
      refine notes_pure ⟨_, hevents, hfailure, ?_, hall⟩
      simp [resolved, hresolve, hips]
    | some a =>
      refine notes_pure ⟨_, hevents, hfailure, ?_, hall⟩
      simp [resolved, hresolve, hips]

/-! ### Reports -/

theorem allOk_append (actions actions' : List Json) :
    allOk (actions ++ actions') = true ↔ allOk actions = true ∧ allOk actions' = true := by
  simp [allOk]

/-- A marker. -/
theorem allOk_step (fields : List (String × Json)) (actions : List Json)
    (h : Json.get "ok" (.object fields) = none) :
    allOk (.object fields :: actions) = allOk actions := by
  simp [allOk, h]

/-- The report of a call. -/
theorem allOk_toJson (out : NetshOutput) (args : List String) (actions : List Json) :
    allOk (out.toJson args :: actions) = true ↔ out.ok = true ∧ allOk actions = true := by
  cases out <;> simp [allOk, NetshOutput.toJson, NetshOutput.ok, Json.get, Json.asBool]

/-- The calls that a report is about. -/
structure Reports (actions : List Json) (calls : List (NetEvent A)) : Prop where
  callsOnly : CallsOnly calls
  allOk_iff : allOk actions = true ↔ NoFailure calls

theorem reports_nil (actions : List Json) (h : allOk actions = true) :
    Reports actions ([] : List (NetEvent A)) :=
  ⟨by simp [CallsOnly], by simp [h, NoFailure]⟩

theorem Reports.call {actions : List Json} {calls : List (NetEvent A)} (h : Reports actions calls)
    (cmd : Netsh) (out : NetshOutput) (args : List String) :
    Reports (out.toJson args :: actions) (.called cmd out.ok :: calls) := by
  refine ⟨?_, ?_⟩
  · intro host lookup hmem
    exact h.callsOnly host lookup (by simpa using hmem)
  · rw [allOk_toJson, h.allOk_iff]
    constructor
    · rintro ⟨hok, hcalls⟩ cmd' hmem
      rcases List.mem_cons.mp hmem with heq | hmem
      · rw [hok] at heq
        cases heq
      · exact hcalls cmd' hmem
    · intro hcalls
      refine ⟨?_, fun cmd' hmem => hcalls cmd' (List.mem_cons_of_mem _ hmem)⟩
      by_contra hok
      rw [Bool.not_eq_true] at hok
      exact hcalls cmd (by rw [hok]; exact List.mem_cons_self)

theorem Reports.append {actions actions' : List Json} {calls calls' : List (NetEvent A)}
    (h : Reports actions calls) (h' : Reports actions' calls') :
    Reports (actions ++ actions') (calls ++ calls') := by
  refine ⟨fun host lookup hmem => ?_, ?_⟩
  · rcases List.mem_append.mp hmem with hmem | hmem
    · exact h.callsOnly host lookup hmem
    · exact h'.callsOnly host lookup hmem
  · rw [allOk_append, h.allOk_iff, h'.allOk_iff]
    simp only [NoFailure, List.mem_append, not_or, forall_and]

/-! ### The calls -/

/-- A call that sets the policy does so if it succeeds. -/
theorem live_netsh (fw : Firewall P) {cmd : Netsh} (hcmd : cmd ≠ .importFrom) (c : Choice P)
    (hok : (w.output c cmd).ok = true) : (w.netsh fw c cmd).live = cmd.apply fw w.live := by
  cases cmd with
  | importFrom => exact absurd rfl hcmd
  | exportTo => rfl
  | reset =>
    have hok' : c.output.ok = true := hok
    simp [Host.netsh, Host.set, Netsh.apply, hok']
  | stateOn | firewallPolicy value | addRule suffix dir scope =>
    have hok' : c.output.ok = true := hok
    simp [Host.netsh, Host.set, Netsh.apply, hok']

theorem notes_runAll (ps : List Planned) (hps : Planned.netsh .importFrom ∉ ps) :
    Notes text fw (runAll path ps)
      (fun actions s => ∃ calls, s.2 = es ++ calls ∧ Reports actions calls ∧
        (NoFailure calls → s.1.live = applyAll fw ps w.live))
      (w, es) := by
  have : IsPreorder (Host P × List (NetEvent A)) Eq := {}
  induction ps generalizing w es with
  | nil => exact notes_pure ⟨[], by simp, reports_nil _ rfl, fun _ => rfl⟩
  | cons p ps ih =>
    have hrest : Planned.netsh .importFrom ∉ ps := fun h => hps (List.mem_cons_of_mem p h)
    cases p with
    | step name =>
      refine wp_bind.mpr (wp_mono ?_ (ih hrest))
      rintro actions s ⟨calls, hs, hreports, hlive⟩
      refine notes_pure ⟨calls, hs, ⟨hreports.callsOnly, ?_⟩, hlive⟩
      rw [allOk_step _ _ rfl]
      exact hreports.allOk_iff
    | netsh cmd =>
      simp only [runAll, call_bind]
      refine notes_op fun c => wp_bind.mpr (wp_mono ?_ (ih hrest))
      rintro actions s ⟨calls, hs, hreports, hlive⟩
      refine notes_pure ⟨.called cmd (w.output c.1 cmd).ok :: calls, ?_, hreports.call cmd _ _, ?_⟩
      · rw [hs]
        exact List.append_assoc es [_] calls
      · intro hcalls
        have hok : (w.output c.1 cmd).ok = true := by
          by_contra hok
          rw [Bool.not_eq_true] at hok
          exact hcalls cmd (by rw [hok]; exact List.mem_cons_self)
        have hcmd : cmd ≠ .importFrom := by
          rintro rfl
          exact hps List.mem_cons_self
        rw [hlive fun cmd' hmem => hcalls cmd' (List.mem_cons_of_mem _ hmem), applyAll,
          ← live_netsh fw hcmd c.1 hok]
        rfl

theorem notes_saveBackup :
    Notes text fw (saveBackup path)
      (fun actions s => ∃ calls, s.2 = es ++ calls ∧ Reports actions calls) (w, es) := by
  simp only [saveBackup, call_bind]
  refine notes_op fun c => ?_
  split
  · exact notes_pure ⟨[], rfl, reports_nil _ rfl⟩
  · refine notes_op fun c => notes_op fun c' => notes_pure ?_
    have hreport := (reports_nil (A := A) [] rfl).call .exportTo c'.1.output
      (Netsh.exportTo.args path)
    refine ⟨[.called .exportTo c'.1.output.ok], ?_, hreport.callsOnly, ?_⟩
    · simp [logged, noted, performNet, perform, Host.output]
    · exact (Bool.eq_iff_iff.mp (allOk_step _ _ rfl)).trans hreport.allOk_iff

theorem notes_executeIsolate (payload : Json) :
    Notes text fw (executeIsolate path payload)
      (fun r s => ∃ (looks calls : List (NetEvent A)) (policy : P), s.2 = looks ++ calls ∧
        NoFailure looks ∧ CallsOnly calls ∧
        (r.status = "success" ↔ NoFailure calls) ∧
        (∀ host ∈ allowedHosts payload, ∃ lookup, .looked host lookup ∈ looks) ∧
        (NoFailure calls → s.1.live
          = applyAll fw (isolationScript ((resolved text looks).map text.toString)) policy))
      (w, []) := by
  have : IsPreorder (Host P × List (NetEvent A)) Eq := {}
  rw [executeIsolate]
  refine wp_bind.mpr (wp_mono ?_ (notes_resolveAll (allowedHosts payload)))
  rintro ⟨ips, unresolved⟩ s ⟨looks, rfl, hlooks, hips, hlooked⟩
  refine wp_bind.mpr (wp_mono ?_ notes_saveBackup)
  rintro backup ⟨v, es'⟩ ⟨saved, hs, hbackup⟩
  have hscript : Planned.netsh .importFrom ∉ isolationScript ips := by
    by_cases hips : ips = [] <;> simp [isolationScript, hips, Netsh.addAllow, Netsh.addDhcp]
  refine wp_bind.mpr (wp_mono ?_ (notes_runAll _ hscript))
  rintro calls ⟨u, es''⟩ ⟨called, hs', hcalls, hlive⟩
  have hreports := hbackup.append hcalls
  refine notes_op fun c => notes_pure ⟨looks, saved ++ called, v.live, ?_, hlooks,
    hreports.callsOnly, ?_, hlooked, fun hok => ?_⟩
  · simp only at hs hs'
    simp [logged, noted, hs', hs]
  · rw [← hreports.allOk_iff]
    dsimp only
    split_ifs with hok <;> simp [hok]
  · simp only at hips
    rw [← hips]
    exact hlive fun cmd hmem => hok cmd (List.mem_append_right _ hmem)

end Run

/-! ### The way back -/

variable {server : Server text} {dns : Set A}

/-- What an isolation that succeeds lets through of the heartbeat. -/
theorem wayBack_applyAll_iff (hdns : ∀ d ∈ dns, ¬text.IsLoopback d) (addrs : List A)
    (policy : Policy) :
    WayBack text server dns
        (applyAll advfirewall (isolationScript (addrs.map text.toString)) policy) ↔
      (∃ a ∈ server.addresses, text.IsLoopback a ∨ a ∈ addrs) ∧
        (text.parse server.host = none → ∃ d ∈ dns, d ∈ addrs) := by
  have hconnect (a : A) (port : ℕ) : (∀ localPort,
      (applyAll advfirewall (isolationScript (addrs.map text.toString)) policy).Allows text
        ⟨.tcp, a, localPort, port⟩) ↔ text.IsLoopback a ∨ a ∈ addrs :=
    ⟨fun h => (allows_iff addrs policy (.inl rfl)).mp (h 0),
      fun h localPort => (allows_iff addrs policy (.inl rfl)).mpr h⟩
  have hname (d : A) : (∀ localPort,
      (applyAll advfirewall (isolationScript (addrs.map text.toString)) policy).Allows text
        ⟨.udp, d, localPort, 53⟩) ↔ text.IsLoopback d ∨ d ∈ addrs :=
    ⟨fun h => (allows_iff addrs policy (.inr rfl)).mp (h 0),
      fun h localPort => (allows_iff addrs policy (.inr rfl)).mpr h⟩
  rw [WayBack]
  simp only [hconnect, hname]
  refine and_congr_right fun _ => imp_congr_right fun _ => exists_congr fun d => ?_
  exact and_congr_right fun hd => or_iff_right (hdns d hd)

/-- A literal is its own address, whatever the name service says. -/
theorem mem_resolved_of_literal {events : List (NetEvent A)} {host : String}
    {lookup : Option (List A)} {a : A} (ha : text.parse host = some a)
    (hlooked : .looked host lookup ∈ events) : a ∈ resolved text events :=
  List.mem_filterMap.mpr ⟨_, hlooked, by simp [IpText.resolve, ha]⟩

/-- What is recorded of an isolation. -/
def isolationRecord (text : IpText A) (path : String) (payload : Json) (w : Host Policy)
    (cs : List (Choice Policy × Option (List A))) : List (NetEvent A) :=
  (exec (logged (performNet text advfirewall) noted) (executeIsolate path payload) (w, []) cs).2.2

/-- **An isolation that succeeds leaves a way back** exactly if a call of `netsh` fails after all,
or the server is an IP literal, or an address of it and one of a name server were found. -/
theorem wayBack_iff (text : IpText A) (path : String) (payload : Json) (server : Server text)
    (dns : Set A) (hserver : server.host ∈ allowedHosts payload)
    (hdns : ∀ d ∈ dns, ¬text.IsLoopback d) (w v : Host Policy)
    (cs : List (Choice Policy × Option (List A))) (r : ExecutionResult)
    (hr : exec (performNet text advfirewall) (executeIsolate path payload) w cs = (some r, v)) :
    (r.status = "success" → WayBack text server dns v.live) ↔
      CanReturn text server dns (isolationRecord text path payload w cs) := by
  obtain ⟨hresult, hhost⟩ := exec_logged (performNet text advfirewall) noted
    (executeIsolate path payload) w [] cs
  rw [hr] at hresult hhost
  have hreaches : Reaches (logged (performNet text advfirewall) noted) (executeIsolate path payload)
      (w, []) r (v, isolationRecord text path payload w cs) :=
    reaches_iff_exec.mpr ⟨cs, Prod.ext hresult (Prod.ext hhost rfl)⟩
  have hend := wp_reaches (notes_executeIsolate payload) hreaches
  obtain ⟨looks, calls, policy, hevents, hlooks, hcalls, hstatus, hlooked, hlive⟩ := hend
  simp only at hevents hlive
  have hresolved : resolved text (isolationRecord text path payload w cs)
      = resolved text looks := by
    rw [hevents, resolved_append, resolved_of_callsOnly hcalls, List.append_nil]
  rw [CanReturn, hresolved, hevents]
  by_cases hok : NoFailure calls
  · have hnofail : ¬∃ cmd, .called cmd false ∈ looks ++ calls := by
      rintro ⟨cmd, hmem⟩
      rcases List.mem_append.mp hmem with hmem | hmem
      · exact hlooks cmd hmem
      · exact hok cmd hmem
    rw [hstatus, hlive hok, wayBack_applyAll_iff hdns, imp_iff_right hok, or_iff_right hnofail]
    cases hparse : text.parse server.host with
    | none => simp
    | some a =>
      obtain ⟨lookup, hmem⟩ := hlooked server.host hserver
      refine iff_of_true ⟨⟨a, server.literal a hparse, .inr ?_⟩, by simp⟩ (.inl rfl)
      exact mem_resolved_of_literal hparse hmem
  · refine iff_of_true (fun hsuccess => absurd (hstatus.mp hsuccess) hok) (.inl ?_)
    rw [NoFailure] at hok
    push Not at hok
    obtain ⟨cmd, hmem⟩ := hok
    exact ⟨cmd, List.mem_append_right _ hmem⟩

/-! ### A server with a name -/

/-- A text of digits, dots and colons. -/
abbrev DottedAddress := {s : String // s.toList.all fun c => c.isDigit || c = '.' || c = ':'}

/-- Such texts as addresses. -/
def dottedText : IpText DottedAddress where
  parse s := if h : s.toList.all (fun c => c.isDigit || c = '.' || c = ':') then some ⟨s, h⟩
    else none
  toString a := a.1
  isV4 a := a.1.toList.all (· ≠ ':')
  parse_toString a := dif_pos a.2
  no_comma a hmem := by
    have hall := List.all_eq_true.mp a.2 ',' hmem
    exact absurd hall (by decide)

/-- The address of the server. -/
def acmeAddress : DottedAddress := ⟨"10.0.0.7", by decide⟩

/-- A server with one address. -/
def acmeServer : Server dottedText where
  host := "edr.acme.example"
  port := 443
  addresses := {acmeAddress}
  literal a ha := absurd ha (by simp [dottedText])

/-- The name server of the network. -/
def dnsAddress : DottedAddress := ⟨"10.0.0.53", by decide⟩

theorem not_isLoopback_dns : ∀ d ∈ ({dnsAddress} : Set DottedAddress),
    ¬dottedText.IsLoopback d := by
  rintro d rfl h
  rcases h with h | h <;> exact absurd h (by decide)

/-- The payload of an isolation that allows these hosts. -/
def isolatePayload (hosts : List String) : Json :=
  .object [("allowed_hosts", .array (hosts.map .string))]

/-- An isolation in which all calls succeed, where the names are looked up with this outcome. -/
def isolateAcme (hosts : List String) (lookup : Option (List DottedAddress)) :
    Option ExecutionResult × Host Policy :=
  exec (performNet dottedText advfirewall)
    (executeIsolate (isolationBackupPath none) (isolatePayload hosts))
    { live := {}, backup := .absent } (List.replicate 15 ({}, lookup))

/-- The name server is an allowed host too. -/
theorem isolateAcme_wayBack : WayBack dottedText acmeServer {dnsAddress}
    (isolateAcme ["edr.acme.example", "10.0.0.53"] (some [acmeAddress])).2.live :=
  (wayBack_iff dottedText (isolationBackupPath none)
    (isolatePayload ["edr.acme.example", "10.0.0.53"]) acmeServer {dnsAddress}
    (by decide) not_isLoopback_dns { live := {}, backup := .absent } _
    (List.replicate 15 ({}, some [acmeAddress])) _ rfl).mpr
    (.inr (.inr ⟨⟨acmeAddress, rfl, .inr (by decide +kernel)⟩, dnsAddress, rfl, by decide +kernel⟩))
    (by decide +kernel)

/-- **No way back**: the isolation succeeds, the server was found, and its name cannot be looked up
again; or it was not found in the first place. -/
theorem no_way_back :
    ((isolateAcme ["edr.acme.example"] (some [acmeAddress])).1.map ExecutionResult.status
        = some "success" ∧
      ¬WayBack dottedText acmeServer {dnsAddress}
        (isolateAcme ["edr.acme.example"] (some [acmeAddress])).2.live) ∧
    (isolateAcme ["edr.acme.example"] none).1.map ExecutionResult.status = some "success" ∧
      ¬∃ a ∈ acmeServer.addresses, (isolateAcme ["edr.acme.example"] none).2.live.Allows dottedText
        ⟨.tcp, a, 50000, acmeServer.port⟩ := by
  have hfound : (isolateAcme ["edr.acme.example"] (some [acmeAddress])).2.live
      = applyAll advfirewall (isolationScript ([acmeAddress].map dottedText.toString)) {} := by
    decide +kernel
  have hlost : (isolateAcme ["edr.acme.example"] none).2.live
      = applyAll advfirewall (isolationScript (([] : List DottedAddress).map dottedText.toString))
        {} := by
    decide +kernel
  refine ⟨⟨by decide +kernel, fun h => ?_⟩, by decide +kernel, ?_⟩
  · rw [hfound, wayBack_applyAll_iff not_isLoopback_dns] at h
    obtain ⟨d, rfl, hmem⟩ := h.2 (by decide)
    exact absurd hmem (by decide)
  · rintro ⟨a, rfl, h⟩
    rw [hlost, allows_iff _ _ (.inl rfl)] at h
    rcases h with (h | h) | h <;> exact absurd h (by decide)

end Control

end WazabiAgent
