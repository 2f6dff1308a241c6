import WazabiAgent.Shipper.Config

/-!
# Blank credentials

`needs_autoenroll` takes a credential that is blank for one that is absent, and `resolve_shipper`
does so with the agent id. `resolve_token` only looks whether a token is there.

## Main definitions

* `ShipperSection.withoutBlanks` — the section without its blank credentials
* `Host.configOf`, `Host.Admits` — what `resolve_shipper` does behind the token
* `BlankIsAbsent` — what is to be true of a section

## Main results

* `resolveShipper_eq_error_iff` — which tokens make the two errors about their presence
* `blank_is_absent_iff` — the sections for which it is true
-/

namespace WazabiAgent

namespace Shipper

open Config
open Text (isBlank)

/-! ### Behind the token -/

/-- The agent id of the section, or the name of the machine. -/
def Host.agentIdOf (host : Host) (s : ShipperSection) : Option String :=
  ((s.agentId.filter fun s => !isBlank s).or host.computerName).filter fun s => !isBlank s

/-- `resolve_shipper` with the token. -/
def Host.configOf (host : Host) (s : ShipperSection) (token : String) :
    Except String ShipperConfig :=
  match s.serverUrl with
  | none => .error "shipper.server_url is required"
  | some url =>
    if !isHttpUrl url then
      .error ("shipper.server_url must start with http:// or https:// (got " ++
        host.quoted url ++ ")")
    else
      match host.agentIdOf s with
      | none => .error ("shipper.agent_id missing and %COMPUTERNAME% is unset — " ++
          "set one of them explicitly")
      | some agentId =>
        if agentId.toList.any isForbidden then
          .error ("shipper.agent_id contains whitespace/control chars: " ++ host.quoted agentId)
        else .ok (s.configWith url agentId token)

/-- The section is not refused for its URL or its agent id. -/
def Host.Admits (host : Host) (s : ShipperSection) : Prop :=
  ∃ url agentId, s.serverUrl = some url ∧ isHttpUrl url = true ∧
    host.agentIdOf s = some agentId ∧ agentId.toList.any isForbidden = false

variable {host : Host} {s : ShipperSection} {token : String} {cfg : ShipperConfig}

theorem Host.resolveShipper_eq (host : Host) (s : ShipperSection) :
    host.resolveShipper s = (host.resolveToken s).bind (host.configOf s) := by
  rw [resolveShipper]
  cases host.resolveToken s with
  | error e => rfl
  | ok token =>
    show _ = host.configOf s token
    rw [configOf, agentIdOf]
    cases s.serverUrl with
    | none => rfl
    | some url =>
      refine ite_congr rfl (fun _ => rfl) fun _ => ?_
      cases ((s.agentId.filter fun s => !isBlank s).or host.computerName).filter
          fun s => !isBlank s with
      | none => rfl
      | some agentId => exact ite_congr rfl (fun _ => rfl) fun _ => rfl

theorem Host.configOf_eq_ok_iff : host.configOf s token = .ok cfg ↔
    ∃ url agentId, s.serverUrl = some url ∧ isHttpUrl url = true ∧
      host.agentIdOf s = some agentId ∧ agentId.toList.any isForbidden = false ∧
        cfg = s.configWith url agentId token := by
  rw [configOf]
  constructor
  · intro h
    split at h
    · cases h
    · next url hurl =>
      split_ifs at h with hhttp
      split at h
      · cases h
      · next agentId hid =>
        split_ifs at h with hforbidden
        exact ⟨url, agentId, hurl, by simpa using hhttp, hid, by simpa using hforbidden,
          (Except.ok.inj h).symm⟩
  · rintro ⟨url, agentId, hurl, hhttp, hid, hforbidden, rfl⟩
    rw [hurl]
    dsimp only
    rw [hhttp, hid]
    dsimp only
    rw [hforbidden]
    rfl

theorem Host.exists_configOf_iff : (∃ cfg, host.configOf s token = .ok cfg) ↔ host.Admits s := by
  constructor
  · rintro ⟨cfg, h⟩
    obtain ⟨url, agentId, hurl, hhttp, hid, hforbidden, -⟩ := configOf_eq_ok_iff.mp h
    exact ⟨url, agentId, hurl, hhttp, hid, hforbidden⟩
  · rintro ⟨url, agentId, hurl, hhttp, hid, hforbidden⟩
    exact ⟨_, configOf_eq_ok_iff.mpr ⟨url, agentId, hurl, hhttp, hid, hforbidden, rfl⟩⟩

/-! ### Errors -/

/-- Both tokens are there. -/
def bothTokens : String :=
  "shipper: token_encrypted_b64 and token_plain are mutually exclusive"

/-- None is. -/
def noToken : String := "shipper: a token is required (token_encrypted_b64 or token_plain)"

theorem prefix_append {p a : String} (b : String) (h : p.toList <+: a.toList) :
    p.toList <+: (a ++ b).toList := by
  rw [String.toList_append]
  exact h.trans (List.prefix_append _ _)

/-- The errors behind the token do not have a colon there. -/
theorem prefix_of_configOf {e : String} (h : host.configOf s token = .error e) :
    "shipper.".toList <+: e.toList := by
  rw [Host.configOf] at h
  split at h
  · obtain rfl := Except.error.inj h
    decide
  · split_ifs at h
    · obtain rfl := Except.error.inj h
      rw [String.append_assoc]
      exact prefix_append _ (by decide)
    · split at h
      · obtain rfl := Except.error.inj h
        exact prefix_append _ (by decide)
      · split_ifs at h
        obtain rfl := Except.error.inj h
        exact prefix_append _ (by decide)

/-- `resolve_token` with an encrypted token and no other. -/
def Host.decrypt (host : Host) (b64 : String) : Except String String :=
  ((b64Decode b64).mapError fun e => "token_encrypted_b64: " ++ e).bind fun cipher =>
  ((host.dpapiUnprotect cipher).mapError fun e => "token_encrypted_b64 decrypt: " ++ e).bind
    fun plain => (host.fromUtf8 plain).mapError fun e => "token not utf-8: " ++ e

theorem resolveToken_of_encrypted {b64 : String} (henc : s.tokenEncryptedB64 = some b64)
    (hplain : s.tokenPlain = none) : host.resolveToken s = host.decrypt b64 := by
  rw [Host.resolveToken, henc, hplain]
  rfl

/-- The text that is protected by the encrypted token. -/
def Host.Protects (host : Host) (b64 token : String) : Prop :=
  ∃ cipher plain, b64Decode b64 = .ok cipher ∧ host.dpapiUnprotect cipher = .ok plain ∧
    host.fromUtf8 plain = .ok token

/-- What comes of an encrypted token: the text, or an error that begins with the name of the field
or with what it holds. -/
theorem decrypt_cases (host : Host) (b64 : String) :
    (∃ token, host.Protects b64 token ∧ host.decrypt b64 = .ok token) ∨
      ((∀ token, ¬ host.Protects b64 token) ∧
        ∃ e, host.decrypt b64 = .error e ∧ "token".toList <+: e.toList) := by
  rw [Host.decrypt]
  cases hcipher : b64Decode b64 with
  | error e =>
    refine .inr ⟨?_, _, rfl, prefix_append _ (by decide)⟩
    rintro token ⟨cipher, plain, h, -⟩
    rw [hcipher] at h
    cases h
  | ok cipher =>
    show _ ∨ _ ∧ ∃ e, ((host.dpapiUnprotect cipher).mapError _).bind _ = _ ∧ _
    cases hplain : host.dpapiUnprotect cipher with
    | error e =>
      refine .inr ⟨?_, _, rfl, prefix_append _ (by decide)⟩
      rintro token ⟨cipher', plain, h, h', -⟩
      obtain rfl := Except.ok.inj (hcipher.symm.trans h)
      rw [hplain] at h'
      cases h'
    | ok plain =>
      show _ ∨ _ ∧ ∃ e, (host.fromUtf8 plain).mapError _ = _ ∧ _
      cases htoken : host.fromUtf8 plain with
      | error e =>
        refine .inr ⟨?_, _, rfl, prefix_append _ (by decide)⟩
        rintro token ⟨cipher', plain', h, h', h''⟩
        obtain rfl := Except.ok.inj (hcipher.symm.trans h)
        obtain rfl := Except.ok.inj (hplain.symm.trans h')
        rw [htoken] at h''
        cases h''
      | ok token =>
        refine .inl ⟨token, ⟨cipher, plain, hcipher, hplain, htoken⟩, ?_⟩
        simp only [Except.bind, Except.mapError, hplain, htoken]

theorem decrypt_eq_ok_iff {b64 : String} :
    host.decrypt b64 = .ok token ↔ host.Protects b64 token := by
  obtain ⟨token', hprotects, hok⟩ | ⟨hnone, e, herror, -⟩ := decrypt_cases host b64
  · rw [hok]
    constructor
    · intro h
      exact Except.ok.inj h ▸ hprotects
    · rintro ⟨cipher, plain, hcipher, hplain, htoken⟩
      obtain ⟨cipher', plain', hcipher', hplain', htoken'⟩ := hprotects
      obtain rfl := Except.ok.inj (hcipher.symm.trans hcipher')
      obtain rfl := Except.ok.inj (hplain.symm.trans hplain')
      rw [← htoken', htoken]
  · rw [herror]
    exact iff_of_false (fun h => by cases h) (hnone token)

theorem resolveToken_eq_error_iff : (host.resolveToken s = .error bothTokens ↔
      s.tokenEncryptedB64.isSome = true ∧ s.tokenPlain.isSome = true) ∧
    (host.resolveToken s = .error noToken ↔ s.tokenEncryptedB64 = none ∧ s.tokenPlain = none) := by
  have hboth : ¬ "token".toList <+: bothTokens.toList := by decide
  have hno : ¬ "token".toList <+: noToken.toList := by decide
  cases henc : s.tokenEncryptedB64 with
  | none =>
    cases hplain : s.tokenPlain with
    | none =>
      have htoken : host.resolveToken s = .error noToken := by
        rw [Host.resolveToken, henc, hplain]
        rfl
      have hne : noToken ≠ bothTokens := by decide
      simp [htoken, hne]
    | some plain =>
      have htoken : host.resolveToken s = .ok plain := by rw [Host.resolveToken, henc, hplain]
      simp [htoken]
  | some b64 =>
    cases hplain : s.tokenPlain with
    | none =>
      have hne (e : String) (h : ¬ "token".toList <+: e.toList) :
          host.resolveToken s ≠ .error e := by
        intro herror
        rw [resolveToken_of_encrypted henc hplain] at herror
        obtain ⟨token, -, hok⟩ | ⟨-, e', he', hbegins⟩ := decrypt_cases host b64
        · rw [hok] at herror
          cases herror
        · rw [he'] at herror
          exact h (Except.error.inj herror ▸ hbegins)
      simp [hne _ hboth, hne _ hno]
    | some plain =>
      have htoken : host.resolveToken s = .error bothTokens := by
        rw [Host.resolveToken, henc, hplain]
        rfl
      have hne : bothTokens ≠ noToken := by decide
      simp [htoken, hne]

/-- The errors about the presence of the tokens come from nothing else. -/
theorem resolveShipper_eq_error_iff (host : Host) (s : ShipperSection) :
    (host.resolveShipper s = .error bothTokens ↔
      s.tokenEncryptedB64.isSome = true ∧ s.tokenPlain.isSome = true) ∧
    (host.resolveShipper s = .error noToken ↔
      s.tokenEncryptedB64 = none ∧ s.tokenPlain = none) := by
  have hpass {e : String} (h : ¬ "shipper.".toList <+: e.toList) :
      host.resolveShipper s = .error e ↔ host.resolveToken s = .error e := by
    rw [Host.resolveShipper_eq]
    cases htoken : host.resolveToken s with
    | error e' =>
      exact ⟨fun herror => congrArg _ (Except.error.inj herror),
        fun herror => congrArg _ (Except.error.inj herror)⟩
    | ok token =>
      refine iff_of_false (fun herror => h (prefix_of_configOf herror)) fun herror => ?_
      cases herror
  rw [hpass (by decide), hpass (by decide)]
  exact resolveToken_eq_error_iff

/-! ### Blank and absent -/

/-- The section without its blank credentials. -/
def ShipperSection.withoutBlanks (s : ShipperSection) : ShipperSection :=
  { s with
    agentId := s.agentId.filter fun s => !isBlank s
    tokenPlain := s.tokenPlain.filter fun s => !isBlank s
    tokenEncryptedB64 := s.tokenEncryptedB64.filter fun s => !isBlank s }

/-- A blank credential makes no difference, and no token is blank. -/
structure BlankIsAbsent (host : Host) (s : ShipperSection) : Prop where
  autoenroll : s.withoutBlanks.needsAutoenroll = s.needsAutoenroll
  resolved : host.resolveShipper s.withoutBlanks = host.resolveShipper s
  token : ∀ cfg, host.resolveShipper s = .ok cfg → isBlank cfg.token = false

/-- The credential is there, and blank. -/
def Blank (o : Option String) : Prop := ∃ text, o = some text ∧ isBlank text = true

theorem present_filter (o : Option String) :
    present (o.filter fun s => !isBlank s) = present o := by
  cases o with
  | none => rfl
  | some text => cases h : isBlank text <;> simp [present, h]

/-- `needs_autoenroll` does not tell a blank credential from none. -/
theorem needsAutoenroll_withoutBlanks (s : ShipperSection) :
    s.withoutBlanks.needsAutoenroll = s.needsAutoenroll := by
  simp only [ShipperSection.needsAutoenroll, ShipperSection.withoutBlanks, present_filter]

theorem filter_eq_self {o : Option String} (h : ¬ Blank o) :
    (o.filter fun s => !isBlank s) = o := by
  cases o with
  | none => rfl
  | some text =>
    have hblank : isBlank text = false := by
      by_contra hblank
      exact h ⟨text, rfl, by simpa using hblank⟩
    simp [hblank]

/-- What is behind the token does not tell them apart either. -/
theorem configOf_withoutBlanks (host : Host) (s : ShipperSection) (token : String) :
    host.configOf s.withoutBlanks token = host.configOf s token := by
  have hid : host.agentIdOf s.withoutBlanks = host.agentIdOf s := by
    simp only [Host.agentIdOf, ShipperSection.withoutBlanks, Option.filter_filter, Bool.and_self]
  rw [Host.configOf, Host.configOf, hid]
  rfl

theorem resolveShipper_eq_ok_iff : host.resolveShipper s = .ok cfg ↔
    ∃ token, host.resolveToken s = .ok token ∧ host.configOf s token = .ok cfg := by
  rw [Host.resolveShipper_eq]
  cases host.resolveToken s with
  | error e =>
    refine iff_of_false (fun h => by cases h) ?_
    rintro ⟨token, h, -⟩
    cases h
  | ok token =>
    constructor
    · intro h
      exact ⟨token, rfl, h⟩
    · rintro ⟨token', h, hcfg⟩
      exact Except.ok.inj h ▸ hcfg

theorem token_of_configOf (h : host.configOf s token = .ok cfg) : cfg.token = token := by
  obtain ⟨url, agentId, -, -, -, -, rfl⟩ := Host.configOf_eq_ok_iff.mp h
  rfl

/-- Where a token is blank, taking it away makes another error, or the first one. -/
theorem not_blank_of_resolved (h : host.resolveShipper s.withoutBlanks = host.resolveShipper s) :
    ¬ Blank s.tokenPlain ∧ ¬ Blank s.tokenEncryptedB64 := by
  obtain ⟨hboth, hnone⟩ := resolveShipper_eq_error_iff host s
  obtain ⟨hboth', hnone'⟩ := resolveShipper_eq_error_iff host s.withoutBlanks
  rw [h] at hboth' hnone'
  have hsame := hboth.symm.trans hboth'
  have hsame' := hnone.symm.trans hnone'
  constructor
  · rintro ⟨text, htext, hblank⟩
    have hgone : s.withoutBlanks.tokenPlain = none := by
      simp [ShipperSection.withoutBlanks, htext, hblank]
    cases henc : s.tokenEncryptedB64 with
    | none =>
      have hnone : s.tokenEncryptedB64 = none ∧ s.tokenPlain = none :=
        hsame'.mpr ⟨by simp [ShipperSection.withoutBlanks, henc], hgone⟩
      rw [htext] at hnone
      cases hnone.2
    | some b64 =>
      have hboth := (hsame.mp ⟨by rw [henc]; rfl, by rw [htext]; rfl⟩).2
      rw [hgone] at hboth
      cases hboth
  · rintro ⟨text, htext, hblank⟩
    have hgone : s.withoutBlanks.tokenEncryptedB64 = none := by
      simp [ShipperSection.withoutBlanks, htext, hblank]
    cases hplain : s.tokenPlain with
    | none =>
      have hnone : s.tokenEncryptedB64 = none ∧ s.tokenPlain = none :=
        hsame'.mpr ⟨hgone, by simp [ShipperSection.withoutBlanks, hplain]⟩
      rw [htext] at hnone
      cases hnone.1
    | some plain =>
      have hboth := (hsame.mp ⟨by rw [htext]; rfl, by rw [hplain]; rfl⟩).1
      rw [hgone] at hboth
      cases hboth

/-- Where the token of an accepted section is from. -/
theorem token_cases (hok : host.resolveShipper s = .ok cfg) :
    s.tokenPlain = some cfg.token ∨ ∃ b64, s.tokenEncryptedB64 = some b64 ∧ s.tokenPlain = none ∧
      host.Protects b64 cfg.token ∧ host.Admits s := by
  obtain ⟨token, htoken, hcfg⟩ := resolveShipper_eq_ok_iff.mp hok
  rw [token_of_configOf hcfg]
  cases hplain : s.tokenPlain with
  | none =>
    cases henc : s.tokenEncryptedB64 with
    | none =>
      rw [(resolveToken_eq_error_iff.2).mpr ⟨henc, hplain⟩] at htoken
      cases htoken
    | some b64 =>
      rw [resolveToken_of_encrypted henc hplain] at htoken
      exact .inr ⟨b64, rfl, rfl, decrypt_eq_ok_iff.mp htoken,
        Host.exists_configOf_iff.mp ⟨cfg, hcfg⟩⟩
  | some plain =>
    cases henc : s.tokenEncryptedB64 with
    | none =>
      rw [Host.resolveToken, hplain, henc] at htoken
      exact .inl (congrArg some (Except.ok.inj htoken))
    | some b64 =>
      have hboth : s.tokenEncryptedB64.isSome = true ∧ s.tokenPlain.isSome = true := by
        rw [henc, hplain]
        exact ⟨rfl, rfl⟩
      rw [(resolveToken_eq_error_iff.1).mpr hboth] at htoken
      cases htoken

theorem resolveShipper_withoutBlanks (hplain : ¬ Blank s.tokenPlain)
    (henc : ¬ Blank s.tokenEncryptedB64) :
    host.resolveShipper s.withoutBlanks = host.resolveShipper s := by
  have htoken : host.resolveToken s.withoutBlanks = host.resolveToken s := by
    rw [Host.resolveToken, Host.resolveToken]
    simp only [ShipperSection.withoutBlanks, filter_eq_self hplain, filter_eq_self henc]
  rw [Host.resolveShipper_eq, Host.resolveShipper_eq, htoken]
  exact congrArg _ (funext (configOf_withoutBlanks host s))

/-- **Blank credentials count as absent**, but for the tokens. -/
theorem blank_is_absent_iff (host : Host) (s : ShipperSection) : BlankIsAbsent host s ↔
    ¬ Blank s.tokenPlain ∧ ¬ Blank s.tokenEncryptedB64 ∧
      ¬ ∃ b64 token, s.tokenEncryptedB64 = some b64 ∧ s.tokenPlain = none ∧
        host.Protects b64 token ∧ isBlank token = true ∧ host.Admits s := by
  constructor
  · rintro ⟨-, hresolved, htoken⟩
    obtain ⟨hplain, henc⟩ := not_blank_of_resolved hresolved
    refine ⟨hplain, henc, ?_⟩
    rintro ⟨b64, token, hb64, hnone, hprotects, hblank, hadmits⟩
    obtain ⟨cfg, hcfg⟩ := Host.exists_configOf_iff.mpr hadmits
    have hok : host.resolveShipper s = .ok cfg := resolveShipper_eq_ok_iff.mpr
      ⟨token, (resolveToken_of_encrypted hb64 hnone).trans (decrypt_eq_ok_iff.mpr hprotects), hcfg⟩
    have hnot := htoken cfg hok
    rw [token_of_configOf hcfg, hblank] at hnot
    cases hnot
  · rintro ⟨hplain, henc, hprotected⟩
    refine ⟨needsAutoenroll_withoutBlanks s, resolveShipper_withoutBlanks hplain henc, ?_⟩
    intro cfg hok
    by_contra hblank
    rw [Bool.not_eq_false] at hblank
    obtain htoken | ⟨b64, hb64, hnone, hprotects, hadmits⟩ := token_cases hok
    · exact hplain ⟨cfg.token, htoken, hblank⟩
    · exact hprotected ⟨b64, cfg.token, hb64, hnone, hprotects, hblank, hadmits⟩

/-- A machine that protects nothing. -/
def desk : Host where
  computerName := some "DESK-7"
  dpapiUnprotect := fun _ => .error "CryptUnprotectData failed"
  fromUtf8 := fun _ => .error "invalid utf-8 sequence"
  quoted := fun s => "\"" ++ s ++ "\""

/-- The skeleton of `agent.json` with an id filled in: its plain token is the empty text. -/
def emptyToken : ShipperSection where
  enabled := true
  serverUrl := some "https://wazabi.example.com"
  agentId := some "8f3c"
  tenantId := none
  tags := []
  tokenEncryptedB64 := none
  tokenPlain := some ""
  enrollmentToken := none
  verifyTls := true
  timeoutSecs := 30
  pollIntervalSecs := 5
  maxBackoffSecs := 300

/-- A plain token beside an encrypted one that is two spaces. -/
def spacedToken : ShipperSection :=
  { emptyToken with tokenPlain := some "s3cret", tokenEncryptedB64 := some "  " }

/-- The first section is accepted with its empty token, the second is refused for its spaces. -/
theorem blank_token_counts :
    ¬ BlankIsAbsent desk emptyToken ∧ ¬ BlankIsAbsent desk spacedToken := by
  have hclean : Clean "8f3c" := by decide
  constructor
  · intro h
    have hok := desk.resolveShipper_of_plain (s := emptyToken) rfl rfl hclean rfl
    have htoken := h.token _ (hok.trans (by decide +kernel :
      _ = Except.ok (emptyToken.configWith "https://wazabi.example.com" "8f3c" "")))
    cases htoken
  · intro h
    have hrefused := desk.resolveShipper_of_plain (s := spacedToken) rfl rfl hclean rfl
    have hok := desk.resolveShipper_of_plain (s := spacedToken.withoutBlanks) rfl rfl hclean rfl
    have hne := hok.symm.trans (h.resolved.trans hrefused)
    revert hne
    decide +kernel

end Shipper

end WazabiAgent
