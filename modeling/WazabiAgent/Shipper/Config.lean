import WazabiAgent.Config.Sections
import WazabiAgent.Lib.JsonValue

/-!
# The section `shipper`

What the section is on disk, when it asks for an enrolment, and how the configuration that the
shipper runs with comes out of it (`shipper/config.rs`, and `b64_decode` of `shipper/secret.rs`).

Durations are in seconds. What the machine adds (its name, the key that DPAPI protects with) is a
`Host`; the warnings on stderr are left out.
-/

namespace WazabiAgent

namespace Shipper

open Config
open Text (isBlank isWhitespace)

/-! ### On disk -/

/-- The `shipper` section as the file has it. -/
structure ShipperSection where
  enabled : Bool
  serverUrl : Option String
  agentId : Option String
  tenantId : Option String
  tags : List (String × String)
  tokenEncryptedB64 : Option String
  tokenPlain : Option String
  enrollmentToken : Option String
  verifyTls : Bool
  timeoutSecs : ℕ
  pollIntervalSecs : ℕ
  maxBackoffSecs : ℕ
  deriving DecidableEq

/-- The fields of `ShipperSection`, in their order. -/
def shipperNames : List String :=
  ["enabled", "server_url", "agent_id", "tenant_id", "tags", "token_encrypted_b64", "token_plain",
    "enrollment_token", "verify_tls", "timeout_secs", "poll_interval_secs", "max_backoff_secs"]

/-- The fields by name. -/
def shipperFields (field : String → Option Json) : Option ShipperSection :=
  let text (name : String) := Json.defaulted none (Json.optional Json.asStr) (field name)
  (Json.defaulted true Json.asBool (field "enabled")).bind fun enabled =>
  (text "server_url").bind fun serverUrl =>
  (text "agent_id").bind fun agentId =>
  (text "tenant_id").bind fun tenantId =>
  (Json.defaulted [] Json.textMap (field "tags")).bind fun tags =>
  (text "token_encrypted_b64").bind fun tokenEncryptedB64 =>
  (text "token_plain").bind fun tokenPlain =>
  (text "enrollment_token").bind fun enrollmentToken =>
  (Json.defaulted true Json.asBool (field "verify_tls")).bind fun verifyTls =>
  (Json.defaulted 30 Json.asU64 (field "timeout_secs")).bind fun timeoutSecs =>
  (Json.defaulted 5 Json.asU64 (field "poll_interval_secs")).bind fun pollIntervalSecs =>
  (Json.defaulted 300 Json.asU64 (field "max_backoff_secs")).bind fun maxBackoffSecs =>
  some {
    enabled := enabled
    serverUrl := serverUrl
    agentId := agentId
    tenantId := tenantId
    tags := tags
    tokenEncryptedB64 := tokenEncryptedB64
    tokenPlain := tokenPlain
    enrollmentToken := enrollmentToken
    verifyTls := verifyTls
    timeoutSecs := timeoutSecs
    pollIntervalSecs := pollIntervalSecs
    maxBackoffSecs := maxBackoffSecs }

/-- An array that ends before `agent_id` lacks a field without a default. -/
def tooShort (doc : Json) : Bool := doc.asArray.any fun xs => xs.length < 3

/-- `ShipperSection` as `serde_json` reads it. -/
def decodeShipper (doc : Json) : Option ShipperSection :=
  if tooShort doc then none else doc.record shipperNames shipperFields

theorem tooShort_toValue (doc : Json) (float : String → String) :
    tooShort (doc.toValue float) = tooShort doc := by
  cases doc with
  | array xs => simp [tooShort, Json.toValue_array, Json.asArray]
  | object fields => rw [Json.toValue_object]; rfl
  | number literal => rw [Json.toValue]; rfl
  | _ => rw [Json.toValue]

theorem stable_decodeShipper : Json.Stable decodeShipper := by
  have htext {float : String → String} (o : Option Json) :
      Json.Refines (Json.defaulted none (Json.optional Json.asStr) o)
        (Json.defaulted none (Json.optional Json.asStr) (o.map (Json.toValue float))) :=
    Json.stable_asStr.optional.defaulted none o
  have hrecord : Json.Stable (Json.record shipperNames shipperFields) := by
    refine .record fun field _ => ?_
    refine (Json.stable_asBool.defaulted true _).bind fun _ => ?_
    refine (htext _).bind fun _ => (htext _).bind fun _ => (htext _).bind fun _ => ?_
    refine (Json.stable_textMap.defaulted [] _).bind fun _ => ?_
    refine (htext _).bind fun _ => (htext _).bind fun _ => (htext _).bind fun _ => ?_
    refine (Json.stable_asBool.defaulted true _).bind fun _ => ?_
    refine (Json.stable_asU64.defaulted 30 _).bind fun _ => ?_
    refine (Json.stable_asU64.defaulted 5 _).bind fun _ => ?_
    exact (Json.stable_asU64.defaulted 300 _).bind fun _ => .refl _
  intro doc float s hs
  simp only [decodeShipper, tooShort_toValue] at hs ⊢
  split_ifs at hs ⊢
  exact hrecord doc float s hs

/-! ### Enrolment -/

/-- `Option::map(|s| !s.trim().is_empty()).unwrap_or(false)`. -/
def present (o : Option String) : Bool := o.any fun s => !isBlank s

/-- `needs_autoenroll`: the shared token is there and no credentials are. -/
def ShipperSection.needsAutoenroll (s : ShipperSection) : Bool :=
  present s.enrollmentToken && !present s.agentId &&
    !(present s.tokenPlain || present s.tokenEncryptedB64)

/-- Puts the identity from the enrolment in the section, in place of any token there. -/
def ShipperSection.fillFromEnroll (s : ShipperSection) (agentId agentToken : String) :
    ShipperSection :=
  { s with
    agentId := some agentId
    tokenPlain := some agentToken
    tokenEncryptedB64 := none
    enrollmentToken := none }

/-! ### The token -/

/-- The six bits of a base64 digit; padding counts as zero. -/
def b64Digit (b : UInt8) : Option ℕ :=
  let n := b.toNat
  if 65 ≤ n ∧ n ≤ 90 then some (n - 65)
  else if 97 ≤ n ∧ n ≤ 122 then some (n - 97 + 26)
  else if 48 ≤ n ∧ n ≤ 57 then some (n - 48 + 52)
  else if n = 43 then some 62
  else if n = 47 then some 63
  else if n = 61 then some 0
  else none

/-- The groups of four digits. -/
def b64Chunks : List UInt8 → Except String (List UInt8)
  | a :: b :: c :: d :: rest => do
    let digits ← match [a, b, c, d].mapM b64Digit with
      | some digits => .ok digits
      | none => .error "base64: invalid byte"
    let n := digits.foldl (fun n digit => 64 * n + digit) 0
    let pad := [a, b, c, d].countP fun x => x.toNat = 61
    let bytes := [UInt8.ofNat (n / 65536)] ++
      (if pad < 2 then [UInt8.ofNat (n / 256)] else []) ++
      (if pad < 1 then [UInt8.ofNat n] else [])
    return bytes ++ (← b64Chunks rest)
  | _ => .ok []

/-- `u8::is_ascii_whitespace`. -/
def isAsciiWhitespace (b : UInt8) : Bool := [32, 9, 10, 12, 13].contains b.toNat

/-- Decodes base64, with white space anywhere. -/
def b64Decode (input : String) : Except String (List UInt8) :=
  let cleaned := input.toUTF8.toList.filter fun b => !isAsciiWhitespace b
  if cleaned.length % 4 ≠ 0 then .error "base64: length not a multiple of 4" else b64Chunks cleaned

/-- What the machine adds. -/
structure Host where
  computerName : Option String
  /-- `dpapi_unprotect`. -/
  dpapiUnprotect : List UInt8 → Except String (List UInt8)
  /-- `String::from_utf8`, which says in its error where the bytes go wrong. -/
  fromUtf8 : List UInt8 → Except String String
  /-- `{:?}` of a text. -/
  quoted : String → String

/-- The token of the section, deciphered where it is encrypted. -/
def Host.resolveToken (host : Host) (s : ShipperSection) : Except String String :=
  match s.tokenEncryptedB64, s.tokenPlain with
  | some _, some _ =>
    .error "shipper: token_encrypted_b64 and token_plain are mutually exclusive"
  | some b64, none => do
    let cipher ← (b64Decode b64).mapError fun e => "token_encrypted_b64: " ++ e
    let plain ← (host.dpapiUnprotect cipher).mapError fun e => "token_encrypted_b64 decrypt: " ++ e
    (host.fromUtf8 plain).mapError fun e => "token not utf-8: " ++ e
  | none, some plain => .ok plain
  | none, none => .error "shipper: a token is required (token_encrypted_b64 or token_plain)"

/-! ### As the shipper runs with it -/

/-- The `shipper` section when everything it needs is there. -/
structure ShipperConfig where
  serverUrl : String
  agentId : String
  tenantId : Option String
  tags : List (String × String)
  token : String
  verifyTls : Bool
  timeout : ℕ
  pollInterval : ℕ
  maxBackoff : ℕ
  deriving DecidableEq

/-- `char::is_control`. -/
def isControl (c : Char) : Bool := c.toNat < 32 || (127 ≤ c.toNat && c.toNat < 160)

/-- The address begins with a scheme of HTTP. -/
def isHttpUrl (url : String) : Bool :=
  "https://".toList.isPrefixOf url.toList || "http://".toList.isPrefixOf url.toList

/-- The loop that pops a slash as long as there is one. -/
def stripSlashes (url : String) : String :=
  String.ofList (url.toList.reverse.dropWhile (· = '/')).reverse

/-- A character that no agent id may have. -/
def isForbidden (c : Char) : Bool := isWhitespace c || isControl c

/-- Checks the section, and puts the defaults where it has nothing. -/
def Host.resolveShipper (host : Host) (s : ShipperSection) : Except String ShipperConfig := do
  let token ← host.resolveToken s
  let serverUrl ← match s.serverUrl with
    | some url => .ok url
    | none => .error "shipper.server_url is required"
  if !isHttpUrl serverUrl then
    .error ("shipper.server_url must start with http:// or https:// (got " ++
      host.quoted serverUrl ++ ")")
  else
    let agentId ← match ((s.agentId.filter fun s => !isBlank s).or host.computerName).filter
        fun s => !isBlank s with
      | some agentId => .ok agentId
      | none => .error ("shipper.agent_id missing and %COMPUTERNAME% is unset — " ++
          "set one of them explicitly")
    if agentId.toList.any isForbidden then
      .error ("shipper.agent_id contains whitespace/control chars: " ++ host.quoted agentId)
    else
      return {
        serverUrl := stripSlashes serverUrl
        agentId := agentId
        tenantId := s.tenantId
        tags := s.tags
        token := token
        verifyTls := s.verifyTls
        timeout := max s.timeoutSecs 1
        pollInterval := max s.pollIntervalSecs 1
        maxBackoff := max s.maxBackoffSecs 1 }

/-- What the server may return as an id or a token. -/
def Clean (s : String) : Prop := isBlank s = false ∧ s.toList.any isForbidden = false

instance : DecidablePred Clean := fun s =>
  inferInstanceAs (Decidable (isBlank s = false ∧ s.toList.any isForbidden = false))

/-- The configuration of a section with these credentials. -/
def ShipperSection.configWith (s : ShipperSection) (url agentId token : String) :
    ShipperConfig where
  serverUrl := stripSlashes url
  agentId := agentId
  tenantId := s.tenantId
  tags := s.tags
  token := token
  verifyTls := s.verifyTls
  timeout := max s.timeoutSecs 1
  pollInterval := max s.pollIntervalSecs 1
  maxBackoff := max s.maxBackoffSecs 1

/-- With an id and a plain token, only the URL and a leftover token can be wrong. -/
theorem Host.resolveShipper_of_plain (host : Host) {s : ShipperSection} {url id token : String}
    (hurl : s.serverUrl = some url) (hid : s.agentId = some id) (hclean : Clean id)
    (htoken : s.tokenPlain = some token) :
    host.resolveShipper s =
      if s.tokenEncryptedB64.isSome then
        .error "shipper: token_encrypted_b64 and token_plain are mutually exclusive"
      else if !isHttpUrl url then
        .error ("shipper.server_url must start with http:// or https:// (got " ++
          host.quoted url ++ ")")
      else .ok (s.configWith url id token) := by
  obtain ⟨hblank, hforbidden⟩ := hclean
  have hkept : (((some id).filter fun s => !isBlank s).or host.computerName).filter
      (fun s => !isBlank s) = some id := by
    have hfilter : (some id).filter (fun s => !isBlank s) = some id := by simp [hblank]
    rw [hfilter, Option.or, hfilter]
  unfold resolveShipper resolveToken
  rw [hurl, hid, htoken, hkept]
  cases s.tokenEncryptedB64 with
  | some b64 => rfl
  | none =>
    simp only [bind, Except.bind, pure, Except.pure, hforbidden, Option.isSome_none]
    cases isHttpUrl url <;> rfl

end Shipper

end WazabiAgent
