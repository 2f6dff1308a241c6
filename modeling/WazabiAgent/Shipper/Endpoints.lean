import WazabiAgent.Config.Enrollment
import WazabiAgent.Shipper.Credentials

/-!
# The base URL of the endpoints

`resolve_shipper` takes all slashes from the end of `server_url`, behind the check of the scheme.
The logs and the control requests are sent to what is left; the enrolment is sent to the text as it
is in the file.

## Main definitions

* `enrollUrl`, `ShipperConfig.logsEndpoint`, `ControlRequest.url` — the URLs
* `OneBase` — what is to be true of them

## Main results

* `endpoints_one_base_iff` — the texts for which it is
-/

namespace WazabiAgent

namespace Shipper

open Config

/-! ### The URLs -/

/-- Where an agent enrols. -/
def enrollPath : String := "/api/v1/agents/enroll"

/-- The URL of `enroll::perform`. -/
def enrollUrl (serverUrl : String) : String := serverUrl ++ enrollPath

/-- Where an agent sends its batches. -/
def logsPath (agentId : String) : String := "/api/v1/agents/" ++ agentId ++ "/logs"

/-- `logs_endpoint`. -/
def ShipperConfig.logsEndpoint (cfg : ShipperConfig) : String :=
  cfg.serverUrl ++ "/api/v1/agents/" ++ cfg.agentId ++ "/logs"

/-- What `control::Client` asks for. -/
inductive ControlRequest
  | heartbeat
  | profileMetadata
  | profileTemplate (profileId : String)
  | alerts
  | pluginInfo (packageId : String)
  | pluginBinary (packageId : String)
  | pluginExtra (packageId filename : String)
  | pluginStatus (packageId : String)
  | ackCommand (commandId : String)

/-- The suffix that is handed to `Client::url`. -/
def ControlRequest.path (agentId : String) : ControlRequest → String
  | heartbeat => "/api/v1/agents/" ++ agentId ++ "/heartbeat"
  | profileMetadata => "/api/v1/agents/" ++ agentId ++ "/profile"
  | profileTemplate profileId => "/api/v1/profiles/" ++ profileId ++ "/template"
  | alerts => "/api/v1/agents/" ++ agentId ++ "/alerts"
  | pluginInfo packageId => "/api/v1/plugins/" ++ packageId ++ "/info"
  | pluginBinary packageId => "/api/v1/plugins/" ++ packageId ++ "/binary"
  | pluginExtra packageId filename => "/api/v1/plugins/" ++ packageId ++ "/files/" ++ filename
  | pluginStatus packageId => "/api/v1/agents/" ++ agentId ++ "/plugins/" ++ packageId ++ "/status"
  | ackCommand commandId => "/api/v1/agents/" ++ agentId ++ "/commands/" ++ commandId ++ "/ack"

/-- What `main` hands to the control plane. -/
structure ServerCreds where
  serverUrl : String
  agentId : String

/-- The credentials in the configuration. -/
def ShipperConfig.serverCreds (cfg : ShipperConfig) : ServerCreds where
  serverUrl := cfg.serverUrl
  agentId := cfg.agentId

/-- `Client::url` with the suffix of the request. -/
def ControlRequest.url (creds : ServerCreds) (request : ControlRequest) : String :=
  creds.serverUrl ++ request.path creds.agentId

/-- The URL has a scheme and something behind it. -/
def HasHost (url : String) : Prop :=
  ∃ scheme ∈ ["https://", "http://"], ∃ c rest, url.toList = scheme.toList ++ c :: rest

/-- A slash, and no second one. -/
def StartsWithOneSlash (path : String) : Prop :=
  ∃ c rest, path.toList = '/' :: c :: rest ∧ c ≠ '/'

/-- Every endpoint is a path behind one base, which has a host and does not end with a slash. -/
structure OneBase (serverUrl : String) (cfg : ShipperConfig) : Prop where
  host : HasHost cfg.serverUrl
  noSlash : cfg.serverUrl.toList.getLast? ≠ some '/'
  /-- Whatever start enrols with that text. -/
  enroll : ∀ start (s : ShipperSection) (w : World), s.serverUrl = some serverUrl →
    ∀ asked ∈ (autoenrollAndPersist start s { w with enrolments := [] }).2.enrolments,
      enrollUrl asked.1 = cfg.serverUrl ++ enrollPath
  logs : cfg.logsEndpoint = cfg.serverUrl ++ logsPath cfg.agentId
  control : ∀ request : ControlRequest,
    request.url cfg.serverCreds = cfg.serverUrl ++ request.path cfg.agentId
  /-- Where base and path meet there is one slash, which is the path's. -/
  oneSlash : ∀ path, (path = enrollPath ∨ path = logsPath cfg.agentId ∨
    ∃ request : ControlRequest, path = request.path cfg.agentId) → StartsWithOneSlash path

/-! ### Slashes -/

theorem StartsWithOneSlash.append {path : String} (h : StartsWithOneSlash path) (more : String) :
    StartsWithOneSlash (path ++ more) := by
  obtain ⟨c, rest, hpath, hc⟩ := h
  exact ⟨c, rest ++ more.toList, by rw [String.toList_append, hpath]; rfl, hc⟩

theorem startsWithOneSlash_agents : StartsWithOneSlash "/api/v1/agents/" :=
  ⟨'a', "pi/v1/agents/".toList, by decide, by decide⟩

theorem startsWithOneSlash_path (agentId : String) (request : ControlRequest) :
    StartsWithOneSlash (request.path agentId) := by
  have hprofiles : StartsWithOneSlash "/api/v1/profiles/" :=
    ⟨'a', "pi/v1/profiles/".toList, by decide, by decide⟩
  have hplugins : StartsWithOneSlash "/api/v1/plugins/" :=
    ⟨'a', "pi/v1/plugins/".toList, by decide, by decide⟩
  cases request with
  | heartbeat | profileMetadata | alerts => exact (startsWithOneSlash_agents.append _).append _
  | profileTemplate profileId => exact (hprofiles.append _).append _
  | pluginInfo packageId | pluginBinary packageId => exact (hplugins.append _).append _
  | pluginExtra packageId filename => exact ((hplugins.append _).append _).append _
  | pluginStatus packageId | ackCommand commandId =>
    exact (((startsWithOneSlash_agents.append _).append _).append _).append _

theorem getLast?_dropSlashes (cs : List Char) :
    (cs.reverse.dropWhile (· = '/')).reverse.getLast? ≠ some '/' := by
  rw [List.getLast?_reverse]
  intro h
  have hnot := List.head?_dropWhile_not (fun c => decide (c = '/')) cs.reverse
  rw [h] at hnot
  simp at hnot

theorem dropSlashes_eq {cs : List Char} (h : cs.getLast? ≠ some '/') :
    (cs.reverse.dropWhile (· = '/')).reverse = cs := by
  have hdrop : cs.reverse.dropWhile (· = '/') = cs.reverse := by
    rw [← List.head?_reverse] at h
    cases hrev : cs.reverse with
    | nil => rfl
    | cons c rest =>
      rw [hrev] at h
      exact List.dropWhile_cons_of_neg (by simpa using h)
  rw [hdrop, List.reverse_reverse]

theorem toList_stripSlashes (url : String) :
    (stripSlashes url).toList = (url.toList.reverse.dropWhile (· = '/')).reverse := by
  rw [stripSlashes, String.toList_ofList]

theorem stripSlashes_eq_iff {url : String} :
    stripSlashes url = url ↔ url.toList.getLast? ≠ some '/' := by
  rw [← String.toList_inj, toList_stripSlashes]
  exact ⟨fun h => h ▸ getLast?_dropSlashes _, dropSlashes_eq⟩

/-- A text that passes the check and does not end with a slash has a host. -/
theorem hasHost_of_isHttpUrl {url : String} (h : isHttpUrl url = true)
    (hslash : url.toList.getLast? ≠ some '/') : HasHost url := by
  have hscheme {scheme : String} (hbegins : scheme.toList.isPrefixOf url.toList = true)
      (hlast : scheme.toList.getLast? = some '/') :
      ∃ c rest, url.toList = scheme.toList ++ c :: rest := by
    obtain ⟨rest, hrest⟩ := List.isPrefixOf_iff_prefix.mp hbegins
    cases rest with
    | nil =>
      rw [List.append_nil] at hrest
      exact absurd (hrest ▸ hlast) hslash
    | cons c rest => exact ⟨c, rest, hrest.symm⟩
  rw [isHttpUrl, Bool.or_eq_true] at h
  rcases h with h | h
  · exact ⟨"https://", List.mem_cons_self, hscheme h (by decide)⟩
  · exact ⟨"http://", List.mem_cons_of_mem _ List.mem_cons_self, hscheme h (by decide)⟩

/-! ### Sections -/

variable {s : ShipperSection} {url : String} {cfg : ShipperConfig}

theorem logsEndpoint_eq (cfg : ShipperConfig) :
    cfg.logsEndpoint = cfg.serverUrl ++ logsPath cfg.agentId := by
  have happend (a b c d : String) : a ++ b ++ c ++ d = a ++ (b ++ c ++ d) := by
    rw [String.append_assoc, String.append_assoc, String.append_assoc]
  exact happend _ _ _ _

/-- What is known of the URL of a section that is accepted. -/
theorem serverUrl_of_resolveShipper {host : Host} (hurl : s.serverUrl = some url)
    (h : host.resolveShipper s = .ok cfg) :
    isHttpUrl url = true ∧ cfg.serverUrl = stripSlashes url := by
  obtain ⟨token, -, hcfg⟩ := resolveShipper_eq_ok_iff.mp h
  obtain ⟨url', agentId, hurl', hhttp, -, -, rfl⟩ := Host.configOf_eq_ok_iff.mp hcfg
  obtain rfl := Option.some.inj (hurl.symm.trans hurl')
  exact ⟨hhttp, rfl⟩

/-- An enrolment asks the text as it is in the section. -/
theorem enrolments_autoenroll (start : Start) (w : World) (hurl : s.serverUrl = some url)
    {token : String} (htoken : s.enrollmentToken = some token) :
    (autoenrollAndPersist start s w).2.enrolments =
      w.enrolments ++ [(url, token, max s.timeoutSecs 1)] := by
  rw [autoenrollAndPersist, hurl, htoken]
  dsimp only
  cases start.perform url token (max s.timeoutSecs 1) <;> rfl

theorem mem_enrolments_autoenroll {start : Start} {w : World} (hurl : s.serverUrl = some url)
    {asked : String × String × ℕ}
    (h : asked ∈ (autoenrollAndPersist start s { w with enrolments := [] }).2.enrolments) :
    asked.1 = url := by
  cases htoken : s.enrollmentToken with
  | none =>
    rw [autoenrollAndPersist, hurl, htoken] at h
    cases h
  | some token =>
    rw [enrolments_autoenroll start _ hurl htoken, List.nil_append, List.mem_singleton] at h
    rw [h]

/-- The base of an accepted section is the base of its enrolment where nothing was stripped. -/
theorem enroll_eq_iff (hcfg : cfg.serverUrl = stripSlashes url) :
    enrollUrl url = cfg.serverUrl ++ enrollPath ↔ url.toList.getLast? ≠ some '/' := by
  rw [hcfg, ← stripSlashes_eq_iff]
  exact (String.append_left_inj _).trans eq_comm

/-- A start whose enrolment the server refuses. -/
def refusedStart (host : Host) : Start where
  programData := none
  host := host
  path := "agent.json"
  configError _ := ""
  overrides := .unreadable
  perform _ _ _ := .error "HTTP 503"
  reread := id
  written := .done
  float := id

/-- **One base URL for all endpoints**, unless a slash was stripped from it. -/
theorem endpoints_one_base_iff (host : Host) (s : ShipperSection) (url : String)
    (cfg : ShipperConfig) (hurl : s.serverUrl = some url) (hok : host.resolveShipper s = .ok cfg) :
    OneBase url cfg ↔ url.toList.getLast? ≠ some '/' := by
  obtain ⟨hhttp, hcfg⟩ := serverUrl_of_resolveShipper hurl hok
  constructor
  · intro h
    have hasked := enrolments_autoenroll (refusedStart host) { file := .notFound }
      (s := { s with enrollmentToken := some "shared" }) hurl rfl
    have henroll := h.enroll (refusedStart host) { s with enrollmentToken := some "shared" }
      { file := .notFound } hurl (url, "shared", max s.timeoutSecs 1)
      (hasked.symm ▸ List.mem_singleton_self (url, "shared", max s.timeoutSecs 1))
    exact (enroll_eq_iff hcfg).mp henroll
  · intro hslash
    have hself : cfg.serverUrl = url := hcfg.trans (stripSlashes_eq_iff.mpr hslash)
    refine ⟨hself ▸ hasHost_of_isHttpUrl hhttp hslash, hself ▸ hslash, ?_, ?_, ?_, ?_⟩
    · intro start s' w hurl' asked hasked
      rw [mem_enrolments_autoenroll hurl' hasked]
      exact (enroll_eq_iff hcfg).mpr hslash
    · exact logsEndpoint_eq cfg
    · intro request
      rfl
    · rintro path (rfl | rfl | ⟨request, rfl⟩)
      · exact ⟨'a', "pi/v1/agents/enroll".toList, by decide, by decide⟩
      · exact (startsWithOneSlash_agents.append _).append _
      · exact startsWithOneSlash_path _ request

/-- A section with this URL and credentials. -/
def enrolled (url : String) : ShipperSection :=
  { emptyToken with serverUrl := some url, tokenPlain := some "s3cret" }

/-- A URL without a slash at its end. -/
theorem enrolled_one_base : OneBase "https://wazabi.example.com"
    ((enrolled "https://wazabi.example.com").configWith "https://wazabi.example.com" "8f3c"
      "s3cret") :=
  (endpoints_one_base_iff desk (enrolled "https://wazabi.example.com") "https://wazabi.example.com"
    _ rfl ((desk.resolveShipper_of_plain rfl rfl (by decide) rfl).trans (by decide +kernel))).mpr
    (by decide)

/-- Of a scheme with nothing behind it the colon is left, and a slash too many moves the enrolment
away from the logs. -/
theorem degenerate_base : ∃ cfg cfg' : ShipperConfig,
    desk.resolveShipper (enrolled "https://") = .ok cfg ∧ cfg.serverUrl = "https:" ∧
      ¬ OneBase "https://" cfg ∧
    desk.resolveShipper (enrolled "https://wazabi.example.com/") = .ok cfg' ∧
      enrollUrl "https://wazabi.example.com/" =
        "https://wazabi.example.com//api/v1/agents/enroll" ∧
      cfg'.logsEndpoint = "https://wazabi.example.com/api/v1/agents/8f3c/logs" := by
  refine ⟨(enrolled "https://").configWith "https://" "8f3c" "s3cret",
    (enrolled "https://wazabi.example.com/").configWith "https://wazabi.example.com/" "8f3c"
      "s3cret", ?_, by decide +kernel, ?_, ?_, by decide +kernel, by decide +kernel⟩
  · exact (desk.resolveShipper_of_plain rfl rfl (by decide) rfl).trans (by decide +kernel)
  · intro h
    obtain ⟨scheme, hscheme, c, rest, hhost⟩ := h.host
    have hlen : 7 < 6 := calc
      7 < scheme.toList.length + (c :: rest).length := by
        rw [List.length_cons]
        obtain rfl | rfl := List.mem_pair.mp hscheme
        · exact Nat.lt_add_right _ (by decide)
        · exact Nat.lt_add_of_pos_right rest.length.succ_pos
      _ = 6 := by
        rw [← List.length_append, ← hhost]
        decide +kernel
    omega
  · exact (desk.resolveShipper_of_plain rfl rfl (by decide) rfl).trans (by decide +kernel)

end Shipper

end WazabiAgent
