import Mathlib.Data.List.Infix
import DnsRelay.Relay.Conf
import DnsRelay.Shared.Subnet

/-!
# Drafts of a configuration

The desktop application edits a draft, which is a `Conf` with all its fields.
`require_valid_draft` and `require_secret_references` decide which drafts may be
exported and imported.  Both return the first problem, with the field that has
it.
-/

namespace DnsRelay.Gui

open Lib

/-! ## Records -/

structure HotreloadConf where
  enable : Bool
  pollIntervalMs : Nat
deriving DecidableEq, Repr

inductive MetricReportType where
  | log
  | http
deriving DecidableEq, Repr

structure MetricConf where
  enable : Bool
  reportType : MetricReportType
  reportInterval : Nat
deriving DecidableEq, Repr

/-- `RecordHisotryConf`. -/
structure RecordHistoryConf where
  matchedList : List Str
  lines : Nat
deriving DecidableEq, Repr

structure ObfsConf where
  enable : Bool
  bindAddr : Str
  keys : List Str
deriving DecidableEq, Repr

/-- `Conf` with the fields that only the application and the server's other
tasks read. -/
structure Draft extends Conf where
  dnsTarget : Str
  clientSubnet : Option Ipv4Subnet
  /-- `resolver_searching.resfresh_interval`. -/
  resfreshInterval : Option Nat
  hotreloadConf : HotreloadConf
  metricConf : MetricConf
  vpnReassertion : Bool
  initTls : Bool
  recordHistory : Bool
  recordHistoryConf : Option RecordHistoryConf
  obfsConf : ObfsConf
deriving DecidableEq, Repr

structure CommandError where
  code : Str
  message : Str
  field : Option Str
deriving DecidableEq, Repr

/-- `CommandError::new`. -/
def CommandError.new (code message : Str) : CommandError := ⟨code, message, none⟩

/-- `CommandError::field`. -/
def CommandError.ofField (code message field : Str) : CommandError := ⟨code, message, some field⟩

/-! ## Secrets -/

/-- `u8::is_ascii_alphanumeric`. -/
def isAsciiAlphanumeric (b : UInt8) : Bool :=
  (decide (48 ≤ b) && decide (b ≤ 57)) || (decide (65 ≤ b) && decide (b ≤ 90)) ||
    (decide (97 ≤ b) && decide (b ≤ 122))

/-- What `SecretId::new` accepts. -/
def isSecretId (value : Str) : Bool :=
  !value.isEmpty && decide ((utf8 value).length ≤ 128) &&
    (utf8 value).all fun b => isAsciiAlphanumeric b || b == 46 || b == 95 || b == 45

structure SecretId where
  value : Str
  valid : isSecretId value = true

/-- `secret_id_from_reference`. -/
def secretIdFromReference (reference : Str) : Except CommandError SecretId :=
  match stripPrefix reference "vault://".toList with
  | none =>
      .error (.new "secret_reference_required".toList "Expected a vault reference".toList)
  | some id =>
      if h : isSecretId id = true then .ok ⟨id, h⟩
      else .error (.new "invalid_secret_reference".toList "secret ID is invalid".toList)

def checkEach {α : Type} (items : List α) (check : α → Nat → Except CommandError Unit) :
    Except CommandError Unit :=
  items.zipIdx.forM fun item => check item.1 item.2

def indexed (field : String) (index : Nat) : Str := field.toList ++ '.' :: Nat.toDigits 10 index

def checkReference (reference field : Str) : Except CommandError Unit :=
  match secretIdFromReference reference with
  | .ok _ => .ok ()
  | .error _ =>
      .error (.ofField "secret_reference_required".toList
        "Imported secrets must use vault references".toList field)

/-- `require_secret_references`. -/
def requireSecretReferences (draft : Draft) : Except CommandError Unit := do
  checkEach draft.relayConf.relayInstances fun relay index =>
    if relay.relayKey.isEmpty then .ok ()
    else checkReference relay.relayKey
      (indexed "relayConf.relayInstances" index ++ ".relayKey".toList)
  checkEach draft.obfsConf.keys fun key index => checkReference key (indexed "obfsConf.keys" index)

/-! ## Validation -/

section Validation

-- `host_from_url`, which rests on the `url` crate
variable (hostFromUrl : Str → Option Str)

/-- `valid_resolver`. -/
def validResolver (resolver : Str) : Bool :=
  if startsWith resolver https then (hostFromUrl resolver).isSome
  else
    match stripPrefix resolver quic with
    | some address => (parseSocketAddr address).isSome
    | none => (parseSocketAddr resolver).isSome

/-- `is_file_reference` of the application. -/
def isFileReference (value : Str) : Bool :=
  startsWith value "/".toList || startsWith value "./".toList || startsWith value "../".toList

/-- `valid_domain_pattern`. -/
def validDomainPattern (value : Str) : Bool :=
  let value := trimEndMatches '.' value
  !value.isEmpty && value.contains '.' && !decide ("..".toList <:+: value) &&
    (utf8 value).all fun b => isAsciiAlphanumeric b || b == 46 || b == 45 || b == 95 || b == 42

/-- `valid_redirect_target`. -/
def validRedirectTarget (value : Str) : Bool :=
  (value.splitOn ',').all fun address => (parseIpv4Addr (trim address)).isSome

/-- An address that must be reached by `https://`. -/
def validHttpsUrl (url : Str) : Bool := startsWith url https && (hostFromUrl url).isSome

/-- The text of an error of `Conf::validate`, which is always a `Config`. -/
def validationText : Error → Str
  | .config text => "config error: ".toList ++ text
  | _ => []

def problem (failed : Bool) (code message : String) (field : Str) : List CommandError :=
  if failed then [.ofField code.toList message.toList field] else []

def problems {α : Type} (items : List α) (check : α → Nat → List CommandError) :
    List CommandError :=
  items.zipIdx.flatMap fun item => check item.1 item.2

def relayProblems (enable : Bool) (relay : Relay) (index : Nat) : List CommandError :=
  let field := indexed "relayConf.relayInstances" index
  problem (!validHttpsUrl hostFromUrl relay.relayUrl) "invalid_relay_url"
      "Relay URL must use HTTPS" (field ++ ".relayUrl".toList) ++
    problem (enable && !(secretIdFromReference relay.relayKey).isOk) "secret_reference_required"
      "Enabled relays require a key stored in the credential vault" (field ++ ".relayKey".toList)

def redirectProblems (rules : List (Str × Str)) : List CommandError :=
  problems rules fun rule index =>
    problem (isFileReference rule.1 || !validDomainPattern rule.1 ||
        !(rule.2.splitOn ',').all validRedirectTarget) "invalid_redirect_rule"
      "Redirect rule must map a domain pattern to IP addresses" (indexed "redirectList" index)

def obfsProblems (conf : ObfsConf) : List CommandError :=
  problem (parseSocketAddr conf.bindAddr).isNone "invalid_obfs_listener"
      "Obfuscation listener must be an IP address and port" "obfsConf.bindAddr".toList ++
    problem (conf.enable && conf.keys.isEmpty) "secret_reference_required"
      "Enabled obfuscation requires at least one vault key" "obfsConf.keys".toList ++
    if conf.enable then
      problems conf.keys fun key index =>
        problem (!(secretIdFromReference key).isOk) "secret_reference_required"
          "Obfuscation keys must be stored in the credential vault" (indexed "obfsConf.keys" index)
    else []

/-- `gui_validation_errors`. -/
def guiValidationErrors (draft : Draft) : List CommandError :=
  List.flatten [
    match draft.toConf.validate with
    | .ok () => []
    | .error error => [.new "invalid_config".toList (validationText error)],
    problem (parseSocketAddr draft.dnsTarget).isNone "invalid_listener"
      "Listener must be an IP address and port" "dnsTarget".toList,
    problems draft.resolvers fun resolver index =>
      problem (!validResolver hostFromUrl resolver) "invalid_resolver"
        "Resolver must be an HTTPS, QUIC, or socket endpoint" (indexed "resolvers" index),
    problems draft.dropList fun rule index =>
      problem (!isFileReference rule && !validDomainPattern rule) "invalid_drop_rule"
        "Drop rule must be a domain pattern or local list path" (indexed "dropList" index),
    redirectProblems draft.redirectList,
    problems draft.resolverSearching.resolverSource fun source index =>
      problem (!validHttpsUrl hostFromUrl source) "invalid_resolver_source"
        "Resolver discovery sources must use HTTPS"
        (indexed "resolverSearching.resolverSource" index),
    problem (draft.resfreshInterval == some 0) "invalid_refresh_interval"
      "Refresh interval must be greater than zero" "resolverSearching.resfreshInterval".toList,
    problem (draft.hotreloadConf.pollIntervalMs == 0) "invalid_poll_interval"
      "Hot reload interval must be greater than zero" "hotreloadConf.pollIntervalMs".toList,
    problem (draft.metricConf.reportInterval == 0) "invalid_metric_interval"
      "Metrics interval must be greater than zero" "metricConf.reportInterval".toList,
    problem (draft.relayConf.relayTimeoutSec == 0) "invalid_relay_timeout"
      "Relay timeout must be greater than zero" "relayConf.relayTimeoutSec".toList,
    problems draft.relayConf.relayInstances (relayProblems hostFromUrl draft.relayConf.enable),
    obfsProblems draft.obfsConf,
    problem (draft.recordHistoryConf.any (·.lines == 0)) "invalid_history_lines"
      "History line retention must be greater than zero" "recordHistoryConf.lines".toList]

/-- `require_valid_draft`. -/
def requireValidDraft (draft : Draft) : Except CommandError Unit :=
  match (guiValidationErrors hostFromUrl draft).head? with
  | none => .ok ()
  | some error => .error error

end Validation

/-! ## The draft at the start -/

/-- `starter_draft`. -/
def starterDraft : Draft where
  dropList := []
  redirectList := []
  resolvers := ["https://1.1.1.1/dns-query".toList]
  secureOnly := true
  resolverSearching := ⟨false, [], true, true⟩
  relayConf := ⟨false, false, 5, []⟩
  dnsTarget := "127.0.0.1:53".toList
  clientSubnet := none
  resfreshInterval := none
  hotreloadConf := ⟨true, 1000⟩
  metricConf := ⟨true, .http, 30⟩
  vpnReassertion := false
  initTls := false
  recordHistory := false
  recordHistoryConf := none
  obfsConf := ⟨false, "0.0.0.0:8853".toList, []⟩

def anyHost (url : Str) : Option Str := some url

/-! ## What a valid draft has -/

theorem validDomainPattern_byte {value : Str} (h : validDomainPattern value = true) {c : Char}
    (hc : c ∈ value) (hdot : c ≠ '.') {b : UInt8} (hb : b ∈ String.utf8EncodeChar c) :
    (isAsciiAlphanumeric b || b == 46 || b == 45 || b == 95 || b == 42) = true := by
  simp only [validDomainPattern, Bool.and_eq_true, List.all_eq_true] at h
  exact h.2 b (List.mem_flatMap.mpr ⟨c, mem_trimEndMatches hc hdot, hb⟩)

theorem colon_not_mem_of_validDomainPattern {value : Str} (h : validDomainPattern value = true) :
    ':' ∉ value := by
  intro hcolon
  have hmem : (58 : UInt8) ∈ String.utf8EncodeChar ':' := by decide
  exact absurd (validDomainPattern_byte h hcolon (by decide) hmem) (by decide)

theorem slash_not_mem_of_validDomainPattern {value : Str} (h : validDomainPattern value = true) :
    '/' ∉ value := by
  intro hslash
  have hmem : (47 : UInt8) ∈ String.utf8EncodeChar '/' := by decide
  exact absurd (validDomainPattern_byte h hslash (by decide) hmem) (by decide)

theorem problem_eq_nil {failed : Bool} {code message : String} {field : Str} :
    problem failed code message field = [] ↔ failed = false := by
  cases failed <;> simp [problem]

/-- There are no problems if no item has one. -/
theorem problems_eq_nil {α : Type} {items : List α} {check : α → Nat → List CommandError}
    (h : problems items check = []) {item : α} (hitem : item ∈ items) :
    ∃ index, check item index = [] := by
  obtain ⟨index, hindex⟩ := List.mem_iff_getElem?.mp hitem
  exact ⟨index, List.flatMap_eq_nil_iff.mp h _ (List.mk_mem_zipIdx_iff_getElem?.mpr hindex)⟩

section Valid

variable {hostFromUrl : Str → Option Str} {draft : Draft}

theorem requireValidDraft_ok :
    requireValidDraft hostFromUrl draft = .ok () ↔ guiValidationErrors hostFromUrl draft = [] := by
  unfold requireValidDraft
  cases guiValidationErrors hostFromUrl draft with
  | nil => exact iff_of_true rfl rfl
  | cons error rest => simp

/-- The domains of a valid draft's redirects hold no colon. -/
theorem colon_not_mem_redirect (h : requireValidDraft hostFromUrl draft = .ok ()) {rule : Str × Str}
    (hrule : rule ∈ draft.redirectList) : ':' ∉ rule.1 := by
  have hnone := requireValidDraft_ok.mp h
  have hgroup : redirectProblems draft.redirectList = [] :=
    List.flatten_eq_nil_iff.mp hnone _ (.tail _ (.tail _ (.tail _ (.tail _ (.head _)))))
  obtain ⟨index, hindex⟩ := problems_eq_nil hgroup hrule
  rw [problem_eq_nil] at hindex
  simp only [Bool.or_eq_false_iff, Bool.not_eq_false'] at hindex
  exact colon_not_mem_of_validDomainPattern hindex.1.2

end Valid

end DnsRelay.Gui
