import DnsRelay.Gui.Draft
import DnsRelay.Lib.Toml

/-!
# Export and import of drafts

A draft is written as a TOML document, with the field names of `Conf`.
`parse_config` reads it back.  Before that it collects the paths of all leaves
of the document and refuses those that are not in a registry kept by hand.

The TOML crate is a parameter.  It turns the documents of drafts into texts and
back.  Tables have their fields in the order of the crate's map, by name.
-/

namespace DnsRelay.Gui

open Lib

/-! ## Documents of drafts -/

/-- The text of a subnet, as `serialize_client_subnet` writes it. -/
def subnetText (subnet : Ipv4Subnet) : Str :=
  (Ipv4Addr.mk subnet.a subnet.b subnet.c 0).text ++ "/24".toList

/-- An entry of `serialize_redirect_list`. -/
def redirectText (rule : Str × Str) : Str := rule.1 ++ ':' :: rule.2

def transportText : RelayTransport → Str
  | .direct => "direct".toList
  | .googleChained => "google_chained".toList

def reportTypeText : MetricReportType → Str
  | .log => "log".toList
  | .http => "http".toList

def relayToml (relay : Relay) : Toml :=
  .table [("relay_key", .string relay.relayKey),
    ("relay_url", .string relay.relayUrl),
    ("transport", .string (transportText relay.transport))]

/-- A field that is left out when there is nothing to write. -/
def optionalField {α : Type} (name : String) (write : α → Toml) (value : Option α) :
    List (String × Toml) :=
  (value.map fun value => (name, write value)).toList

/-- `resolver_searching` as a table. -/
def resolverSearchingToml (conf : ResolverSearchingConf) (resfreshInterval : Option Nat) : Toml :=
  .table ([("doh", .boolean conf.doh), ("enable", .boolean conf.enable),
      ("ipv4", .boolean conf.ipv4)] ++
    optionalField "resfresh_interval" (fun n => .integer n) resfreshInterval ++
    [("resolver_source", .strings conf.resolverSource)])

/-- `relay_conf` as a table. -/
def relayConfToml (conf : RelayConf) : Toml :=
  .table [("enable", .boolean conf.enable),
    ("relay_instances", .array (conf.relayInstances.map relayToml)),
    ("relay_timeout_sec", .integer conf.relayTimeoutSec),
    ("resolve_manual", .boolean conf.resolveManual)]

/-- `hotreload_conf` as a table. -/
def hotreloadConfToml (conf : HotreloadConf) : Toml :=
  .table [("enable", .boolean conf.enable),
    ("poll_interval_ms", .integer conf.pollIntervalMs)]

/-- `metric_conf` as a table. -/
def metricConfToml (conf : MetricConf) : Toml :=
  .table [("enable", .boolean conf.enable),
    ("report_interval", .integer conf.reportInterval),
    ("report_type", .string (reportTypeText conf.reportType))]

/-- `record_history_conf` as a table. -/
def recordHistoryConfToml (conf : RecordHistoryConf) : Toml :=
  .table [("lines", .integer conf.lines),
    ("matched_list", .strings conf.matchedList)]

/-- `obfs_conf` as a table. -/
def obfsConfToml (conf : ObfsConf) : Toml :=
  .table [("bind_addr", .string conf.bindAddr), ("enable", .boolean conf.enable),
    ("keys", .strings conf.keys)]

/-- The fields up to `record_history`. -/
def Draft.firstFields (draft : Draft) : List (String × Toml) :=
  [("dns_target", .string draft.dnsTarget),
    ("drop_list", .strings draft.dropList),
    ("hotreload_conf", hotreloadConfToml draft.hotreloadConf),
    ("init_tls", .boolean draft.initTls),
    ("metric_conf", metricConfToml draft.metricConf),
    ("obfs_conf", obfsConfToml draft.obfsConf),
    ("record_history", .boolean draft.recordHistory)]

/-- The fields from `redirect_list` on. -/
def Draft.lastFields (draft : Draft) : List (String × Toml) :=
  [("redirect_list", .strings (draft.redirectList.map redirectText)),
    ("relay_conf", relayConfToml draft.relayConf),
    ("resolver_searching",
      resolverSearchingToml draft.resolverSearching draft.resfreshInterval),
    ("resolvers", .strings draft.resolvers),
    ("secure_only", .boolean draft.secureOnly),
    ("vpn_reassertion", .boolean draft.vpnReassertion)]

def Draft.toToml (draft : Draft) : Toml :=
  .table (optionalField "client_subnet" (fun subnet => .string (subnetText subnet))
      draft.clientSubnet ++ draft.firstFields ++
    optionalField "record_history_conf" recordHistoryConfToml draft.recordHistoryConf ++
    draft.lastFields)

/-! ## Reading a document -/

def readTable (value : Toml) : Option Toml := if value.isTable then some value else none

def readTransport (value : Toml) : Option RelayTransport := do
  let text ← value.asStr
  if text = "direct".toList then some .direct
  else if text = "google_chained".toList then some .googleChained
  else none

def readReportType (value : Toml) : Option MetricReportType := do
  let text ← value.asStr
  if text = "log".toList then some .log
  else if text = "http".toList then some .http
  else none

/-- An entry of `deserialize_redirect_list`. -/
def readRedirect (value : Toml) : Option (Str × Str) := value.asStr.bind (splitOnce ':')

/-- `deserialize_client_subnet`. -/
def readClientSubnet (value : Toml) : Option (Option Ipv4Subnet) :=
  (value.asStr.bind parsePublicIpv4Subnet).map some

def readRelay (value : Toml) : Option Relay := do
  let relayKey ← value.field "relay_key" Toml.asStr
  let relayUrl ← value.field "relay_url" Toml.asStr
  let transport ← value.field "transport" readTransport
  return ⟨relayKey, relayUrl, transport⟩

/-- `RelayConf`. -/
def readRelayConf (value : Toml) : Option RelayConf := do
  let enable ← value.field "enable" Toml.asBool
  let resolveManual ← value.field "resolve_manual" Toml.asBool
  let relayTimeoutSec ← value.fieldOr "relay_timeout_sec" Toml.asNat 5
  let relayInstances ← value.field "relay_instances" (Toml.asList readRelay)
  return ⟨enable, resolveManual, relayTimeoutSec, relayInstances⟩

/-- `ResolverSearchingConf`, with its refresh interval. -/
def readResolverSearching (value : Toml) : Option (ResolverSearchingConf × Option Nat) := do
  let enable ← value.field "enable" Toml.asBool
  let resolverSource ← value.field "resolver_source" (Toml.asList Toml.asStr)
  let resfreshInterval ← value.fieldOr "resfresh_interval" (fun v => v.asNat.map some) none
  let ipv4 ← value.field "ipv4" Toml.asBool
  let doh ← value.field "doh" Toml.asBool
  return (⟨enable, resolverSource, ipv4, doh⟩, resfreshInterval)

/-- `HotreloadConf`. -/
def readHotreloadConf (value : Toml) : Option HotreloadConf := do
  let enable ← value.field "enable" Toml.asBool
  let pollIntervalMs ← value.field "poll_interval_ms" Toml.asNat
  return ⟨enable, pollIntervalMs⟩

/-- `MetricConf`. -/
def readMetricConf (value : Toml) : Option MetricConf := do
  let enable ← value.field "enable" Toml.asBool
  let reportType ← value.field "report_type" readReportType
  let reportInterval ← value.fieldOr "report_interval" Toml.asNat 30
  return ⟨enable, reportType, reportInterval⟩

/-- `RecordHisotryConf`. -/
def readRecordHistoryConf (value : Toml) : Option RecordHistoryConf := do
  let matchedList ← value.field "matched_list" (Toml.asList Toml.asStr)
  let lines ← value.field "lines" Toml.asNat
  return ⟨matchedList, lines⟩

/-- `ObfsConf`. -/
def readObfsConf (value : Toml) : Option ObfsConf := do
  let value ← readTable value
  let enable ← value.fieldOr "enable" Toml.asBool false
  let bindAddr ← value.fieldOr "bind_addr" Toml.asStr "0.0.0.0:8853".toList
  let keys ← value.fieldOr "keys" (Toml.asList Toml.asStr) []
  return ⟨enable, bindAddr, keys⟩

/-- `Conf::deserialize`. -/
def Draft.fromToml (value : Toml) : Option Draft := do
  let dnsTarget ← value.fieldOr "dns_target" Toml.asStr "127.0.0.1:53".toList
  let dropList ← value.field "drop_list" (Toml.asList Toml.asStr)
  let redirectList ← value.field "redirect_list" (Toml.asList readRedirect)
  let resolvers ← value.field "resolvers" (Toml.asList Toml.asStr)
  let secureOnly ← value.fieldOr "secure_only" Toml.asBool false
  let clientSubnet ← value.fieldOr "client_subnet" readClientSubnet none
  let (resolverSearching, resfreshInterval) ←
    value.fieldOr "resolver_searching" readResolverSearching (⟨false, [], false, false⟩, none)
  let hotreloadConf ← value.fieldOr "hotreload_conf" readHotreloadConf ⟨true, 1000⟩
  let relayConf ← value.fieldOr "relay_conf" readRelayConf ⟨false, false, 0, []⟩
  let metricConf ← value.fieldOr "metric_conf" readMetricConf ⟨false, .log, 0⟩
  let vpnReassertion ← value.fieldOr "vpn_reassertion" Toml.asBool false
  let initTls ← value.fieldOr "init_tls" Toml.asBool false
  let recordHistory ← value.fieldOr "record_history" Toml.asBool false
  let recordHistoryConf ←
    value.fieldOr "record_history_conf" (fun v => (readRecordHistoryConf v).map some) none
  let obfsConf ← value.fieldOr "obfs_conf" readObfsConf ⟨false, [], []⟩
  let conf : Conf := ⟨dropList, redirectList, resolvers, secureOnly, resolverSearching, relayConf⟩
  return ⟨conf, dnsTarget, clientSubnet, resfreshInterval, hotreloadConf, metricConf,
    vpnReassertion, initTls, recordHistory, recordHistoryConf, obfsConf⟩

/-! ## Known fields -/

def childPath (path key : String) : String := if path = "" then key else path ++ "." ++ key

mutual

/-- `collect_toml_leaf_paths`. -/
def collectTomlLeafPaths : Toml → String → List String
  | .table entries, path =>
      (if entries.isEmpty && path ≠ "" then [path] else []) ++ fieldLeafPaths entries path
  | .array entries, path =>
      if entries.head?.any Toml.isTable then itemLeafPaths entries (path ++ "[]")
      else [path ++ "[]"]
  | .string _, path | .integer _, path | .float _, path | .boolean _, path | .datetime _, path =>
      [path]

def fieldLeafPaths : List (String × Toml) → String → List String
  | [], _ => []
  | (key, value) :: rest, path =>
      collectTomlLeafPaths value (childPath path key) ++ fieldLeafPaths rest path

def itemLeafPaths : List Toml → String → List String
  | [], _ => []
  | value :: rest, path => collectTomlLeafPaths value path ++ itemLeafPaths rest path

end

theorem mem_fieldLeafPaths {entries : List (String × Toml)} {path leaf : String} :
    leaf ∈ fieldLeafPaths entries path ↔
      ∃ entry ∈ entries, leaf ∈ collectTomlLeafPaths entry.2 (childPath path entry.1) := by
  induction entries with
  | nil => simp [fieldLeafPaths]
  | cons entry entries ih => rw [fieldLeafPaths, List.mem_append, ih, List.exists_mem_cons_iff]

theorem mem_itemLeafPaths {items : List Toml} {path leaf : String} :
    leaf ∈ itemLeafPaths items path ↔ ∃ item ∈ items, leaf ∈ collectTomlLeafPaths item path := by
  induction items with
  | nil => simp [itemLeafPaths]
  | cons item items ih => rw [itemLeafPaths, List.mem_append, ih, List.exists_mem_cons_iff]

/-- `config-fields.json`. -/
def configFields : List String :=
  ["client_subnet", "dns_target", "drop_list[]", "hotreload_conf.enable",
    "hotreload_conf.poll_interval_ms", "init_tls", "metric_conf.enable",
    "metric_conf.report_interval", "metric_conf.report_type", "obfs_conf.bind_addr",
    "obfs_conf.enable", "obfs_conf.keys[]", "record_history", "record_history_conf.lines",
    "record_history_conf.matched_list[]", "redirect_list[]", "relay_conf.enable",
    "relay_conf.relay_instances[].relay_key", "relay_conf.relay_instances[].relay_url",
    "relay_conf.relay_instances[].transport", "relay_conf.relay_timeout_sec",
    "relay_conf.resolve_manual", "resolver_searching.doh", "resolver_searching.enable",
    "resolver_searching.ipv4", "resolver_searching.resfresh_interval",
    "resolver_searching.resolver_source[]", "resolvers[]", "secure_only", "vpn_reassertion"]

/-- The first field of a document that is not known. -/
def unknownField (document : Toml) : Option String :=
  (collectTomlLeafPaths document "").find? fun field => !configFields.contains field

/-! ## Commands -/

/-- The TOML crate, as the commands use it. -/
structure TomlCrate (Text : Type) where
  /-- `toml::to_string_pretty`, with the text of its errors. -/
  toStringPretty : Toml → Except Str Text
  /-- `toml::from_str` to a value. -/
  fromStr : Text → Except Str Toml
  /-- The error of `toml::from_str` to a `Conf`, for a document without the
  expected form. -/
  describe : Toml → Str
  round_trip : ∀ draft : Draft, ∃ text,
    toStringPretty draft.toToml = .ok text ∧ fromStr text = .ok draft.toToml

def TomlCrate.plain : TomlCrate Toml where
  toStringPretty document := .ok document
  fromStr text := .ok text
  describe _ := []
  round_trip draft := ⟨draft.toToml, rfl, rfl⟩

section Commands

variable (hostFromUrl : Str → Option Str) {Text : Type} (T : TomlCrate Text)

/-- A value, or the error of `toml::from_str`. -/
def parseToml (configToml : Text) : Except CommandError Toml :=
  (T.fromStr configToml).mapError (.new "invalid_config".toList)

def unknownFieldError (field : String) : CommandError :=
  .ofField "unknown_config_field".toList ("Unknown configuration field: " ++ field).toList
    field.toList

/-- A document is refused for the first field that is not known. -/
def checkKnownFields (document : Toml) : Except CommandError Unit :=
  match unknownField document with
  | some field => .error (unknownFieldError field)
  | none => .ok ()

/-- `reject_unknown_config_fields`. -/
def rejectUnknownConfigFields (configToml : Text) : Except CommandError Unit := do
  let value ← parseToml T configToml
  checkKnownFields value

/-- `parse_config`. -/
def parseConfig (configToml : Text) : Except CommandError Draft := do
  rejectUnknownConfigFields T configToml
  let value ← parseToml T configToml
  match Draft.fromToml value with
  | none => .error (.new "invalid_config".toList (T.describe value))
  | some draft => do
      requireValidDraft hostFromUrl draft
      requireSecretReferences draft
      return draft

/-- `export_config`.  With `plaintext` the secrets are looked up, which is left
to `configForAdmin`. -/
def exportConfig (configForAdmin : Draft → Except CommandError Text) (draft : Draft)
    (plaintext : Bool) : Except CommandError Text := do
  requireValidDraft hostFromUrl draft
  if plaintext then configForAdmin draft
  else do
    requireSecretReferences draft
    (T.toStringPretty draft.toToml).mapError fun error =>
      .new "export_failed".toList (validationText (.config error))

end Commands

end DnsRelay.Gui
