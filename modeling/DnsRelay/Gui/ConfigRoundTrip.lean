import DnsRelay.Gui.ConfigFile

/-!
# Whether an export can be imported

The document of a draft is read back record by record.  Two things stand in the
way.  A list of relays without any relay is a leaf, and the registry knows only
the fields of relays.  And the reader takes public subnets only, while a draft
is not checked for that.

`Importable` says that neither is the case.  `export_then_import_iff` says that
a valid draft survives an export and an import exactly then.
-/

namespace DnsRelay.Gui

open Lib

/-! ## Reading back -/

def publicSubnet (subnet : Ipv4Subnet) : Bool := isPublicIpv4 ⟨subnet.a, subnet.b, subnet.c, 0⟩

theorem slash_not_mem_text (ip : Ipv4Addr) : '/' ∉ ip.text := by
  have hoctet := fun b : UInt8 => (octet_digits b.toNat b.toNat_lt).2.2.2.2
  have hdot : '/' ≠ '.' := by decide
  simp only [Ipv4Addr.text, List.mem_append, List.mem_cons, not_or]
  exact ⟨hoctet _, hdot, hoctet _, hdot, hoctet _, hdot, hoctet _⟩

theorem parsePublicIpv4Subnet_text (subnet : Ipv4Subnet) :
    parsePublicIpv4Subnet (subnetText subnet) =
      if publicSubnet subnet then some subnet else none := by
  have hsplit : splitOnce '/' (subnetText subnet) =
      some ((Ipv4Addr.mk subnet.a subnet.b subnet.c 0).text, "24".toList) :=
    splitOnce_append (slash_not_mem_text _) _
  simp only [parsePublicIpv4Subnet, hsplit, Option.bind_eq_bind, Option.bind_some,
    parseIpv4Addr_text, ne_eq, not_true_eq_false, if_false]
  cases hpublic : publicSubnet subnet with
  | true => exact if_pos (by rw [← publicSubnet, hpublic]; rfl)
  | false => exact if_neg (by rw [← publicSubnet, hpublic]; decide)

theorem readTransport_text (transport : RelayTransport) :
    readTransport (.string (transportText transport)) = some transport := by
  cases transport <;> rfl

theorem readReportType_text (reportType : MetricReportType) :
    readReportType (.string (reportTypeText reportType)) = some reportType := by
  cases reportType <;> rfl

theorem readRelay_toml (relay : Relay) : readRelay (relayToml relay) = some relay := by
  have hkey : (relayToml relay).field "relay_key" Toml.asStr = some relay.relayKey :=
    Toml.field_eq rfl rfl
  have hurl : (relayToml relay).field "relay_url" Toml.asStr = some relay.relayUrl :=
    Toml.field_eq rfl rfl
  have htransport : (relayToml relay).field "transport" readTransport = some relay.transport :=
    Toml.field_eq rfl (readTransport_text _)
  simp only [readRelay, hkey, hurl, htransport, Option.bind_eq_bind, Option.bind_some]
  rfl

theorem readRedirects_toml {rules : List (Str × Str)} (h : ∀ rule ∈ rules, ':' ∉ rule.1) :
    Toml.asList readRedirect (.strings (rules.map redirectText)) = some rules := by
  rw [Toml.strings, List.map_map]
  exact Toml.asList_map fun rule hrule => splitOnce_append (h rule hrule) rule.2

theorem readRelayConf_toml (conf : RelayConf) : readRelayConf (relayConfToml conf) = some conf := by
  have henable : (relayConfToml conf).field "enable" Toml.asBool = some conf.enable :=
    Toml.field_eq rfl rfl
  have hmanual : (relayConfToml conf).field "resolve_manual" Toml.asBool =
      some conf.resolveManual := Toml.field_eq rfl rfl
  have htimeout : (relayConfToml conf).fieldOr "relay_timeout_sec" Toml.asNat 5 =
      some conf.relayTimeoutSec := Toml.fieldOr_eq rfl (Toml.asNat_ofNat _)
  have hinstances : (relayConfToml conf).field "relay_instances" (Toml.asList readRelay) =
      some conf.relayInstances :=
    Toml.field_eq rfl (Toml.asList_map fun relay _ => readRelay_toml relay)
  simp only [readRelayConf, henable, hmanual, htimeout, hinstances, Option.bind_eq_bind,
    Option.bind_some]
  rfl

theorem readResolverSearching_toml (conf : ResolverSearchingConf) (interval : Option Nat) :
    readResolverSearching (resolverSearchingToml conf interval) = some (conf, interval) := by
  have henable : (resolverSearchingToml conf interval).field "enable" Toml.asBool =
      some conf.enable := Toml.field_eq rfl rfl
  have hipv4 : (resolverSearchingToml conf interval).field "ipv4" Toml.asBool =
      some conf.ipv4 := Toml.field_eq rfl rfl
  have hdoh : (resolverSearchingToml conf interval).field "doh" Toml.asBool =
      some conf.doh := Toml.field_eq rfl rfl
  have hsource : (resolverSearchingToml conf interval).field "resolver_source"
      (Toml.asList Toml.asStr) = some conf.resolverSource := by
    cases interval with
    | none => exact Toml.field_eq rfl (Toml.asList_strings _)
    | some n => exact Toml.field_eq rfl (Toml.asList_strings _)
  have hinterval : (resolverSearchingToml conf interval).fieldOr "resfresh_interval"
      (fun v => v.asNat.map some) none = some interval := by
    cases interval with
    | none => exact Toml.fieldOr_default rfl
    | some n => exact Toml.fieldOr_eq rfl (by rw [Toml.asNat_ofNat, Option.map_some])
  simp only [readResolverSearching, henable, hipv4, hdoh, hsource, hinterval,
    Option.bind_eq_bind, Option.bind_some]
  rfl

theorem readHotreloadConf_toml (conf : HotreloadConf) :
    readHotreloadConf (hotreloadConfToml conf) = some conf := by
  have henable : (hotreloadConfToml conf).field "enable" Toml.asBool = some conf.enable :=
    Toml.field_eq rfl rfl
  have hpoll : (hotreloadConfToml conf).field "poll_interval_ms" Toml.asNat =
      some conf.pollIntervalMs := Toml.field_eq rfl (Toml.asNat_ofNat _)
  simp only [readHotreloadConf, henable, hpoll, Option.bind_eq_bind, Option.bind_some]
  rfl

theorem readMetricConf_toml (conf : MetricConf) :
    readMetricConf (metricConfToml conf) = some conf := by
  have henable : (metricConfToml conf).field "enable" Toml.asBool = some conf.enable :=
    Toml.field_eq rfl rfl
  have htype : (metricConfToml conf).field "report_type" readReportType = some conf.reportType :=
    Toml.field_eq rfl (readReportType_text _)
  have hinterval : (metricConfToml conf).fieldOr "report_interval" Toml.asNat 30 =
      some conf.reportInterval := Toml.fieldOr_eq rfl (Toml.asNat_ofNat _)
  simp only [readMetricConf, henable, htype, hinterval, Option.bind_eq_bind, Option.bind_some]
  rfl

theorem readRecordHistoryConf_toml (conf : RecordHistoryConf) :
    readRecordHistoryConf (recordHistoryConfToml conf) = some conf := by
  have hmatched : (recordHistoryConfToml conf).field "matched_list" (Toml.asList Toml.asStr) =
      some conf.matchedList := Toml.field_eq rfl (Toml.asList_strings _)
  have hlines : (recordHistoryConfToml conf).field "lines" Toml.asNat = some conf.lines :=
    Toml.field_eq rfl (Toml.asNat_ofNat _)
  simp only [readRecordHistoryConf, hmatched, hlines, Option.bind_eq_bind, Option.bind_some]
  rfl

theorem readObfsConf_toml (conf : ObfsConf) : readObfsConf (obfsConfToml conf) = some conf := by
  have htable : readTable (obfsConfToml conf) = some (obfsConfToml conf) := rfl
  have henable : (obfsConfToml conf).fieldOr "enable" Toml.asBool false = some conf.enable :=
    Toml.fieldOr_eq rfl rfl
  have hbind : (obfsConfToml conf).fieldOr "bind_addr" Toml.asStr "0.0.0.0:8853".toList =
      some conf.bindAddr := Toml.fieldOr_eq rfl rfl
  have hkeys : (obfsConfToml conf).fieldOr "keys" (Toml.asList Toml.asStr) [] =
      some conf.keys := Toml.fieldOr_eq rfl (Toml.asList_strings _)
  simp only [readObfsConf, htable, henable, hbind, hkeys, Option.bind_eq_bind, Option.bind_some]
  rfl

theorem lookup_optionalField {α : Type} {field name : String} {write : α → Toml}
    {value : Option α} (h : name ≠ field) :
    (optionalField field write value).lookup name = none := by
  cases value with
  | none => rfl
  | some value =>
      show List.lookup name [(field, write value)] = none
      rw [List.lookup_cons, beq_false_of_ne h]
      rfl

theorem toToml_get (draft : Draft) {name : String} (hsubnet : name ≠ "client_subnet")
    (hhistory : name ≠ "record_history_conf") :
    draft.toToml.get name = (draft.firstFields.lookup name).or (draft.lastFields.lookup name) := by
  show List.lookup name (_ ++ _ ++ _ ++ _) = _
  rw [List.lookup_append, List.lookup_append, List.lookup_append, lookup_optionalField hsubnet,
    lookup_optionalField hhistory, Option.none_or, Option.or_none]

theorem toToml_get_clientSubnet (draft : Draft) :
    draft.toToml.get "client_subnet" =
      draft.clientSubnet.map fun subnet => .string (subnetText subnet) := by
  show List.lookup _ (_ ++ _ ++ _ ++ _) = _
  rw [List.lookup_append, List.lookup_append, List.lookup_append,
    lookup_optionalField (show _ ≠ "record_history_conf" by decide), Option.or_none]
  cases draft.clientSubnet with
  | none => rfl
  | some subnet => rfl

theorem toToml_get_recordHistoryConf (draft : Draft) :
    draft.toToml.get "record_history_conf" =
      draft.recordHistoryConf.map recordHistoryConfToml := by
  show List.lookup _ (_ ++ _ ++ _ ++ _) = _
  rw [List.lookup_append, List.lookup_append, List.lookup_append,
    lookup_optionalField (show _ ≠ "client_subnet" by decide), Option.none_or]
  cases draft.recordHistoryConf with
  | none => rfl
  | some conf => rfl

theorem clientSubnet_toml (draft : Draft) :
    draft.toToml.fieldOr "client_subnet" readClientSubnet none =
      if draft.clientSubnet.all publicSubnet then some draft.clientSubnet else none := by
  have hget := toToml_get_clientSubnet draft
  cases hsubnet : draft.clientSubnet with
  | none =>
      rw [hsubnet] at hget
      exact Toml.fieldOr_default hget
  | some subnet =>
      rw [hsubnet] at hget
      rw [Toml.fieldOr, hget]
      show (parsePublicIpv4Subnet (subnetText subnet)).map some = _
      rw [parsePublicIpv4Subnet_text, Option.all_some, apply_ite (Option.map some)]
      rfl

theorem recordHistoryConf_toml (draft : Draft) :
    draft.toToml.fieldOr "record_history_conf" (fun v => (readRecordHistoryConf v).map some) none =
      some draft.recordHistoryConf := by
  have hget := toToml_get_recordHistoryConf draft
  cases hhistory : draft.recordHistoryConf with
  | none =>
      rw [hhistory] at hget
      exact Toml.fieldOr_default hget
  | some conf =>
      rw [hhistory] at hget
      exact Toml.fieldOr_eq hget (by rw [readRecordHistoryConf_toml, Option.map_some])

/-- The document of a draft is read back if its subnet is. -/
theorem fromToml_toToml {draft : Draft} (hredirect : ∀ rule ∈ draft.redirectList, ':' ∉ rule.1) :
    Draft.fromToml draft.toToml =
      if draft.clientSubnet.all publicSubnet then some draft else none := by
  have hget := fun (name : String) (hsubnet : name ≠ "client_subnet")
    (hhistory : name ≠ "record_history_conf") => toToml_get draft hsubnet hhistory
  have hdns : draft.toToml.fieldOr "dns_target" Toml.asStr "127.0.0.1:53".toList =
      some draft.dnsTarget := Toml.fieldOr_eq (hget _ (by decide) (by decide)) rfl
  have hdrop : draft.toToml.field "drop_list" (Toml.asList Toml.asStr) = some draft.dropList :=
    Toml.field_eq (hget _ (by decide) (by decide)) (Toml.asList_strings _)
  have hredirects : draft.toToml.field "redirect_list" (Toml.asList readRedirect) =
      some draft.redirectList :=
    Toml.field_eq (hget _ (by decide) (by decide)) (readRedirects_toml hredirect)
  have hresolvers : draft.toToml.field "resolvers" (Toml.asList Toml.asStr) =
      some draft.resolvers :=
    Toml.field_eq (hget _ (by decide) (by decide)) (Toml.asList_strings _)
  have hsecure : draft.toToml.fieldOr "secure_only" Toml.asBool false = some draft.secureOnly :=
    Toml.fieldOr_eq (hget _ (by decide) (by decide)) rfl
  have hsearching : draft.toToml.fieldOr "resolver_searching" readResolverSearching
      (⟨false, [], false, false⟩, none) = some (draft.resolverSearching, draft.resfreshInterval) :=
    Toml.fieldOr_eq (hget _ (by decide) (by decide)) (readResolverSearching_toml _ _)
  have hhotreload : draft.toToml.fieldOr "hotreload_conf" readHotreloadConf ⟨true, 1000⟩ =
      some draft.hotreloadConf :=
    Toml.fieldOr_eq (hget _ (by decide) (by decide)) (readHotreloadConf_toml _)
  have hrelay : draft.toToml.fieldOr "relay_conf" readRelayConf ⟨false, false, 0, []⟩ =
      some draft.relayConf :=
    Toml.fieldOr_eq (hget _ (by decide) (by decide)) (readRelayConf_toml _)
  have hmetric : draft.toToml.fieldOr "metric_conf" readMetricConf ⟨false, .log, 0⟩ =
      some draft.metricConf :=
    Toml.fieldOr_eq (hget _ (by decide) (by decide)) (readMetricConf_toml _)
  have hvpn : draft.toToml.fieldOr "vpn_reassertion" Toml.asBool false =
      some draft.vpnReassertion := Toml.fieldOr_eq (hget _ (by decide) (by decide)) rfl
  have htls : draft.toToml.fieldOr "init_tls" Toml.asBool false = some draft.initTls :=
    Toml.fieldOr_eq (hget _ (by decide) (by decide)) rfl
  have hrecord : draft.toToml.fieldOr "record_history" Toml.asBool false =
      some draft.recordHistory := Toml.fieldOr_eq (hget _ (by decide) (by decide)) rfl
  have hobfs : draft.toToml.fieldOr "obfs_conf" readObfsConf ⟨false, [], []⟩ =
      some draft.obfsConf :=
    Toml.fieldOr_eq (hget _ (by decide) (by decide)) (readObfsConf_toml _)
  simp only [Draft.fromToml, hdns, hdrop, hredirects, hresolvers, hsecure, clientSubnet_toml,
    hsearching, hhotreload, hrelay, hmetric, hvpn, htls, hrecord, recordHistoryConf_toml, hobfs,
    Option.bind_eq_bind, Option.bind_some]
  cases draft.clientSubnet.all publicSubnet with
  | true => rfl
  | false => rfl

/-! ## Known fields -/

def relayListPath : String := "relay_conf.relay_instances[]"

/-- The leaves of a value are in the registry, or they are the list of relays. -/
def Known (relays : List Relay) (value : Toml) (path : String) : Prop :=
  ∀ leaf ∈ collectTomlLeafPaths value path,
    leaf ∈ configFields ∨ relays = [] ∧ leaf = relayListPath

section Known

variable {relays : List Relay}

/-- A table with a field is known if its fields are. -/
theorem known_table {entries : List (String × Toml)} {path : String} (hne : entries ≠ [])
    (h : ∀ entry ∈ entries, Known relays entry.2 (childPath path entry.1)) :
    Known relays (.table entries) path := by
  intro leaf hleaf
  rw [collectTomlLeafPaths, List.isEmpty_eq_false_iff.mpr hne, Bool.false_and] at hleaf
  obtain ⟨entry, hentry, hmem⟩ := mem_fieldLeafPaths.mp hleaf
  exact h entry hentry leaf hmem

/-- A value with one leaf is known if that leaf is. -/
theorem known_leaf {value : Toml} {path leaf : String}
    (hleaf : collectTomlLeafPaths value path = [leaf]) (h : leaf ∈ configFields) :
    Known relays value path := by
  intro leaf' hmem
  rw [hleaf] at hmem
  rw [List.mem_singleton.mp hmem]
  exact .inl h

theorem leafPaths_strings (texts : List Str) (path : String) :
    collectTomlLeafPaths (.strings texts) path = [path ++ "[]"] := by
  cases texts with
  | nil => rfl
  | cons text texts => rfl

theorem known_optionalField {α : Type} {field : String} {write : α → Toml} {value : Option α}
    {path : String} (h : ∀ value, Known relays (write value) (childPath path field)) :
    ∀ entry ∈ optionalField field write value, Known relays entry.2 (childPath path entry.1) := by
  intro entry hentry
  cases value with
  | none => cases hentry
  | some value =>
      cases List.mem_singleton.mp hentry
      exact h value

theorem known_relay (relay : Relay) : Known relays (relayToml relay) relayListPath := by
  refine known_table (List.cons_ne_nil _ _) ?_
  simp only [List.forall_mem_cons, List.not_mem_nil, false_imp_iff, implies_true, and_true]
  refine ⟨known_leaf rfl ?_, known_leaf rfl ?_, known_leaf rfl ?_⟩ <;>
    simp [childPath, relayListPath, configFields]

/-- An empty list of relays is the one leaf that is not known. -/
theorem known_relayInstances :
    Known relays (.array (relays.map relayToml)) "relay_conf.relay_instances" := by
  intro leaf hleaf
  cases relays with
  | nil => exact .inr ⟨rfl, List.mem_singleton.mp hleaf⟩
  | cons relay rest =>
      have hitems : collectTomlLeafPaths (.array ((relay :: rest).map relayToml))
          "relay_conf.relay_instances" = itemLeafPaths ((relay :: rest).map relayToml)
            relayListPath := rfl
      rw [hitems] at hleaf
      obtain ⟨item, hitem, hmem⟩ := mem_itemLeafPaths.mp hleaf
      obtain ⟨relay', -, rfl⟩ := List.mem_map.mp hitem
      exact known_relay relay' leaf hmem

theorem known_relayConf (conf : RelayConf) :
    Known conf.relayInstances (relayConfToml conf) "relay_conf" := by
  refine known_table (List.cons_ne_nil _ _) ?_
  simp only [List.forall_mem_cons, List.not_mem_nil, false_imp_iff, implies_true, and_true]
  refine ⟨known_leaf rfl ?_, known_relayInstances, known_leaf rfl ?_, known_leaf rfl ?_⟩ <;>
    simp [childPath, configFields]

theorem known_resolverSearching (conf : ResolverSearchingConf) (interval : Option Nat) :
    Known relays (resolverSearchingToml conf interval) "resolver_searching" := by
  refine known_table (List.cons_ne_nil _ _) ?_
  simp only [List.forall_mem_append, List.forall_mem_cons, List.not_mem_nil, false_imp_iff,
    implies_true, and_true]
  refine ⟨⟨⟨known_leaf rfl ?_, known_leaf rfl ?_, known_leaf rfl ?_⟩,
    known_optionalField fun _ => known_leaf rfl ?_⟩, known_leaf (leafPaths_strings ..) ?_⟩ <;>
    simp [childPath, configFields]

theorem known_recordHistoryConf (conf : RecordHistoryConf) :
    Known relays (recordHistoryConfToml conf) "record_history_conf" := by
  refine known_table (List.cons_ne_nil _ _) ?_
  simp only [List.forall_mem_cons, List.not_mem_nil, false_imp_iff, implies_true, and_true]
  refine ⟨known_leaf rfl ?_, known_leaf (leafPaths_strings ..) ?_⟩ <;>
    simp [childPath, configFields]

theorem known_hotreloadConf (conf : HotreloadConf) :
    Known relays (hotreloadConfToml conf) "hotreload_conf" := by
  refine known_table (List.cons_ne_nil _ _) ?_
  simp only [List.forall_mem_cons, List.not_mem_nil, false_imp_iff, implies_true, and_true]
  refine ⟨known_leaf rfl ?_, known_leaf rfl ?_⟩ <;> simp [childPath, configFields]

theorem known_metricConf (conf : MetricConf) :
    Known relays (metricConfToml conf) "metric_conf" := by
  refine known_table (List.cons_ne_nil _ _) ?_
  simp only [List.forall_mem_cons, List.not_mem_nil, false_imp_iff, implies_true, and_true]
  refine ⟨known_leaf rfl ?_, known_leaf rfl ?_, known_leaf rfl ?_⟩ <;>
    simp [childPath, configFields]

theorem known_obfsConf (conf : ObfsConf) : Known relays (obfsConfToml conf) "obfs_conf" := by
  refine known_table (List.cons_ne_nil _ _) ?_
  simp only [List.forall_mem_cons, List.not_mem_nil, false_imp_iff, implies_true, and_true]
  refine ⟨known_leaf rfl ?_, known_leaf rfl ?_, known_leaf (leafPaths_strings ..) ?_⟩ <;>
    simp [childPath, configFields]

theorem known_firstFields (draft : Draft) :
    ∀ entry ∈ draft.firstFields, Known relays entry.2 (childPath "" entry.1) := by
  simp only [Draft.firstFields, List.forall_mem_cons, List.not_mem_nil, false_imp_iff,
    implies_true, and_true]
  refine ⟨known_leaf rfl ?_, known_leaf (leafPaths_strings ..) ?_, known_hotreloadConf _,
    known_leaf rfl ?_, known_metricConf _, known_obfsConf _, known_leaf rfl ?_⟩ <;>
    simp [childPath, configFields]

theorem known_lastFields (draft : Draft) :
    ∀ entry ∈ draft.lastFields,
      Known draft.relayConf.relayInstances entry.2 (childPath "" entry.1) := by
  simp only [Draft.lastFields, List.forall_mem_cons, List.not_mem_nil, false_imp_iff,
    implies_true, and_true]
  refine ⟨known_leaf (leafPaths_strings ..) ?_, known_relayConf _, known_resolverSearching _ _,
    known_leaf (leafPaths_strings ..) ?_, known_leaf rfl ?_, known_leaf rfl ?_⟩ <;>
    simp [childPath, configFields]

end Known

/-- The leaves of a draft are known, but for an empty list of relays. -/
theorem known_toToml (draft : Draft) : Known draft.relayConf.relayInstances draft.toToml "" := by
  refine known_table (fun hnil => ?_) ?_
  · have hlast := (List.append_eq_nil_iff.mp hnil).2
    cases hlast
  · simp only [List.forall_mem_append]
    refine ⟨⟨⟨known_optionalField fun _ => known_leaf rfl ?_, known_firstFields draft⟩,
      known_optionalField known_recordHistoryConf⟩, known_lastFields draft⟩
    simp [childPath, configFields]

theorem relayListPath_mem {draft : Draft} (h : draft.relayConf.relayInstances = []) :
    relayListPath ∈ collectTomlLeafPaths draft.toToml "" := by
  rw [Draft.toToml, collectTomlLeafPaths]
  refine List.mem_append_right _ (mem_fieldLeafPaths.mpr ⟨("relay_conf",
    relayConfToml draft.relayConf), List.mem_append_right _ (.tail _ (.head _)), ?_⟩)
  rw [relayConfToml, collectTomlLeafPaths]
  refine List.mem_append_right _ (mem_fieldLeafPaths.mpr ⟨("relay_instances",
    .array (draft.relayConf.relayInstances.map relayToml)), .tail _ (.head _), ?_⟩)
  rw [h]
  exact List.mem_singleton.mpr rfl

theorem relayListPath_unknown : relayListPath ∉ configFields := by
  simp [relayListPath, configFields]

theorem unknownField_toToml (draft : Draft) :
    unknownField draft.toToml =
      if draft.relayConf.relayInstances = [] then some relayListPath else none := by
  cases hfind : unknownField draft.toToml with
  | none =>
      refine (if_neg fun hnone => ?_).symm
      have hall := List.find?_eq_none.mp hfind _ (relayListPath_mem hnone)
      simp only [Bool.not_eq_true', Bool.not_eq_false, List.contains_iff_mem] at hall
      exact relayListPath_unknown hall
  | some field =>
      have hunknown := List.find?_some hfind
      simp only [Bool.not_eq_true', ← Bool.not_eq_true, List.contains_iff_mem] at hunknown
      cases known_toToml draft field (List.mem_of_find?_eq_some hfind) with
      | inl hknown => exact absurd hknown hunknown
      | inr hrelays => rw [if_pos hrelays.1, hrelays.2]

/-! ## Export and import -/

/-- There is a relay, and the subnet is public if there is one. -/
def Importable (draft : Draft) : Prop :=
  draft.relayConf.relayInstances ≠ [] ∧
    ∀ subnet, draft.clientSubnet = some subnet → publicSubnet subnet = true

section Commands

variable {hostFromUrl : Str → Option Str} {Text : Type} {T : TomlCrate Text} {draft : Draft}

theorem exportConfig_ok (configForAdmin : Draft → Except CommandError Text)
    (hvalid : requireValidDraft hostFromUrl draft = .ok ())
    (hsecrets : requireSecretReferences draft = .ok ()) :
    ∃ text, exportConfig hostFromUrl T configForAdmin draft false = .ok text ∧
      T.fromStr text = .ok draft.toToml := by
  obtain ⟨text, hwrite, hread⟩ := T.round_trip draft
  refine ⟨text, ?_, hread⟩
  rw [exportConfig, hvalid, hsecrets, hwrite]
  rfl

theorem rejectUnknownConfigFields_toToml {text : Text}
    (hread : T.fromStr text = .ok draft.toToml) :
    rejectUnknownConfigFields T text =
      if draft.relayConf.relayInstances = [] then .error (unknownFieldError relayListPath)
      else .ok () := by
  rw [rejectUnknownConfigFields, parseToml, hread]
  show checkKnownFields draft.toToml = _
  rw [checkKnownFields, unknownField_toToml]
  by_cases hnone : draft.relayConf.relayInstances = []
  · rw [if_pos hnone, if_pos hnone]
  · rw [if_neg hnone, if_neg hnone]

theorem parseConfig_of_no_relay {text : Text} (hread : T.fromStr text = .ok draft.toToml)
    (hnone : draft.relayConf.relayInstances = []) :
    parseConfig hostFromUrl T text = .error (unknownFieldError relayListPath) := by
  rw [parseConfig, rejectUnknownConfigFields_toToml hread, if_pos hnone]
  rfl

/-- With one, the draft is read and checked. -/
theorem parseConfig_of_relay {text : Text} (hread : T.fromStr text = .ok draft.toToml)
    (hne : draft.relayConf.relayInstances ≠ []) :
    parseConfig hostFromUrl T text =
      match Draft.fromToml draft.toToml with
      | none => .error (.new "invalid_config".toList (T.describe draft.toToml))
      | some draft => do
          requireValidDraft hostFromUrl draft
          requireSecretReferences draft
          return draft := by
  rw [parseConfig, rejectUnknownConfigFields_toToml hread, if_neg hne, parseToml, hread]
  rfl

/-- What an import makes of the document of a valid draft. -/
theorem parseConfig_toToml {text : Text} (hread : T.fromStr text = .ok draft.toToml)
    (hvalid : requireValidDraft hostFromUrl draft = .ok ())
    (hsecrets : requireSecretReferences draft = .ok ()) :
    parseConfig hostFromUrl T text = .ok draft ↔ Importable draft := by
  have hfrom := fromToml_toToml fun rule hrule => colon_not_mem_redirect hvalid hrule
  rw [Importable, ← Option.all_eq_true]
  by_cases hnone : draft.relayConf.relayInstances = []
  · rw [parseConfig_of_no_relay hread hnone]
    refine iff_of_false (fun h => ?_) fun h => h.1 hnone
    cases h
  · rw [parseConfig_of_relay hread hnone, hfrom]
    cases draft.clientSubnet.all publicSubnet with
    | false =>
        refine iff_of_false (fun h => ?_) fun h => ?_
        · cases h
        · cases h.2
    | true =>
        refine iff_of_true ?_ ⟨hnone, rfl⟩
        rw [if_pos rfl]
        simp only [hvalid, hsecrets]
        rfl

end Commands

/-- A draft that is accepted survives an export and an import exactly when it is
importable. -/
theorem export_then_import_iff (hostFromUrl : Str → Option Str) {Text : Type} (T : TomlCrate Text)
    (configForAdmin : Draft → Except CommandError Text) (draft : Draft)
    (hvalid : requireValidDraft hostFromUrl draft = .ok ())
    (hsecrets : requireSecretReferences draft = .ok ()) :
    (∃ text, exportConfig hostFromUrl T configForAdmin draft false = .ok text ∧
      parseConfig hostFromUrl T text = .ok draft) ↔ Importable draft := by
  obtain ⟨text, hexport, hread⟩ := exportConfig_ok configForAdmin hvalid hsecrets
  have hparse := parseConfig_toToml hread hvalid hsecrets
  refine ⟨fun h => ?_, fun himport => ⟨text, hexport, hparse.mpr himport⟩⟩
  obtain ⟨text', hexport', hparse'⟩ := h
  cases hexport.symm.trans hexport'
  exact hparse.mp hparse'

def relayDraft : Draft :=
  { starterDraft with
    redirectList := [("router.example".toList, "10.0.0.1".toList)]
    clientSubnet := some ⟨1, 1, 1⟩
    relayConf := ⟨true, false, 5,
      [⟨"vault://relay.primary".toList, "https://relay.example".toList, .direct⟩]⟩ }

theorem export_then_import_relayDraft :
    requireValidDraft anyHost relayDraft = .ok () ∧ requireSecretReferences relayDraft = .ok () ∧
      ∃ text, exportConfig anyHost .plain (fun _ => .ok relayDraft.toToml) relayDraft false =
          .ok text ∧ parseConfig anyHost .plain text = .ok relayDraft := by
  have hvalid : requireValidDraft anyHost relayDraft = .ok () :=
    requireValidDraft_ok.mpr (by decide +kernel)
  have hsecrets : requireSecretReferences relayDraft = .ok () := by decide +kernel
  refine ⟨hvalid, hsecrets, (export_then_import_iff anyHost .plain _ relayDraft hvalid
    hsecrets).mpr ⟨by decide, fun subnet hsubnet => ?_⟩⟩
  cases hsubnet
  decide

/-- The draft that the application starts with is exported and then refused. -/
theorem starter_draft_is_refused :
    requireValidDraft anyHost starterDraft = .ok () ∧
      requireSecretReferences starterDraft = .ok () ∧
      exportConfig anyHost .plain (fun _ => .ok starterDraft.toToml) starterDraft false =
        .ok starterDraft.toToml ∧
      parseConfig anyHost .plain starterDraft.toToml =
        .error (unknownFieldError "relay_conf.relay_instances[]") := by
  have hvalid : requireValidDraft anyHost starterDraft = .ok () :=
    requireValidDraft_ok.mpr (by decide +kernel)
  have hsecrets : requireSecretReferences starterDraft = .ok () := by decide +kernel
  refine ⟨hvalid, hsecrets, ?_, parseConfig_of_no_relay rfl rfl⟩
  rw [exportConfig, hvalid, hsecrets]
  rfl

end DnsRelay.Gui
