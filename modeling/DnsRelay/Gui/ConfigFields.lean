import DnsRelay.Lib.Result
import DnsRelay.Lib.TomlPath
import DnsRelay.Gui.ConfigFile

/-!
# Fields that an import ignores

The deserializer of `Conf` ignores keys that it does not know.  So
`parse_config` first writes the path of every leaf as a text and refuses the
document if the text is not in the registry.  Every text of the registry is the
text of a field, but other paths have the same text: a key may have a dot or
brackets, and an empty key is left out at the start of a path.  Leaves at such
paths pass the check and are ignored.

`Collected` is the way of `collect_toml_leaf_paths` through a document.  It
stops at arrays that do not start with a table, and does not look at their other
items.  The registry has such arrays only where `Conf` has a list of texts, so
the deserializer refuses what was not looked at.
-/

namespace DnsRelay.Gui

open Lib Toml

/-! ## The fields of `Conf` -/

def inside (name : String) (fields : List (List Step)) : List (List Step) :=
  fields.map (.key name :: ·)

def plainField (name : String) : List (List Step) := [[.key name]]

def listField (name : String) : List (List Step) := [[.key name, .item]]

/-- `ResolverSearchingConf`. -/
def resolverSearchingFields : List (List Step) :=
  plainField "enable" ++ listField "resolver_source" ++ plainField "resfresh_interval" ++
    plainField "ipv4" ++ plainField "doh"

/-- `HotreloadConf`. -/
def hotreloadConfFields : List (List Step) := plainField "enable" ++ plainField "poll_interval_ms"

/-- `Relay`. -/
def relayFields : List (List Step) :=
  plainField "relay_key" ++ plainField "relay_url" ++ plainField "transport"

/-- `RelayConf`. -/
def relayConfFields : List (List Step) :=
  plainField "enable" ++ plainField "resolve_manual" ++ plainField "relay_timeout_sec" ++
    inside "relay_instances" (relayFields.map (.item :: ·))

/-- `MetricConf`. -/
def metricConfFields : List (List Step) :=
  plainField "enable" ++ plainField "report_type" ++ plainField "report_interval"

/-- `RecordHisotryConf`. -/
def recordHistoryConfFields : List (List Step) := listField "matched_list" ++ plainField "lines"

/-- `ObfsConf`. -/
def obfsConfFields : List (List Step) :=
  plainField "enable" ++ plainField "bind_addr" ++ listField "keys"

/-- `Conf`. -/
def confFields : List (List Step) :=
  plainField "dns_target" ++ listField "drop_list" ++ listField "redirect_list" ++
    listField "resolvers" ++ plainField "secure_only" ++ plainField "client_subnet" ++
    inside "resolver_searching" resolverSearchingFields ++
    inside "hotreload_conf" hotreloadConfFields ++ inside "relay_conf" relayConfFields ++
    inside "metric_conf" metricConfFields ++ plainField "vpn_reassertion" ++
    plainField "init_tls" ++ plainField "record_history" ++
    inside "record_history_conf" recordHistoryConfFields ++ inside "obfs_conf" obfsConfFields

/-- The keys lead to a field of `Conf`. -/
def IsConfField (path : List String) : Prop := path ∈ confFields.map keys

instance (path : List String) : Decidable (IsConfField path) :=
  inferInstanceAs (Decidable (path ∈ confFields.map keys))

theorem plain_confFields : ∀ steps ∈ confFields, ∀ name ∈ keys steps, PlainKey name := by
  decide +kernel

/-- The registry has the texts of fields only. -/
theorem registry_spells_fields : ∀ field ∈ configFields, '.' :: field.toList ∈
    confFields.map spell := by
  decide +kernel

/-- Plain keys whose text is in the registry lead to a field. -/
theorem mem_confFields {steps : List Step} (hplain : ∀ name ∈ keys steps, PlainKey name)
    {field : String} (hfield : field ∈ configFields) (htext : '.' :: field.toList = spell steps) :
    steps ∈ confFields := by
  obtain ⟨steps', hmem, heq⟩ := List.mem_map.mp (registry_spells_fields field hfield)
  rw [spell_injective hplain (plain_confFields steps' hmem) (htext.symm.trans heq.symm)]
  exact hmem

/-! ## Collected paths -/

/-- The way of `collect_toml_leaf_paths` to a value that it takes for a leaf. -/
inductive Collected : Toml → List Step → Toml → Prop where
  | scalar {value : Toml} (isScalar : value.isScalar = true) : Collected value [] value
  | emptyTable : Collected (.table []) [] (.table [])
  | field {fields : List (String × Toml)} {key : String} {value leaf : Toml} {steps : List Step}
      (mem : (key, value) ∈ fields) (below : Collected value steps leaf) :
      Collected (.table fields) (.key key :: steps) leaf
  | item {items : List Toml} {value leaf : Toml} {steps : List Step}
      (first : items.head?.any Toml.isTable = true) (mem : value ∈ items)
      (below : Collected value steps leaf) : Collected (.array items) (.item :: steps) leaf
  | list {items : List Toml} (first : items.head?.any Toml.isTable = false) :
      Collected (.array items) [.item] (.array items)

section Paths

variable {value leaf : Toml} {steps : List Step} {path rest : List String}

theorem collectTomlLeafPaths_scalar (h : value.isScalar = true) (prior : String) :
    collectTomlLeafPaths value prior = [prior] := by
  cases value with
  | array => cases h
  | table => cases h
  | _ => rfl

/-- The text of the way is collected. -/
theorem Collected.text (h : Collected value steps leaf) {prior : String} (hprior : prior ≠ "") :
    ∃ text ∈ collectTomlLeafPaths value prior, text.toList = prior.toList ++ spell steps := by
  induction h generalizing prior with
  | scalar hscalar =>
      rw [collectTomlLeafPaths_scalar hscalar]
      exact ⟨prior, List.mem_cons_self, (List.append_nil _).symm⟩
  | emptyTable =>
      refine ⟨prior, ?_, (List.append_nil _).symm⟩
      simp [collectTomlLeafPaths, hprior]
  | @field fields key value leaf steps hmem _ ih =>
      have hchild : childPath prior key = prior ++ "." ++ key := if_neg hprior
      have hlist : (prior ++ "." ++ key).toList = prior.toList ++ '.' :: key.toList := by
        simp [String.toList_append]
      have hne : childPath prior key ≠ "" := by
        intro heq
        rw [← hchild, heq] at hlist
        simp at hlist
      obtain ⟨text, htext, heq⟩ := ih hne
      refine ⟨text, ?_, ?_⟩
      · rw [collectTomlLeafPaths]
        exact List.mem_append_right _ (mem_fieldLeafPaths.mpr ⟨_, hmem, htext⟩)
      · rw [heq, hchild, hlist, List.append_assoc]
        rfl
  | @item items value leaf steps hfirst hmem _ ih =>
      have hlist : (prior ++ "[]").toList = prior.toList ++ ['[', ']'] := by
        simp [String.toList_append]
      have hne : prior ++ "[]" ≠ "" := by
        intro heq
        rw [heq] at hlist
        simp at hlist
      obtain ⟨text, htext, heq⟩ := ih hne
      refine ⟨text, ?_, ?_⟩
      · rw [collectTomlLeafPaths, if_pos hfirst]
        exact mem_itemLeafPaths.mpr ⟨_, hmem, htext⟩
      · rw [heq, hlist, List.append_assoc]
        rfl
  | @list items hfirst =>
      refine ⟨prior ++ "[]", ?_, ?_⟩
      · rw [collectTomlLeafPaths, if_neg (by simp [hfirst])]
        exact List.mem_cons_self
      · simp [String.toList_append, spell, Step.text]

/-- Every leaf is at or below a value that is taken for one. -/
theorem exists_collected (h : LeafAt value path) :
    ∃ steps leaf rest, Collected value steps leaf ∧ path = keys steps ++ rest ∧
      LeafAt leaf rest := by
  induction h with
  | scalar hscalar => exact ⟨[], _, [], .scalar hscalar, rfl, .scalar hscalar⟩
  | emptyTable => exact ⟨[], _, [], .emptyTable, rfl, .emptyTable⟩
  | emptyArray => exact ⟨[.item], _, [], .list rfl, rfl, .emptyArray⟩
  | field hmem _ ih =>
      obtain ⟨steps, leaf, rest, hcollected, rfl, hleaf⟩ := ih
      exact ⟨_, leaf, rest, .field hmem hcollected, rfl, hleaf⟩
  | @item items value path hmem hbelow ih =>
      cases hfirst : items.head?.any Toml.isTable with
      | true =>
          obtain ⟨steps, leaf, rest, hcollected, rfl, hleaf⟩ := ih
          exact ⟨_, leaf, rest, .item hfirst hmem hcollected, rfl, hleaf⟩
      | false => exact ⟨[.item], _, path, .list hfirst, rfl, .item hmem hbelow⟩

/-- Nothing is below such a value, unless it is an array. -/
theorem Collected.rest_of_leaf (h : Collected value steps leaf) (hleaf : LeafAt leaf rest) :
    rest = [] ∨ steps.getLast? = some .item ∧ ∃ items, leaf = .array items := by
  induction h with
  | scalar hscalar => exact .inl (hleaf.of_isScalar hscalar)
  | emptyTable =>
      cases hleaf with
      | scalar => exact .inl rfl
      | emptyTable => exact .inl rfl
      | field hmem => cases hmem
  | field _ _ ih =>
      refine (ih hleaf).imp_right fun ⟨hlast, hitems⟩ => ⟨?_, hitems⟩
      rw [List.getLast?_cons, hlast]
      rfl
  | item _ _ _ ih =>
      refine (ih hleaf).imp_right fun ⟨hlast, hitems⟩ => ⟨?_, hitems⟩
      rw [List.getLast?_cons, hlast]
      rfl
  | list => exact .inr ⟨rfl, _, rfl⟩

end Paths

/-! ## Lists -/

/-- A field that has no items with parts, if it is an array. -/
def ListAt (value : Toml) (name : String) : Prop :=
  ∀ items, value.get name = some (.array items) → ∀ item ∈ items, item.isScalar = true

section Lists

variable {α : Type} {value : Toml} {name : String} {read : Toml → Option α} {values : List α}

theorem listAt_of_field (hread : ∀ item a, read item = some a → item.isScalar = true)
    (h : value.field name (asList read) = some values) : ListAt value name := by
  intro items hget item hitem
  rw [Toml.field, hget] at h
  obtain ⟨a, ha⟩ := read_of_asList h item hitem
  exact hread item a ha

theorem listAt_of_fieldOr (hread : ∀ item a, read item = some a → item.isScalar = true)
    {default : List α} (h : value.fieldOr name (asList read) default = some values) :
    ListAt value name := by
  intro items hget item hitem
  rw [Toml.fieldOr, hget] at h
  obtain ⟨a, ha⟩ := read_of_asList h item hitem
  exact hread item a ha

/-- A field inside of a field that was read. -/
theorem inside_of_fieldOr {default a : α} (h : value.fieldOr name read default = some a)
    {part : Toml} (hget : value.get name = some part) : ∃ a, read part = some a := by
  rw [Toml.fieldOr, hget] at h
  exact ⟨a, h⟩

end Lists

theorem listAt_keys {value : Toml} {conf : ObfsConf} (h : readObfsConf value = some conf) :
    ListAt value "keys" := by
  simp only [readObfsConf, Option.bind_eq_bind, Option.bind_eq_some_iff] at h
  obtain ⟨table, htable, -, -, -, -, keys, hkeys, -⟩ := h
  rw [readTable] at htable
  split at htable
  · cases htable
    exact listAt_of_fieldOr (fun _ _ => isScalar_of_asStr) hkeys
  · cases htable

theorem listAt_matched_list {value : Toml} {conf : RecordHistoryConf}
    (h : readRecordHistoryConf value = some conf) : ListAt value "matched_list" := by
  simp only [readRecordHistoryConf, Option.bind_eq_bind, Option.bind_eq_some_iff] at h
  obtain ⟨matchedList, hlist, -⟩ := h
  exact listAt_of_field (fun _ _ => isScalar_of_asStr) hlist

theorem listAt_resolver_source {value : Toml} {conf : ResolverSearchingConf × Option Nat}
    (h : readResolverSearching value = some conf) : ListAt value "resolver_source" := by
  simp only [readResolverSearching, Option.bind_eq_bind, Option.bind_eq_some_iff] at h
  obtain ⟨-, -, resolverSource, hlist, -⟩ := h
  exact listAt_of_field (fun _ _ => isScalar_of_asStr) hlist

/-- The lists of `Conf`. -/
def listNames : List String := ["drop_list", "redirect_list", "resolvers"]

def nestedListNames : List (String × String) :=
  [("resolver_searching", "resolver_source"), ("record_history_conf", "matched_list"),
    ("obfs_conf", "keys")]

/-- The lists of a document that was read are lists of texts. -/
structure ListsRead (document : Toml) : Prop where
  /-- The lists of `Conf`. -/
  direct : ∀ name ∈ listNames, ListAt document name
  nested : ∀ names ∈ nestedListNames, ∀ part, document.get names.1 = some part →
    ListAt part names.2

theorem listsRead {document : Toml} {draft : Draft} (h : Draft.fromToml document = some draft) :
    ListsRead document := by
  obtain ⟨dnsTarget, -, h⟩ := Option.bind_eq_some_iff.mp h
  obtain ⟨dropList, hdrop, h⟩ := Option.bind_eq_some_iff.mp h
  obtain ⟨redirectList, hredirect, h⟩ := Option.bind_eq_some_iff.mp h
  obtain ⟨resolvers, hresolvers, h⟩ := Option.bind_eq_some_iff.mp h
  obtain ⟨secureOnly, -, h⟩ := Option.bind_eq_some_iff.mp h
  obtain ⟨clientSubnet, -, h⟩ := Option.bind_eq_some_iff.mp h
  obtain ⟨⟨searching, interval⟩, hsearching, h⟩ := Option.bind_eq_some_iff.mp h
  obtain ⟨hotreloadConf, -, h⟩ := Option.bind_eq_some_iff.mp h
  obtain ⟨relayConf, -, h⟩ := Option.bind_eq_some_iff.mp h
  obtain ⟨metricConf, -, h⟩ := Option.bind_eq_some_iff.mp h
  obtain ⟨vpnReassertion, -, h⟩ := Option.bind_eq_some_iff.mp h
  obtain ⟨initTls, -, h⟩ := Option.bind_eq_some_iff.mp h
  obtain ⟨recordHistory, -, h⟩ := Option.bind_eq_some_iff.mp h
  obtain ⟨historyConf, hhistory, h⟩ := Option.bind_eq_some_iff.mp h
  obtain ⟨obfsConf, hobfs, -⟩ := Option.bind_eq_some_iff.mp h
  have hpair : ∀ item rule, readRedirect item = some rule → item.isScalar = true := by
    intro item rule hrule
    obtain ⟨text, htext, -⟩ := Option.bind_eq_some_iff.mp hrule
    exact isScalar_of_asStr htext
  refine ⟨List.forall_mem_cons.mpr ⟨?_, List.forall_mem_cons.mpr ⟨?_, List.forall_mem_singleton.mpr
    ?_⟩⟩, List.forall_mem_cons.mpr ⟨?_, List.forall_mem_cons.mpr ⟨?_,
    List.forall_mem_singleton.mpr ?_⟩⟩⟩
  · exact listAt_of_field (fun _ _ => isScalar_of_asStr) hdrop
  · exact listAt_of_field hpair hredirect
  · exact listAt_of_field (fun _ _ => isScalar_of_asStr) hresolvers
  · intro part hget
    obtain ⟨conf, hconf⟩ := inside_of_fieldOr hsearching hget
    exact listAt_resolver_source hconf
  · intro part hget
    obtain ⟨conf, hconf⟩ := inside_of_fieldOr hhistory hget
    obtain ⟨conf', hconf', -⟩ := Option.map_eq_some_iff.mp hconf
    exact listAt_matched_list hconf'
  · intro part hget
    obtain ⟨conf, hconf⟩ := inside_of_fieldOr hobfs hget
    exact listAt_keys hconf

/-! ## Documents that are accepted -/

section Import

variable {hostFromUrl : Str → Option Str} {Text : Type} {T : TomlCrate Text} {configToml : Text}
  {document : Toml} {draft : Draft}

/-- A document that is accepted has known texts only, and is read. -/
theorem parseConfig_ok (hread : T.fromStr configToml = .ok document)
    (h : parseConfig hostFromUrl T configToml = .ok draft) :
    (∀ text ∈ collectTomlLeafPaths document "", text ∈ configFields) ∧
      Draft.fromToml document = some draft := by
  have hparse : parseToml T configToml = .ok document := by
    rw [parseToml, hread]
    rfl
  obtain ⟨_, hreject, h⟩ := bind_eq_ok.mp h
  rw [rejectUnknownConfigFields, hparse] at hreject
  replace hreject : checkKnownFields document = .ok () := hreject
  constructor
  · intro text htext
    rw [checkKnownFields] at hreject
    split at hreject
    · cases hreject
    · next hnone =>
        have hknown := List.find?_eq_none.mp hnone text htext
        simpa using hknown
  · obtain ⟨value, hvalue, h⟩ := bind_eq_ok.mp h
    cases hparse.symm.trans hvalue
    split at h
    · cases h
    · next draft' hdraft =>
        obtain ⟨_, -, h⟩ := bind_eq_ok.mp h
        obtain ⟨_, -, h⟩ := bind_eq_ok.mp h
        cases h
        exact hdraft

theorem Collected.of_key {value leaf : Toml} {name : String} {steps : List Step}
    (h : Collected value (.key name :: steps) leaf) (hdistinct : value.distinct = true) :
    ∃ part, value.get name = some part ∧ part.distinct = true ∧ Collected part steps leaf := by
  cases h with
  | field hmem hbelow =>
      exact ⟨_, get_of_distinct hdistinct hmem, distinct_of_mem hdistinct hmem, hbelow⟩

theorem Collected.of_item {value : Toml} {items : List Toml}
    (h : Collected value [.item] (.array items)) : value = .array items := by
  cases h with
  | item _ _ hbelow =>
      cases hbelow with
      | scalar hscalar => cases hscalar
  | list => rfl

theorem list_confFields : ∀ steps ∈ confFields, steps.getLast? = some .item →
    (∃ name ∈ listNames, steps = [.key name, .item]) ∨
      ∃ names ∈ nestedListNames, steps = [.key names.1, .key names.2, .item] := by
  decide +kernel

/-- The items of a list field have no parts. -/
theorem ListsRead.items (h : ListsRead document) (hdistinct : document.distinct = true)
    {steps : List Step} {items : List Toml} (hcollected : Collected document steps (.array items))
    (hfield : steps ∈ confFields) (hlast : steps.getLast? = some .item) :
    ∀ item ∈ items, item.isScalar = true := by
  rcases list_confFields steps hfield hlast with ⟨name, hname, rfl⟩ | ⟨names, hnames, rfl⟩
  · obtain ⟨part, hget, -, hpart⟩ := hcollected.of_key hdistinct
    rw [hpart.of_item] at hget
    exact h.direct name hname items hget
  · obtain ⟨part, hget, hdistinct', hpart⟩ := hcollected.of_key hdistinct
    obtain ⟨part', hget', -, hpart'⟩ := hpart.of_key hdistinct'
    rw [hpart'.of_item] at hget'
    exact h.nested names hnames part hget items hget'

/-- A document that was read is a table with a drop list. -/
theorem exists_dropList (h : Draft.fromToml document = some draft) :
    ∃ fields value, document = .table fields ∧ ("drop_list", value) ∈ fields := by
  obtain ⟨dnsTarget, -, h⟩ := Option.bind_eq_some_iff.mp h
  obtain ⟨dropList, hdrop, -⟩ := Option.bind_eq_some_iff.mp h
  obtain ⟨value, hget, -⟩ := Option.bind_eq_some_iff.mp hdrop
  cases document with
  | table fields =>
      obtain ⟨before, after, rfl, -⟩ := List.lookup_eq_some_iff.mp hget
      exact ⟨_, value, rfl, List.mem_append_right _ List.mem_cons_self⟩
  | _ => cases hget

/-- The field of a leaf, if the keys on the way are plain. -/
theorem isConfField_of_plain {path : List String}
    (hknown : ∀ text ∈ collectTomlLeafPaths document "", text ∈ configFields)
    (hdraft : Draft.fromToml document = some draft) (hdistinct : document.distinct = true)
    (hleaf : LeafAt document path) (hplain : ∀ name ∈ path, PlainKey name) :
    IsConfField path := by
  obtain ⟨steps, leaf, rest, hcollected, rfl, hrest⟩ := exists_collected hleaf
  have hsteps := fun name hname => hplain name (List.mem_append_left rest hname)
  obtain ⟨fields, dropList, rfl, hdrop⟩ := exists_dropList hdraft
  have hfield : steps ∈ confFields := by
    cases hcollected with
    | scalar hscalar => cases hscalar
    | emptyTable => cases hdrop
    | @field _ name value leaf steps hmem hbelow =>
        obtain ⟨text, htext, heq⟩ := hbelow.text (hsteps name List.mem_cons_self).1
        have hcollect : text ∈ collectTomlLeafPaths (.table fields) "" := by
          rw [collectTomlLeafPaths]
          exact List.mem_append_right _ (mem_fieldLeafPaths.mpr ⟨_, hmem, htext⟩)
        exact mem_confFields hsteps (hknown text hcollect) (congrArg ('.' :: ·) heq)
  rcases hcollected.rest_of_leaf hrest with rfl | ⟨hlast, items, rfl⟩
  · rw [List.append_nil]
    exact List.mem_map_of_mem hfield
  · have hitems := (listsRead hdraft).items hdistinct hcollected hfield hlast
    rw [hrest.of_items hitems, List.append_nil]
    exact List.mem_map_of_mem hfield

/-- An accepted document has no leaf that is ignored exactly if no key on the
way to a leaf is empty or has a dot or a bracket. -/
theorem import_keeps_every_leaf_iff (hread : T.fromStr configToml = .ok document)
    (hdistinct : document.distinct = true)
    (haccepted : parseConfig hostFromUrl T configToml = .ok draft) :
    (∀ path ∈ document.leafPaths, IsConfField path) ↔
      ∀ path ∈ document.leafPaths, ∀ name ∈ path, PlainKey name := by
  obtain ⟨hknown, hdraft⟩ := parseConfig_ok hread haccepted
  constructor
  · intro h path hleaf name hname
    obtain ⟨steps, hsteps, rfl⟩ := List.mem_map.mp (h path hleaf)
    exact plain_confFields steps hsteps name hname
  · intro h path hleaf
    exact isConfField_of_plain hknown hdraft hdistinct (leafAt_of_mem document hleaf)
      (h path hleaf)

end Import

/-- A document that can be imported, with further fields in front. -/
def importedDocument (fields : List (String × Toml)) : Toml :=
  .table (fields ++ [("drop_list", .strings []),
    ("metric_conf", .table [("enable", .boolean false), ("report_type", .string "log".toList)]),
    ("obfs_conf", .table [("enable", .boolean false)]),
    ("redirect_list", .strings []),
    ("relay_conf", relayConfToml ⟨false, false, 5,
      [⟨"vault://relay.primary".toList, "https://relay.example".toList, .direct⟩]⟩),
    ("resolvers", .strings ["https://1.1.1.1/dns-query".toList])])

theorem parseConfig_importedDocument {fields : List (String × Toml)}
    (h : (parseConfig anyHost .plain (importedDocument fields)).isOk = true) :
    ∃ draft, parseConfig anyHost .plain (importedDocument fields) = .ok draft := by
  cases hparse : parseConfig anyHost .plain (importedDocument fields) with
  | error error =>
      rw [hparse] at h
      cases h
  | ok draft => exact ⟨draft, rfl⟩

theorem import_keeps_every_leaf_history :
    (parseConfig anyHost .plain
        (importedDocument [("record_history", .boolean true)])).isOk = true ∧
      ∀ path ∈ (importedDocument [("record_history", .boolean true)]).leafPaths,
        IsConfField path := by
  have hok : (parseConfig anyHost .plain
      (importedDocument [("record_history", .boolean true)])).isOk = true := by
    decide +kernel
  obtain ⟨draft, hdraft⟩ := parseConfig_importedDocument hok
  exact ⟨hok, (import_keeps_every_leaf_iff rfl (by decide) hdraft).mpr (by decide)⟩

/-- The user writes a dotted key in quotes.  The document is accepted, and the
leaf is ignored. -/
theorem quoted_key_is_ignored :
    (parseConfig anyHost .plain
        (importedDocument [("metric_conf.report_interval", .integer 60)])).map
          (fun draft => draft.metricConf.reportInterval) = .ok 30 ∧
      (importedDocument [("metric_conf.report_interval", .integer 60)]).distinct = true ∧
      ["metric_conf.report_interval"] ∈
        (importedDocument [("metric_conf.report_interval", .integer 60)]).leafPaths ∧
      ¬IsConfField ["metric_conf.report_interval"] := by
  decide +kernel

end DnsRelay.Gui
