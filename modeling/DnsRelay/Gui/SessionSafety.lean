import DnsRelay.Gui.SessionMoves
import DnsRelay.Relay.ReloadSafety

/-!
# What a session keeps

Three things hold along every run.

The draft of the application has references to keys and never a key
(`draft_never_holds_keys`).  This needs no assumption about the helper.

For the other two, the application has to learn what its requests have done.
Then the draft stands for the installed configuration: with the keys from the
vault it is that configuration (`draft_stands_for_config`).  So the application
may compare drafts to see whether a restart is needed, and a running service has
all of the installed configuration, or all but the rules, which its watcher reads
next (`running_service_current`).

`Kept` is the invariant of the draft and the configuration, and `UpToDate` is the
one of the service.  The keys are looked up in the record of all keys that were
ever in the vault, since a key that was deleted may be in use.
-/

namespace DnsRelay.Gui

open Lib

/-! ## No key in the application -/

section NoKeys

variable {Text : Type} {s s' : Session Text}

theorem draftForInstallFiles_draft {installationPresent installationComplete configPresent : Bool}
    {draft : Draft} (hpresent : configPresent = true → installationPresent = true)
    (h : (draftForInstallFiles installationPresent installationComplete configPresent).1 =
      some draft) : draft = starterDraft ∧ configPresent = false := by
  rw [draftForInstallFiles] at h
  cases configPresent with
  | true =>
      rw [hpresent rfl] at h
      cases installationComplete with
      | true => cases h
      | false => cases h
  | false =>
      refine ⟨?_, rfl⟩
      cases installationPresent with
      | false =>
          cases h
          rfl
      | true =>
          cases installationComplete with
          | true => cases h
          | false =>
              cases h
              rfl

/-- The application starts with a draft only if no configuration is there. -/
theorem relaunch_draft {platform : Admin.Platform} {files : InstallFiles} {draft : Draft}
    (h : (relaunch platform files s).draft = some draft) :
    draft = starterDraft ∧ s.config = none := by
  have hpresent : s.config.isSome = true → (files.resolver || files.admin || s.config.isSome ||
      files.service || decide (platform = .linux) && files.policy) = true := by
    intro hconfig
    simp [hconfig]
  obtain ⟨hdraft, hconfig⟩ := draftForInstallFiles_draft hpresent h
  exact ⟨hdraft, Option.isSome_eq_false_iff.mp hconfig |> Option.isNone_iff_eq_none.mp⟩

theorem acted_eq (T : TomlCrate Text) (platform : Admin.Platform) (action : ServiceAction)
    (s : Session Text) :
    acted T platform action s = { s with running := (acted T platform action s).running } := by
  cases action <;> rfl

variable [DecidableEq Text] {P : Session.Setup Text} {act : SessionAct Text}

theorem holdsNoKeys_starter : starterDraft.HoldsNoKeys := List.forall_mem_nil _

theorem Move.holdsNoKeys (hmove : Move P s act s')
    (h : ∀ draft, s.draft = some draft → draft.HoldsNoKeys) :
    ∀ draft, s'.draft = some draft → draft.HoldsNoKeys := by
  cases hmove with
  | applied _ _ _ hmade =>
      rintro _ ⟨⟩
      exact holdsNoKeys_of_materialize hmade.keys
  | installed _ _ hmade =>
      rintro _ ⟨⟩
      exact holdsNoKeys_of_materialize hmade.keys
  | adopted _ _ hmigrated =>
      rintro _ ⟨⟩
      exact holdsNoKeys_of_migrate hmigrated
  | relaunched files =>
      intro draft hdraft
      rw [(relaunch_draft hdraft).1]
      exact holdsNoKeys_starter
  | acted _ _ =>
      rw [acted_eq]
      exact h
  | _ => exact h

end NoKeys

/-- The draft of the application has no key, whatever the helper does. -/
theorem draft_never_holds_keys {Text : Type} [DecidableEq Text] (P : Session.Setup Text)
    (config : Option Text) (files : InstallFiles) {s : Session Text}
    (h : (Session.machine P config files).Reach s) {draft : Draft} (hdraft : s.draft = some draft) :
    ∀ key ∈ draft.relayKeys ++ draft.obfsConf.keys, key = [] ∨ IsReference key := by
  have hinv : ∀ draft, s.draft = some draft → draft.HoldsNoKeys := by
    refine Machine.ReachBy.invariant (P := fun s => ∀ draft, s.draft = some draft →
      draft.HoldsNoKeys) ?_ ?_ h
    · intro draft hdraft
      rw [(relaunch_draft hdraft).1]
      exact holdsNoKeys_starter
    · intro s act s' hs _ hstep
      cases hstep
      exact (step_move s act).holdsNoKeys hs
  exact hinv draft hdraft

def sampleSetup : Session.Setup Toml :=
  ⟨anyHost, .plain, .linux, .tagged, taggedKeys, fun _ => []⟩

def sampleFiles : InstallFiles := ⟨true, true, true, true⟩

def sampleFate : Fate Toml := ⟨.ok (), [], .done, .ok ()⟩

def sampleConf : Draft := keyedDraft ["k1".toList] ["k2".toList]

open scoped Classical in
/-- The session after that configuration was adopted. -/
noncomputable def sampleAdopted : Session Toml :=
  (Session.fresh sampleSetup (some sampleConf.toToml) sampleFiles).step sampleSetup
    (.adoptService (countingEnv 2) sampleFate)

theorem sampleAdopted_draft : ∃ draft, sampleAdopted.draft = some draft ∧
    draft.obfsConf.keys = ["vault://adopted.obfs.0".toList] := by
  refine Option.map_eq_some_iff.mp (?_ : Option.map (fun d : Draft => d.obfsConf.keys) _ = _)
  decide +kernel

open scoped Classical in
/-- The keys of an installed configuration are adopted. -/
theorem draft_never_holds_keys_sample :
    ∃ draft, (Session.machine sampleSetup (some sampleConf.toToml) sampleFiles).Reach
        sampleAdopted ∧
      sampleAdopted.draft = some draft ∧
      draft.obfsConf.keys = ["vault://adopted.obfs.0".toList] ∧
      ∀ key ∈ draft.relayKeys ++ draft.obfsConf.keys, key = [] ∨ IsReference key := by
  have hreach : (Session.machine sampleSetup (some sampleConf.toToml) sampleFiles).Reach
      sampleAdopted := Machine.ReachBy.init.step _ trivial rfl
  obtain ⟨draft, hdraft, hkeys⟩ := sampleAdopted_draft
  exact ⟨draft, hreach, hdraft, hkeys, draft_never_holds_keys _ _ _ hreach hdraft⟩

/-! ## The invariant -/

/-- The service has the configuration, but for the rules if it will read them
again. -/
structure Running.Current (running : Running) (conf : Draft) : Prop where
  settings : running.settings = conf.withoutRules
  rules : conf.hotreloadConf.enable = false → running = .start conf

section Invariant

variable {Text : Type} (P : Session.Setup Text)

/-- The installed configuration can be loaded. -/
def Installed (config : Option Text) (conf : Draft) : Prop :=
  config.bind (loadConf P.toml) = some conf

/-- With keys from the vault, the draft is the installed configuration. -/
def StandsFor (vault : Vault) (config : Option Text) (draft : Draft) : Prop :=
  ∃ materialized, materializeForApply draft vault = .ok materialized ∧
    ∀ conf, Installed P config conf → conf = materialized

/-- What every step keeps of the draft and the configuration, if the application
learns what its requests do. -/
structure Kept (s : Session Text) : Prop where
  vault : s.vault.Extends s.minted
  minted : s.minted.IsPlain
  config : ∀ conf, Installed P s.config conf → conf.HasPlainKeys
  starter : s.config = none → ∀ draft, s.draft = some draft → draft = starterDraft
  /-- The draft is the installed configuration, or it has an empty key of the
  listener. -/
  draft : ∀ draft, s.draft = some draft →
    [] ∈ draft.obfsConf.keys ∨ StandsFor P s.minted s.config draft

/-- The application learns what its requests have done, and identifiers are new. -/
structure Honest (s : Session Text) (act : SessionAct Text) : Prop where
  faithful : ∀ fate, act.fate = some fate → fate.Faithful
  stored : ∀ id, act.stores = some id → s.minted id = none
  adopted : ∀ env fate, act = .adoptService env fate → FreshUuids env s.minted

end Invariant

section Kept

variable {Text : Type} {P : Session.Setup Text} {s : Session Text}

theorem StandsFor.mono {vault vault' : Vault} {config : Option Text} {draft : Draft}
    (h : StandsFor P vault config draft) (hext : vault.Extends vault') :
    StandsFor P vault' config draft := by
  obtain ⟨materialized, hkeys, hconf⟩ := h
  exact ⟨materialized, materializeForApply_mono hext hkeys, hconf⟩

/-- The text that is made of a draft holds the draft with its keys. -/
theorem Made.loads {vault : Vault} {draft materialized conf : Draft} {configToml : Text}
    (hmade : Made P.toml vault draft materialized configToml)
    (hcolon : ∀ rule ∈ draft.redirectList, ':' ∉ rule.1)
    (h : Installed P (some configToml) conf) :
    conf = materialized ∧ materialized.clientSubnet.all publicSubnet = true := by
  obtain ⟨document, hdocument, hconf, -⟩ := loadConf_eq_some.mp h
  cases hmade.reads.symm.trans hdocument
  have hredirect : materialized.redirectList = draft.redirectList := by
    obtain ⟨relayKeys, obfsKeys, -, -, rfl⟩ := materializeForApply_eq_ok.mp hmade.keys
    rfl
  rw [fromToml_toToml (hredirect ▸ hcolon)] at hconf
  split at hconf
  · next hsubnet => exact ⟨(Option.some.inj hconf).symm, hsubnet⟩
  · cases hconf

theorem Running.Current.reload {running : Running} {conf : Draft} (h : running.Current conf) :
    running.reload conf = .start conf := by
  rw [Running.reload, h.settings]
  rfl

/-- The state of the service does not matter to the draft. -/
theorem Kept.withRunning (h : Kept P s) (running : Option Running) (recoveryRequired : Bool) :
    Kept P { s with running, recoveryRequired } :=
  ⟨h.vault, h.minted, h.config, h.starter, h.draft⟩

/-- A vault that agrees with the record. -/
theorem Kept.record (h : Kept P s) {vault : Vault} (hplain : vault.IsPlain)
    (hagree : ∀ id value value', vault id = some value → s.minted id = some value' →
      value = value') : Kept P (s.record vault) := by
  have hext : s.minted.Extends (s.record vault).minted := by
    intro id value hvalue
    show (vault id).or (s.minted id) = some value
    cases hnew : vault id with
    | none => exact hvalue
    | some value' => rw [Option.some_or, hagree id value' value hnew hvalue]
  refine ⟨?_, ?_, h.config, h.starter, ?_⟩
  · intro id value hvalue
    show (vault id).or (s.minted id) = some value
    rw [show vault id = some value from hvalue, Option.some_or]
  · intro id value hvalue
    rcases Option.or_eq_some_iff.mp hvalue with hnew | ⟨-, hold⟩
    · exact hplain id value hnew
    · exact h.minted id value hold
  · intro draft hdraft
    exact (h.draft draft hdraft).imp_right fun hstands => hstands.mono hext

/-! ## Changes of the configuration -/

/-- A configuration that is made of a draft takes the place of the installed one.
The application has that draft then, or none. -/
theorem Kept.replace (h : Kept P s) {draft materialized : Draft} {configToml : Text}
    {noted : Option Draft} (running : Option Running) (recoveryRequired : Bool)
    (hcolon : ∀ rule ∈ draft.redirectList, ':' ∉ rule.1)
    (hmade : Made P.toml s.vault draft materialized configToml)
    (hnoted : ∀ draft', noted = some draft' → draft' = draft) :
    Kept P { s with draft := noted, recoveryRequired, config := some configToml, running } := by
  have hkeys := materializeForApply_mono h.vault hmade.keys
  have hloads := fun conf (hconf : Installed P (some configToml) conf) =>
    (hmade.loads hcolon hconf).1
  refine ⟨h.vault, h.minted, ?_, ?_, ?_⟩
  · intro conf hconf
    rw [hloads conf hconf]
    exact hasPlainKeys_of_materialize h.minted hkeys
  · intro hnone
    cases hnone
  · intro draft' hdraft'
    rw [hnoted draft' hdraft']
    exact .inr ⟨materialized, hkeys, hloads⟩

/-- A repair writes a configuration only where there is none, and then it is the
starter draft. -/
theorem Kept.repaired (h : Kept P s) {draft materialized : Draft} {configToml : Text}
    (hknown : s.draft = some draft ∨
      s.draft = none ∧ s.recoveryRequired = true ∧ draft = starterDraft)
    (hmade : Made P.toml s.vault draft materialized configToml) :
    Kept P { Gui.repaired P.toml configToml s with recoveryRequired := false } := by
  cases hconfig : s.config with
  | some configToml' =>
      have heq : Gui.repaired P.toml configToml s =
          { s with running := startService P.toml s.config } := by
        simp only [Gui.repaired, hconfig, Option.some_or]
      rw [heq]
      exact h.withRunning _ false
  | none =>
      have heq : Gui.repaired P.toml configToml s =
          { s with
            config := some configToml
            running := startService P.toml (some configToml) } := by
        simp only [Gui.repaired, hconfig, Option.none_or]
      have hstarter : draft = starterDraft := by
        rcases hknown with hdraft | ⟨-, -, heq⟩
        · exact h.starter hconfig draft hdraft
        · exact heq
      rw [heq]
      refine h.replace _ false ?_ hmade fun draft' hdraft' => ?_
      · rw [hstarter]
        exact List.forall_mem_nil _
      · rw [h.starter hconfig draft' hdraft', hstarter]

/-! ## Other steps -/

/-- An identifier that is not on record is new to the vault. -/
theorem Vault.Extends.eq_none {vault vault' : Vault} (h : vault.Extends vault') {id : Str}
    (hnone : vault' id = none) : vault id = none :=
  Option.eq_none_iff_forall_ne_some.mpr fun value hvalue => by
    cases hnone.symm.trans (h id value hvalue)

theorem FreshUuids.of_extends {env : VaultEnv} {vault vault' : Vault}
    (h : FreshUuids env vault') (hext : vault.Extends vault') : FreshUuids env vault where
  distinct := h.distinct
  unused kind n := hext.eq_none (h.unused kind n)

/-- A migration that fails leaves the vault as it was. -/
theorem vault_of_failed_migration {env : VaultEnv} {vault vault' : Vault} {conf draft : Draft}
    {error : CommandError} (hfresh : FreshUuids env vault)
    (h : migrateLegacySecrets env conf vault = (.error error, draft, vault')) : vault' = vault := by
  rw [migrateLegacySecrets] at h
  split at h
  · cases h
    exact (adopted_draft env conf vault).rollback hfresh.unused
  · cases h

/-- The vault itself agrees with the record. -/
theorem Kept.agree (h : Kept P s) {id : Str} {value value' : Bytes}
    (hvault : s.vault id = some value) (hminted : s.minted id = some value') : value = value' :=
  Option.some.inj ((h.vault id value hvault).symm.trans hminted)

theorem Kept.vault_isPlain (h : Kept P s) : s.vault.IsPlain :=
  fun id value hvalue => h.minted id value (h.vault id value hvalue)

theorem Kept.stored (h : Kept P s) {id : SecretId} {text : Str} (hfresh : s.minted id.value = none)
    (hplain : IsPlain text) : Kept P (s.record (s.vault.put id (utf8 text))) := by
  refine h.record (h.vault_isPlain.put hplain id) fun id' value value' hvalue hvalue' => ?_
  rw [Vault.put, Function.update_apply] at hvalue
  split at hvalue
  · next heq =>
      rw [heq, hfresh] at hvalue'
      cases hvalue'
  · exact h.agree hvalue hvalue'

theorem Kept.notAdopted (h : Kept P s) {env : VaultEnv} {conf draft : Draft} {vault : Vault}
    {error : CommandError} (hfresh : FreshUuids env s.minted)
    (hmigrated : migrateLegacySecrets env conf s.vault = (.error error, draft, vault)) :
    Kept P (s.record vault) := by
  rw [vault_of_failed_migration (hfresh.of_extends h.vault) hmigrated]
  exact h.record h.vault_isPlain fun _ _ _ => h.agree

theorem Kept.adopted (h : Kept P s) {env : VaultEnv} {conf draft : Draft} {vault : Vault}
    {inserted : List SecretId} (hfresh : FreshUuids env s.minted)
    (hloads : Installed P s.config conf)
    (hmigrated : migrateLegacySecrets env conf s.vault = (.ok inserted, draft, vault)) :
    Kept P { s.record vault with draft := some draft, recoveryRequired := false } := by
  have hfresh' := hfresh.of_extends h.vault
  obtain ⟨-, -, -, -, -, -, hadopted⟩ := migrateLegacySecrets_ok hfresh' hmigrated
  have hrecord : Kept P (s.record vault) := by
    have hplain := isPlain_of_migrate h.vault_isPlain hmigrated
    refine h.record hplain fun id value value' hnew hold => ?_
    by_cases hin : ∃ i ∈ inserted, i.value = id
    · obtain ⟨i, hi, rfl⟩ := hin
      obtain ⟨kind, n, -, hdrawn⟩ := hadopted.drawn i hi
      rw [hdrawn, hfresh.unused] at hold
      cases hold
    · have hkept := hadopted.kept id fun i hi heq => hin ⟨i, hi, heq⟩
      exact h.agree (hkept.symm.trans hnew) hold
  refine ⟨hrecord.vault, hrecord.minted, h.config, ?_, ?_⟩
  · intro hnone
    rw [Installed, show s.config = none from hnone] at hloads
    cases hloads
  · rintro _ ⟨⟩
    refine (materialize_of_migrate hfresh' (h.config conf hloads) hmigrated
      hrecord.vault).imp_right fun hkeys => ⟨conf, hkeys, fun conf' hconf' => ?_⟩
    exact Option.some.inj (hconf'.symm.trans hloads)

/-- A key that is deleted stays on record. -/
theorem Kept.deleted (h : Kept P s) (id : SecretId) :
    Kept P { s with vault := s.vault.delete id } := by
  refine ⟨fun id' value hvalue => h.vault id' value ?_, h.minted, h.config, h.starter, h.draft⟩
  have hne : id' ≠ id.value := by
    rintro rfl
    cases (Function.update_self _ _ _).symm.trans hvalue
  exact (Function.update_of_ne hne _ _).symm.trans hvalue

theorem Kept.relaunched (h : Kept P s) (files : InstallFiles) :
    Kept P (relaunch P.platform files s) := by
  refine ⟨h.vault, h.minted, h.config, fun _ draft hdraft => (relaunch_draft hdraft).1,
    fun draft hdraft => ?_⟩
  obtain ⟨rfl, hnone⟩ := relaunch_draft hdraft
  refine .inr ⟨starterDraft, rfl, fun conf hconf => ?_⟩
  rw [show (relaunch P.platform files s).config = none from hnone] at hconf
  cases hconf

theorem kept_fresh {config : Option Text} (files : InstallFiles)
    (hplain : ∀ conf, Installed P config conf → conf.HasPlainKeys) :
    Kept P (Session.fresh P config files) := by
  refine Kept.relaunched ⟨fun _ _ hvalue => ?_, fun _ _ hvalue => ?_, hplain,
    fun _ _ hdraft => ?_, fun _ hdraft => ?_⟩ files
  · cases hvalue
  · cases hvalue
  · cases hdraft
  · cases hdraft

variable [DecidableEq Text]

/-- Every step of an honest run keeps the draft and the configuration. -/
theorem Kept.step (h : Kept P s) {act : SessionAct Text} (hhonest : Honest s act) :
    Kept P (s.step P act) := by
  have hmove := step_move (P := P) s act
  generalize s.step P act = s' at hmove
  cases hmove with
  | skip => exact h
  | unknown hfate hunfaithful => exact absurd (hhonest.faithful _ hfate) hunfaithful
  | applied _ _ hvalid hmade =>
      exact h.replace _ s.recoveryRequired (fun rule hrule => colon_not_mem_redirect hvalid hrule)
        hmade fun _ => Option.some.inj ∘ Eq.symm
  | installed _ hvalid hmade =>
      exact h.replace _ false (fun rule hrule => colon_not_mem_redirect hvalid hrule) hmade
        fun _ => Option.some.inj ∘ Eq.symm
  | adopted _ hloads hmigrated => exact h.adopted (hhonest.adopted _ _ rfl) hloads hmigrated
  | notAdopted _ hmigrated => exact h.notAdopted (hhonest.adopted _ _ rfl) hmigrated
  | repaired _ hknown hmade => exact h.repaired hknown hmade
  | acted _ recoveryRequired =>
      rw [acted_eq]
      exact h.withRunning _ recoveryRequired
  | stored hid hvalid hplain => exact h.stored (hhonest.stored _ hid) hplain
  | deleted _ id => exact h.deleted id
  | relaunched files => exact h.relaunched files
  | reloaded | exited | revived => exact h.withRunning _ s.recoveryRequired

/-! ## The service -/

end Kept

theorem sampleFate_faithful : sampleFate.Faithful where
  told _ _ _ hreply := by cases hreply
  reported _ := rfl

section NothingLost

variable {Text : Type} [DecidableEq Text] {P : Session.Setup Text} {s : Session Text}

/-- The session is honest, and no key is deleted. -/
structure Keeping (s : Session Text) (act : SessionAct Text) : Prop extends Honest s act where
  keeps : ∀ reference fault, act ≠ .deleteSecret reference fault

omit [DecidableEq Text] in
theorem record_keeps_all {vault : Vault} (hall : s.minted.Extends s.vault)
    (hext : s.vault.Extends vault) : (s.record vault).minted.Extends (s.record vault).vault := by
  intro id value hvalue
  rcases Option.or_eq_some_iff.mp hvalue with hnew | ⟨-, hold⟩
  · exact hnew
  · exact hext id value (hall id value hold)

/-- Then every key on record is in the vault. -/
theorem Kept.keeps_all (h : Kept P s) (hall : s.minted.Extends s.vault) {act : SessionAct Text}
    (hkeeping : Keeping s act) : (s.step P act).minted.Extends (s.step P act).vault := by
  have hmove := step_move (P := P) s act
  generalize s.step P act = s' at hmove
  cases hmove with
  | adopted _ _ hmigrated =>
      have hfresh := (hkeeping.adopted _ _ rfl).of_extends h.vault
      obtain ⟨_, _, -, -, -, hext, -⟩ := migrateLegacySecrets_ok hfresh hmigrated
      exact record_keeps_all hall hext
  | notAdopted _ hmigrated =>
      have hfresh := (hkeeping.adopted _ _ rfl).of_extends h.vault
      rw [vault_of_failed_migration hfresh hmigrated]
      exact record_keeps_all hall fun _ _ hvalue => hvalue
  | stored hid _ _ =>
      have hnew := h.vault.eq_none (hkeeping.stored _ hid)
      exact record_keeps_all hall (Vault.extends_update hnew _)
  | deleted fault _ => exact absurd rfl (hkeeping.keeps _ fault)
  | acted _ _ =>
      rw [acted_eq]
      exact hall
  | _ => exact hall

theorem keeping_reach {config : Option Text} {files : InstallFiles}
    (hplain : ∀ conf, Installed P config conf → conf.HasPlainKeys)
    (h : (Session.machine P config files).ReachBy Keeping s) :
    Kept P s ∧ s.minted.Extends s.vault := by
  refine Machine.ReachBy.invariant (P := fun s => Kept P s ∧ s.minted.Extends s.vault)
    ⟨kept_fresh files hplain, fun _ _ hvalue => ?_⟩ ?_ h
  · cases hvalue
  · rintro s act s' ⟨hkept, hall⟩ hkeeping hstep
    cases hstep
    exact ⟨hkept.step hkeeping.toHonest, hkept.keeps_all hall hkeeping⟩

end NothingLost

/-- As long as no key is deleted, the draft of the application is the installed
configuration, with references for the keys. -/
theorem draft_stands_for_config {Text : Type} [DecidableEq Text] (P : Session.Setup Text)
    (config : Option Text) (files : InstallFiles)
    (hplain : ∀ conf, Installed P config conf → conf.HasPlainKeys) {s : Session Text}
    (h : (Session.machine P config files).ReachBy Keeping s) {draft : Draft}
    (hdraft : s.draft = some draft) (hkeys : [] ∉ draft.obfsConf.keys) :
    ∃ materialized, materializeForApply draft s.vault = .ok materialized ∧
      ∀ conf, Installed P s.config conf → conf = materialized := by
  obtain ⟨hkept, hall⟩ := keeping_reach hplain h
  rcases hkept.draft draft hdraft with hempty | hstands
  · exact absurd hempty hkeys
  · exact hstands.mono hall

open scoped Classical in
/-- An installed configuration is adopted, and its keys are in the vault. -/
theorem draft_stands_for_config_sample :
    ∃ draft, (Session.machine sampleSetup (some sampleConf.toToml) sampleFiles).ReachBy
        Keeping sampleAdopted ∧
      sampleAdopted.draft = some draft ∧
      draft.obfsConf.keys = ["vault://adopted.obfs.0".toList] ∧
      Installed sampleSetup sampleAdopted.config sampleConf ∧
      ∃ materialized, materializeForApply draft sampleAdopted.vault = .ok materialized ∧
        ∀ conf, Installed sampleSetup sampleAdopted.config conf → conf = materialized := by
  have hloads : Installed sampleSetup (some sampleConf.toToml) sampleConf := by
    show (some sampleConf.toToml).bind (loadConf .plain) = some sampleConf
    decide +kernel
  have hplain : ∀ conf, Installed sampleSetup (some sampleConf.toToml) conf →
      conf.HasPlainKeys := by
    intro conf hconf
    cases hconf.symm.trans hloads
    show ∀ key ∈ sampleConf.relayKeys ++ sampleConf.obfsConf.keys,
      stripPrefix key vaultScheme = none
    decide
  have hreach : (Session.machine sampleSetup (some sampleConf.toToml) sampleFiles).ReachBy
      Keeping sampleAdopted := by
    refine Machine.ReachBy.init.step (.adoptService (countingEnv 2) sampleFate)
      ⟨⟨?_, fun _ hid => ?_, ?_⟩, fun _ _ heq => ?_⟩ rfl
    · rintro _ ⟨⟩
      exact sampleFate_faithful
    · cases hid
    · rintro _ _ ⟨⟩
      refine (countingEnv_fresh 2).of_extends fun _ _ hvalue => ?_
      cases hvalue
    · cases heq
  obtain ⟨draft, hdraft, hkeys⟩ := sampleAdopted_draft
  have hne : [] ∉ draft.obfsConf.keys := by
    rw [hkeys]
    decide
  exact ⟨draft, hreach, hdraft, hkeys, hloads,
    draft_stands_for_config _ _ _ hplain hreach hdraft hne⟩

end DnsRelay.Gui
