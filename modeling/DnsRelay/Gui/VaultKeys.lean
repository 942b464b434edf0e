import DnsRelay.Gui.Session

/-!
# Where the keys of a draft are

A draft that gets its keys from the vault had references only, and has keys in
plain text then.  A migration does the reverse.  It leaves references, and the
keys in the vault are in plain text.  So after a migration the draft gets back
what it had, but for an empty key of the listener.

A vault that grows changes nothing for the drafts that get their keys from it.
-/

namespace DnsRelay.Gui

open Lib

/-- A key in plain text. -/
def IsPlain (key : Str) : Prop := stripPrefix key vaultScheme = none

/-! ## References -/

/-- No key is left in plain text. -/
def Draft.HoldsNoKeys (draft : Draft) : Prop :=
  ∀ key ∈ draft.relayKeys ++ draft.obfsConf.keys, key = [] ∨ IsReference key

section References

variable {vault : Vault} {kind : SecretKind} {keys values : List Str}

theorem materializeReference_reference {reference field value : Str}
    (h : materializeReference vault reference field = .ok value) :
    IsReference reference ∧ ∃ id, reference = vaultScheme ++ id ∧ vault.text id = some value := by
  rw [materializeReference] at h
  split at h
  · cases h
  · next id hid =>
      have heq := stripPrefix_eq_some.mp hid
      split at h
      · next hvalid =>
          split at h
          · cases h
          · next bytes hbytes =>
              split at h
              · cases h
              · next text htext =>
                  cases h
                  refine ⟨⟨id, hvalid, heq⟩, id, heq, ?_⟩
                  rw [Vault.text, hbytes]
                  exact htext
      · cases h

/-- What becomes of a key: an empty key stays, and a reference is looked up. -/
theorem materializeKey_cases {key field value : Str}
    (h : materializeKey vault kind key field = .ok value) :
    key = [] ∧ value = [] ∨
      IsReference key ∧ ∃ id, key = vaultScheme ++ id ∧ vault.text id = some value := by
  cases kind with
  | obfs => exact .inr (materializeReference_reference h)
  | relay =>
      rw [materializeKey] at h
      split at h
      · next hempty =>
          cases h
          have hnil := List.isEmpty_iff.mp hempty
          exact .inl ⟨hnil, hnil⟩
      · exact .inr (materializeReference_reference h)

/-- What holds of every key and of what becomes of it. -/
theorem materializeKeys_all {p q : Str → Prop} {index : Nat}
    (hkey : ∀ key field value, materializeKey vault kind key field = .ok value → p key ∧ q value)
    (h : materializeKeys vault kind index keys = .ok values) :
    (∀ key ∈ keys, p key) ∧ (∀ value ∈ values, q value) ∧ values.length = keys.length := by
  induction keys generalizing index values with
  | nil =>
      cases h
      exact ⟨List.forall_mem_nil p, List.forall_mem_nil q, rfl⟩
  | cons key keys ih =>
      obtain ⟨value, hvalue, hrest⟩ := bind_eq_ok.mp h
      obtain ⟨values', hvalues, hcons⟩ := bind_eq_ok.mp hrest
      cases hcons
      obtain ⟨hp, hq⟩ := hkey _ _ _ hvalue
      obtain ⟨hps, hqs, hlen⟩ := ih hvalues
      exact ⟨List.forall_mem_cons.mpr ⟨hp, hps⟩, List.forall_mem_cons.mpr ⟨hq, hqs⟩,
        congrArg (· + 1) hlen⟩

theorem materializeForApply_eq_ok {draft materialized : Draft} :
    materializeForApply draft vault = .ok materialized ↔
      ∃ relayKeys obfsKeys, materializeKeys vault .relay 0 draft.relayKeys = .ok relayKeys ∧
        materializeKeys vault .obfs 0 draft.obfsConf.keys = .ok obfsKeys ∧
        draft.withKeys relayKeys obfsKeys = materialized := by
  rw [materializeForApply]
  constructor
  · intro h
    obtain ⟨relayKeys, hrelay, hrest⟩ := bind_eq_ok.mp h
    obtain ⟨obfsKeys, hobfs, hdraft⟩ := bind_eq_ok.mp hrest
    exact ⟨relayKeys, obfsKeys, hrelay, hobfs, Except.ok.inj hdraft⟩
  · rintro ⟨relayKeys, obfsKeys, hrelay, hobfs, rfl⟩
    rw [hrelay, hobfs]
    rfl

/-- A draft that gets its keys had none. -/
theorem holdsNoKeys_of_materialize {draft materialized : Draft}
    (h : materializeForApply draft vault = .ok materialized) : draft.HoldsNoKeys := by
  have hmem := fun {kind keys values} (hkeys : materializeKeys vault kind 0 keys = .ok values) =>
    (materializeKeys_all (p := fun key => key = [] ∨ IsReference key) (q := fun _ => True)
      (fun _ _ _ hone => ⟨(materializeKey_cases hone).imp And.left And.left, trivial⟩) hkeys).1
  obtain ⟨relayKeys, obfsKeys, hrelay, hobfs, -⟩ := materializeForApply_eq_ok.mp h
  exact List.forall_mem_append.mpr ⟨hmem hrelay, hmem hobfs⟩

theorem migrateKeys_reference {env : VaultEnv} {index : Nat} {s : Migration}
    (h : (migrateKeys env kind index keys s).1 = none) :
    ∀ key ∈ (migrateKeys env kind index keys s).2.1, key = [] ∨ IsReference key := by
  induction keys generalizing index s with
  | nil => exact List.forall_mem_nil _
  | cons key keys ih =>
      rw [migrateKeys] at h ⊢
      split at h
      · cases h
      · next key' s' hstep =>
          refine List.forall_mem_cons.mpr ⟨?_, ih h⟩
          cases migrateSecret_ok hstep with
          | empty _ => exact .inl rfl
          | reference hvalid heq => exact .inr ⟨_, hvalid, heq⟩
          | moved hvalid _ _ => exact .inr ⟨_, hvalid, rfl⟩

/-- Both loops of a migration that succeeds. -/
theorem migrateLegacySecrets_loops {env : VaultEnv} {conf draft : Draft}
    {inserted : List SecretId} {vault' : Vault}
    (h : migrateLegacySecrets env conf vault = (.ok inserted, draft, vault')) :
    ∃ relayKeys obfsKeys s s', migrateKeys env .relay 0 conf.relayKeys ⟨vault, []⟩ =
        (none, relayKeys, s) ∧
      migrateKeys env .obfs 0 conf.obfsConf.keys s = (none, obfsKeys, s') ∧
      draft = conf.withKeys relayKeys obfsKeys ∧ vault' = s'.vault := by
  rw [migrateLegacySecrets] at h
  split at h
  · cases h
  · next hnone =>
      cases h
      rw [migrateDraft] at hnone ⊢
      split at hnone
      · cases hnone
      · next hrelays =>
          exact ⟨_, _, _, _, Prod.ext hrelays rfl, Prod.ext hnone rfl, rfl, rfl⟩

theorem holdsNoKeys_of_migrate {env : VaultEnv} {conf draft : Draft} {inserted : List SecretId}
    {vault' : Vault}
    (h : migrateLegacySecrets env conf vault = (.ok inserted, draft, vault')) :
    draft.HoldsNoKeys := by
  obtain ⟨relayKeys, obfsKeys, s, s', hrelay, hobfs, rfl, -⟩ := migrateLegacySecrets_loops h
  have hlen := length_migrateKeys env .relay 0 conf.relayKeys ⟨vault, []⟩
  have hrelayKeys := migrateKeys_reference (congrArg Prod.fst hrelay)
  have hobfsKeys := migrateKeys_reference (congrArg Prod.fst hobfs)
  rw [hrelay] at hlen hrelayKeys
  rw [hobfs] at hobfsKeys
  rw [Draft.HoldsNoKeys, relayKeys_withKeys hlen]
  exact List.forall_mem_append.mpr ⟨hrelayKeys, hobfsKeys⟩

end References

/-! ## Keys from the vault -/

/-- All keys are in plain text. -/
def Draft.HasPlainKeys (draft : Draft) : Prop :=
  ∀ key ∈ draft.relayKeys ++ draft.obfsConf.keys, IsPlain key

/-- The vault has texts, and none of them is a reference. -/
def Vault.IsPlain (vault : Vault) : Prop :=
  ∀ id value, vault id = some value → ∃ text, value = utf8 text ∧ Gui.IsPlain text

section Keys

variable {vault vault' : Vault} {kind : SecretKind} {draft materialized : Draft}
  {keys values : List Str}

theorem materializeReference_mono {reference field value : Str} (hext : vault.Extends vault')
    (h : materializeReference vault reference field = .ok value) :
    materializeReference vault' reference field = .ok value := by
  obtain ⟨⟨id, hvalid, rfl⟩, id', hid', htext⟩ := materializeReference_reference h
  obtain rfl := List.append_cancel_left hid'
  exact materializeReference_of_text hvalid (hext.text htext)

theorem materializeKeys_mono {index : Nat} (hext : vault.Extends vault')
    (h : materializeKeys vault kind index keys = .ok values) :
    materializeKeys vault' kind index keys = .ok values := by
  induction keys generalizing index values with
  | nil => exact h
  | cons key keys ih =>
      obtain ⟨value, hvalue, hrest⟩ := bind_eq_ok.mp h
      obtain ⟨values', hvalues, hcons⟩ := bind_eq_ok.mp hrest
      have hvalue' : materializeKey vault' kind key (kind.field index) = .ok value := by
        cases kind with
        | obfs => exact materializeReference_mono hext hvalue
        | relay =>
            rw [materializeKey] at hvalue ⊢
            split at hvalue
            · next hempty => rwa [if_pos hempty]
            · next hne =>
                rw [if_neg hne]
                exact materializeReference_mono hext hvalue
      exact bind_eq_ok.mpr ⟨value, hvalue', bind_eq_ok.mpr ⟨values', ih hvalues, hcons⟩⟩

/-- A draft keeps the keys it gets when the vault grows. -/
theorem materializeForApply_mono (hext : vault.Extends vault')
    (h : materializeForApply draft vault = .ok materialized) :
    materializeForApply draft vault' = .ok materialized := by
  obtain ⟨relayKeys, obfsKeys, hrelay, hobfs, hdraft⟩ := materializeForApply_eq_ok.mp h
  exact materializeForApply_eq_ok.mpr ⟨relayKeys, obfsKeys, materializeKeys_mono hext hrelay,
    materializeKeys_mono hext hobfs, hdraft⟩

theorem isPlain_nil : IsPlain [] := rfl

theorem isPlain_of_text {id text : Str} (hplain : vault.IsPlain) (h : vault.text id = some text) :
    IsPlain text := by
  obtain ⟨value, hvalue, hutf⟩ := Option.bind_eq_some_iff.mp h
  obtain ⟨text', rfl, htext'⟩ := hplain id value hvalue
  rw [fromUtf8_utf8] at hutf
  cases hutf
  exact htext'

/-- A draft gets keys in plain text. -/
theorem hasPlainKeys_of_materialize (hplain : vault.IsPlain)
    (h : materializeForApply draft vault = .ok materialized) : materialized.HasPlainKeys := by
  have hkey : ∀ kind key field value, materializeKey vault kind key field = .ok value →
      True ∧ IsPlain value := by
    intro kind key field value hvalue
    rcases materializeKey_cases hvalue with ⟨-, rfl⟩ | ⟨-, id, -, htext⟩
    · exact ⟨trivial, isPlain_nil⟩
    · exact ⟨trivial, isPlain_of_text hplain htext⟩
  obtain ⟨relayKeys, obfsKeys, hrelay, hobfs, rfl⟩ := materializeForApply_eq_ok.mp h
  obtain ⟨-, hrelayPlain, hlen⟩ := materializeKeys_all (hkey .relay) hrelay
  obtain ⟨-, hobfsPlain, -⟩ := materializeKeys_all (hkey .obfs) hobfs
  rw [Draft.HasPlainKeys, relayKeys_withKeys hlen]
  exact List.forall_mem_append.mpr ⟨hrelayPlain, hobfsPlain⟩

theorem Vault.IsPlain.put {text : Str} (h : vault.IsPlain) (htext : Gui.IsPlain text)
    (id : SecretId) : (vault.put id (utf8 text)).IsPlain := by
  intro id' value hvalue
  rw [Vault.put, Function.update_apply] at hvalue
  split at hvalue
  · cases hvalue
    exact ⟨text, rfl, htext⟩
  · exact h id' value hvalue

theorem MigratesTo.isPlain {env : VaultEnv} {s s' : Migration} {key key' : Str}
    (h : MigratesTo env kind s key key' s') (hplain : s.vault.IsPlain) : s'.vault.IsPlain := by
  cases h with
  | empty _ => exact hplain
  | reference _ _ => exact hplain
  | moved _ _ hkey => exact hplain.put hkey _

theorem migrateKeys_isPlain {env : VaultEnv} {index : Nat} {s : Migration}
    (hplain : s.vault.IsPlain) : (migrateKeys env kind index keys s).2.2.vault.IsPlain := by
  induction keys generalizing index s with
  | nil => exact hplain
  | cons key keys ih =>
      rw [migrateKeys]
      split
      · exact hplain
      · next key' s' hstep => exact ih ((migrateSecret_ok hstep).isPlain hplain)

variable {env : VaultEnv} {conf : Draft} {inserted : List SecretId}

theorem isPlain_of_migrate (hplain : vault.IsPlain)
    (h : migrateLegacySecrets env conf vault = (.ok inserted, draft, vault')) :
    vault'.IsPlain := by
  obtain ⟨_, _, s, s', hrelay, hobfs, -, rfl⟩ := migrateLegacySecrets_loops h
  have hrelays : (migrateKeys env .relay 0 conf.relayKeys ⟨vault, []⟩).2.2.vault.IsPlain :=
    migrateKeys_isPlain hplain
  rw [hrelay] at hrelays
  have hall : (migrateKeys env .obfs 0 conf.obfsConf.keys s).2.2.vault.IsPlain :=
    migrateKeys_isPlain hrelays
  rwa [hobfs] at hall

theorem withKeys_self (draft : Draft) :
    draft.withKeys draft.relayKeys draft.obfsConf.keys = draft := by
  have hzip : List.zipWith (fun (relay : Relay) key => { relay with relayKey := key })
      draft.relayConf.relayInstances draft.relayKeys = draft.relayConf.relayInstances := by
    rw [Draft.relayKeys, List.zipWith_map_right, List.zipWith_self]
    exact List.map_id _
  rw [Draft.withKeys, hzip]

/-- Keys in plain text come back.  None of them is a reference, so they stand for
themselves in any vault. -/
theorem materializeKeys_of_plain (hplain : ∀ key ∈ keys, IsPlain key)
    (h : List.Forall₂ (Stands vault) keys values) (hne : kind = .obfs → [] ∉ keys) :
    materializeKeys vault kind 0 values = .ok keys := by
  have hext : Vault.Extends (fun _ => none) vault := by
    intro id value hvalue
    cases hvalue
  have hresolves : ∀ key ∈ keys, Vault.Resolves (fun _ => none) key := by
    intro key hkey id hid
    cases (hplain key hkey).symm.trans (stripPrefix_eq_some.mpr hid)
  have hexpand : ∀ key ∈ keys, Vault.expand (fun _ => none) key = id key := by
    intro key hkey
    have hnone : stripPrefix key vaultScheme = none := hplain key hkey
    rw [Vault.expand, hnone]
    rfl
  rw [materializeKeys_of_stands h hext hresolves hne 0, List.map_congr_left hexpand, List.map_id]

/-- Keys in plain text come back after a migration, but for an empty key of the
listener. -/
theorem materialize_of_migrate {vault'' : Vault} (hfresh : FreshUuids env vault)
    (hplain : conf.HasPlainKeys)
    (h : migrateLegacySecrets env conf vault = (.ok inserted, draft, vault'))
    (hext : vault'.Extends vault'') :
    [] ∈ draft.obfsConf.keys ∨ materializeForApply draft vault'' = .ok conf := by
  obtain ⟨relayKeys, obfsKeys, rfl, hrelay, hobfs, -, -⟩ := migrateLegacySecrets_ok hfresh h
  by_cases hempty : [] ∈ conf.obfsConf.keys
  · exact .inl (stands_empty hobfs hempty)
  · obtain ⟨hrelayPlain, hobfsPlain⟩ := List.forall_mem_append.mp hplain
    have hrelayKeys : materializeKeys vault'' .relay 0 relayKeys = .ok conf.relayKeys :=
      materializeKeys_of_plain hrelayPlain (hrelay.imp fun _ _ hkey => hkey.mono hext)
        (fun hkind => by cases hkind)
    have hobfsKeys : materializeKeys vault'' .obfs 0 obfsKeys = .ok conf.obfsConf.keys :=
      materializeKeys_of_plain hobfsPlain (hobfs.imp fun _ _ hkey => hkey.mono hext)
        (fun _ => hempty)
    right
    rw [materializeForApply_withKeys hrelay.length_eq.symm, hrelayKeys, hobfsKeys]
    exact congrArg Except.ok (withKeys_self conf)

end Keys

end DnsRelay.Gui
