import Mathlib.Data.List.Forall2
import Mathlib.Logic.Function.Basic
import DnsRelay.Lib.Result
import DnsRelay.Gui.Draft

/-!
# Keys in the credential vault

A draft has references to keys and not the keys.  `migrate_legacy_secrets`
moves the keys of an installed configuration into the vault and leaves
references, and `materialize_for_apply` puts the keys back before the
configuration is applied.

Both walk over the relay keys and then over the keys of the obfuscated
listener.  `Stands` says which key of a migrated draft stands for which key.
It survives every later insertion, since the identifiers are fresh.  The two
walks disagree on one thing only: the migration lets an empty key of the
listener pass, and the way back refuses it.

What the outside does is an argument: the identifiers that are drawn, and which
insertions fail.
-/

namespace DnsRelay.Gui

open Lib

/-! ## The vault -/

/-- The content of a `SecretStore`, by identifier. -/
abbrev Vault := Str → Option Bytes

/-- `SecretStore::put`, when it succeeds. -/
def Vault.put (vault : Vault) (id : SecretId) (value : Bytes) : Vault :=
  Function.update vault id.value (some value)

/-- `SecretStore::delete`, when it succeeds. -/
def Vault.delete (vault : Vault) (id : SecretId) : Vault := Function.update vault id.value none

/-- What the outside contributes to a migration. -/
structure VaultEnv where
  /-- The UUIDs, in the order in which they are drawn. -/
  uuid : Nat → Str
  /-- The text of the error with which an insertion fails. -/
  putFault : Nat → Option Str

def vaultScheme : Str := "vault://".toList

inductive SecretKind where
  | relay
  | obfs
deriving DecidableEq, Repr

def SecretKind.text : SecretKind → Str
  | .relay => "relay".toList
  | .obfs => "obfs".toList

def SecretKind.field : SecretKind → Nat → Str
  | .relay, index => indexed "relayInstances" index ++ ".relayKey".toList
  | .obfs, index => indexed "obfsKeys" index

def adoptedId (env : VaultEnv) (kind : SecretKind) (n : Nat) : Str :=
  "adopted.".toList ++ (kind.text ++ '.' :: env.uuid n)

/-! ## Keys of a draft -/

def Draft.relayKeys (draft : Draft) : List Str :=
  draft.relayConf.relayInstances.map Relay.relayKey

def Draft.withKeys (draft : Draft) (relayKeys obfsKeys : List Str) : Draft :=
  { draft with
    relayConf := { draft.relayConf with
      relayInstances := List.zipWith (fun relay key => { relay with relayKey := key })
        draft.relayConf.relayInstances relayKeys }
    obfsConf := { draft.obfsConf with keys := obfsKeys } }

/-- `zeroize_materialized_secrets`. -/
def zeroizeMaterializedSecrets (draft : Draft) : Draft :=
  draft.withKeys (draft.relayKeys.map fun _ => []) (draft.obfsConf.keys.map fun _ => [])

section Keys

variable {draft : Draft} {relayKeys relayKeys' obfsKeys obfsKeys' : List Str}

theorem relayKeys_withKeys (h : relayKeys.length = draft.relayKeys.length) :
    (draft.withKeys relayKeys obfsKeys).relayKeys = relayKeys := by
  rw [Draft.relayKeys, List.length_map] at h
  show (List.zipWith _ draft.relayConf.relayInstances relayKeys).map Relay.relayKey = relayKeys
  generalize draft.relayConf.relayInstances = relays at h
  induction relays generalizing relayKeys with
  | nil => rw [List.length_eq_zero_iff.mp h]; rfl
  | cons relay relays ih =>
      cases relayKeys with
      | nil => cases h
      | cons key keys => exact congrArg (key :: ·) (ih (Nat.succ.inj h))

theorem withKeys_withKeys (h : relayKeys.length = draft.relayKeys.length) :
    (draft.withKeys relayKeys obfsKeys).withKeys relayKeys' obfsKeys' =
      draft.withKeys relayKeys' obfsKeys' := by
  rw [Draft.relayKeys, List.length_map] at h
  have hzip : ∀ relays : List Relay, ∀ keys keys' : List Str, keys.length = relays.length →
      List.zipWith (fun relay key => { relay with relayKey := key })
        (List.zipWith (fun relay key => { relay with relayKey := key }) relays keys) keys' =
      List.zipWith (fun (relay : Relay) key => { relay with relayKey := key }) relays keys' := by
    intro relays
    induction relays with
    | nil => intro keys keys' _; rfl
    | cons relay relays ih =>
        intro keys keys' hlen
        cases keys with
        | nil => cases hlen
        | cons key keys =>
            cases keys' with
            | nil => rfl
            | cons key' keys' => exact congrArg (_ :: ·) (ih keys keys' (Nat.succ.inj hlen))
  show { draft with
    relayConf := { draft.relayConf with relayInstances := List.zipWith _ (List.zipWith _ _ _) _ }
    obfsConf := _ } = _
  rw [hzip _ _ _ h]
  rfl

end Keys

/-! ## Migration -/

structure Migration where
  vault : Vault
  inserted : List SecretId

/-- `migrate_secret`: the new value of a key.  An error leaves the vault as it
was. -/
def migrateSecret (env : VaultEnv) (kind : SecretKind) (field value : Str) (s : Migration) :
    Except CommandError (Str × Migration) :=
  if value.isEmpty then .ok (value, s)
  else
    match stripPrefix value vaultScheme with
    | some id =>
        if isSecretId id then .ok (value, s)
        else .error (.ofField "invalid_secret_reference".toList "secret ID is invalid".toList field)
    | none =>
        let id := adoptedId env kind s.inserted.length
        if h : isSecretId id = true then
          match env.putFault s.inserted.length with
          | some text => .error (.ofField "secret_migration_failed".toList text field)
          | none =>
              .ok (vaultScheme ++ id,
                ⟨s.vault.put ⟨id, h⟩ (utf8 value), s.inserted ++ [⟨id, h⟩]⟩)
        else .error (.ofField "secret_migration_failed".toList "secret ID is invalid".toList field)

/-- The loop over the keys of one kind: the error that ends it, the keys it
leaves and how far it came.  A key that fails was taken out. -/
def migrateKeys (env : VaultEnv) (kind : SecretKind) :
    Nat → List Str → Migration → Option CommandError × List Str × Migration
  | _, [], s => (none, [], s)
  | index, key :: keys, s =>
      match migrateSecret env kind (kind.field index) key s with
      | .error error => (some error, [] :: keys, s)
      | .ok (key', s') =>
          let rest := migrateKeys env kind (index + 1) keys s'
          (rest.1, key' :: rest.2.1, rest.2.2)

/-- Both loops of `migrate_legacy_secrets`. -/
def migrateDraft (env : VaultEnv) (draft : Draft) (vault : Vault) :
    Option CommandError × Draft × Migration :=
  let relays := migrateKeys env .relay 0 draft.relayKeys ⟨vault, []⟩
  match relays.1 with
  | some error => (some error, draft.withKeys relays.2.1 draft.obfsConf.keys, relays.2.2)
  | none =>
      let obfs := migrateKeys env .obfs 0 draft.obfsConf.keys relays.2.2
      (obfs.1, draft.withKeys relays.2.1 obfs.2.1, obfs.2.2)

/-- `migrate_legacy_secrets`: its result, and the draft and the vault it
leaves. -/
def migrateLegacySecrets (env : VaultEnv) (draft : Draft) (vault : Vault) :
    Except CommandError (List SecretId) × Draft × Vault :=
  let result := migrateDraft env draft vault
  match result.1 with
  | some error =>
      (.error error, zeroizeMaterializedSecrets result.2.1,
        result.2.2.inserted.foldl Vault.delete result.2.2.vault)
  | none => (.ok result.2.2.inserted, result.2.1, result.2.2.vault)

/-! ## The way back -/

/-- `materialize_reference`. -/
def materializeReference (vault : Vault) (reference field : Str) : Except CommandError Str :=
  match stripPrefix reference vaultScheme with
  | none =>
      .error (.ofField "secret_reference_required".toList
        "Secrets must be stored in the credential vault".toList field)
  | some id =>
      if isSecretId id then
        match vault id with
        | none =>
            .error (.ofField "secret_unavailable".toList "secret is not configured".toList field)
        | some value =>
            match fromUtf8 value with
            | none => .error (.ofField "secret_encoding".toList "Secret is not UTF-8".toList field)
            | some text => .ok text
      else .error (.ofField "invalid_secret_reference".toList "secret ID is invalid".toList field)

/-- One key of `materialize_secrets`.  Empty relay keys stay. -/
def materializeKey (vault : Vault) : SecretKind → Str → Str → Except CommandError Str
  | .relay, key, field => if key.isEmpty then .ok key else materializeReference vault key field
  | .obfs, key, field => materializeReference vault key field

def materializeKeys (vault : Vault) (kind : SecretKind) :
    Nat → List Str → Except CommandError (List Str)
  | _, [] => .ok []
  | index, key :: keys => do
      let value ← materializeKey vault kind key (kind.field index)
      let values ← materializeKeys vault kind (index + 1) keys
      return value :: values

/-- `materialize_for_apply`. -/
def materializeForApply (draft : Draft) (vault : Vault) : Except CommandError Draft := do
  let relayKeys ← materializeKeys vault .relay 0 draft.relayKeys
  let obfsKeys ← materializeKeys vault .obfs 0 draft.obfsConf.keys
  return draft.withKeys relayKeys obfsKeys

/-! ## Identifiers -/

/-- The identifiers that are drawn are new. -/
structure FreshUuids (env : VaultEnv) (vault : Vault) : Prop where
  distinct : ∀ m n, env.uuid m = env.uuid n → m = n
  unused : ∀ kind n, vault (adoptedId env kind n) = none

theorem adoptedId_inj {env : VaultEnv} (h : ∀ m n, env.uuid m = env.uuid n → m = n)
    {kind kind' : SecretKind} {m n : Nat} (heq : adoptedId env kind m = adoptedId env kind' n) :
    m = n := by
  have htail := List.append_cancel_left heq
  cases kind with
  | relay =>
      cases kind' with
      | relay => exact h m n (List.cons.inj (List.append_cancel_left htail)).2
      | obfs => exact absurd (List.cons.inj htail).1 (by decide)
  | obfs =>
      cases kind' with
      | relay => exact absurd (List.cons.inj htail).1 (by decide)
      | obfs => exact h m n (List.cons.inj (List.append_cancel_left htail)).2

/-- The migration has only added identifiers that were drawn. -/
structure Adopted (env : VaultEnv) (vault : Vault) (s : Migration) : Prop where
  kept : ∀ id, (∀ i ∈ s.inserted, i.value ≠ id) → s.vault id = vault id
  drawn : ∀ i ∈ s.inserted, ∃ kind n, n < s.inserted.length ∧ i.value = adoptedId env kind n

section Step

variable {env : VaultEnv} {vault : Vault} {kind : SecretKind} {s s' : Migration}
  {field value value' : Str}

theorem adopted_start (env : VaultEnv) (vault : Vault) : Adopted env vault ⟨vault, []⟩ where
  kept _ _ := rfl
  drawn _ hi := absurd hi List.not_mem_nil

theorem Adopted.inserted_unused (h : Adopted env vault s)
    (hunused : ∀ kind n, vault (adoptedId env kind n) = none) :
    ∀ i ∈ s.inserted, vault i.value = none := by
  intro i hi
  obtain ⟨kind, n, -, heq⟩ := h.drawn i hi
  rw [heq, hunused]

/-- The next identifier is not in the vault. -/
theorem Adopted.next_unused (h : Adopted env vault s) (hfresh : FreshUuids env vault) :
    s.vault (adoptedId env kind s.inserted.length) = none := by
  rw [h.kept, hfresh.unused]
  intro i hi heq
  obtain ⟨kind', n, hlt, hn⟩ := h.drawn i hi
  exact absurd (adoptedId_inj hfresh.distinct (hn.symm.trans heq)) (Nat.ne_of_lt hlt)

/-- What a successful `migrate_secret` does to a key. -/
inductive MigratesTo (env : VaultEnv) (kind : SecretKind) (s : Migration) (value : Str) :
    Str → Migration → Prop where
  | empty (isEmpty : value = []) : MigratesTo env kind s value [] s
  | reference {id : Str} (valid : isSecretId id = true) (isReference : value = vaultScheme ++ id) :
      MigratesTo env kind s value value s
  | moved (valid : isSecretId (adoptedId env kind s.inserted.length) = true) (ne_nil : value ≠ [])
      (plain : stripPrefix value vaultScheme = none) :
      MigratesTo env kind s value (vaultScheme ++ adoptedId env kind s.inserted.length)
        ⟨s.vault.put ⟨_, valid⟩ (utf8 value), s.inserted ++ [⟨_, valid⟩]⟩

theorem migrateSecret_ok (h : migrateSecret env kind field value s = .ok (value', s')) :
    MigratesTo env kind s value value' s' := by
  rw [migrateSecret] at h
  split at h
  · next hempty =>
      cases h
      obtain rfl := List.isEmpty_iff.mp hempty
      exact .empty rfl
  · next hne =>
      rw [List.isEmpty_iff] at hne
      split at h
      · next id hid =>
          split at h
          · next hvalid =>
              cases h
              exact .reference hvalid (stripPrefix_eq_some.mp hid)
          · cases h
      · next hplain =>
          simp only at h
          split at h
          · next hvalid =>
              split at h
              · cases h
              · cases h
                exact .moved hvalid hne hplain
          · cases h

theorem Adopted.step (h : Adopted env vault s) (hstep : MigratesTo env kind s value value' s') :
    Adopted env vault s' := by
  cases hstep with
  | empty => exact h
  | reference => exact h
  | moved hvalid =>
      refine ⟨fun id hid => ?_, fun i hi => ?_⟩
      · rw [List.forall_mem_append] at hid
        have hne : id ≠ adoptedId env kind s.inserted.length :=
          fun heq => hid.2 _ List.mem_cons_self heq.symm
        exact (Function.update_of_ne hne _ _).trans (h.kept id hid.1)
      · rw [List.length_append]
        rcases List.mem_append.mp hi with hi | hi
        · obtain ⟨kind', n, hlt, heq⟩ := h.drawn i hi
          exact ⟨kind', n, Nat.lt_add_right _ hlt, heq⟩
        · rw [List.mem_singleton.mp hi]
          exact ⟨kind, _, Nat.lt_succ_self _, rfl⟩

end Step

/-! ## A migration that fails -/

section Failure

variable {env : VaultEnv} {vault : Vault} {kind : SecretKind} {s : Migration}

theorem length_migrateKeys (env : VaultEnv) (kind : SecretKind) (index : Nat) (keys : List Str)
    (s : Migration) : (migrateKeys env kind index keys s).2.1.length = keys.length := by
  induction keys generalizing index s with
  | nil => rfl
  | cons key keys ih =>
      rw [migrateKeys]
      split
      · rfl
      · next key' s' _ => exact congrArg (· + 1) (ih (index + 1) s')

/-- Whether it fails or not, the loop only adds identifiers that were drawn. -/
theorem Adopted.keys (h : Adopted env vault s) (index : Nat) (keys : List Str) :
    Adopted env vault (migrateKeys env kind index keys s).2.2 := by
  induction keys generalizing index s with
  | nil => exact h
  | cons key keys ih =>
      rw [migrateKeys]
      split
      · exact h
      · next key' s' hstep => exact ih (h.step (migrateSecret_ok hstep)) (index + 1)

theorem adopted_draft (env : VaultEnv) (draft : Draft) (vault : Vault) :
    Adopted env vault (migrateDraft env draft vault).2.2 := by
  have hrelays : Adopted env vault (migrateKeys env .relay 0 draft.relayKeys ⟨vault, []⟩).2.2 :=
    (adopted_start env vault).keys 0 draft.relayKeys
  rw [migrateDraft]
  split
  · exact hrelays
  · exact hrelays.keys 0 draft.obfsConf.keys

theorem foldl_delete (ids : List SecretId) (vault : Vault) (id : Str) :
    ids.foldl Vault.delete vault id =
      if ∃ i ∈ ids, i.value = id then none else vault id := by
  induction ids generalizing vault with
  | nil => simp
  | cons i ids ih =>
      rw [List.foldl_cons, ih]
      by_cases hlater : ∃ i ∈ ids, i.value = id
      · rw [if_pos hlater, if_pos]
        obtain ⟨i', hi', heq⟩ := hlater
        exact ⟨i', List.mem_cons_of_mem i hi', heq⟩
      · rw [if_neg hlater]
        by_cases heq : i.value = id
        · rw [if_pos ⟨i, List.mem_cons_self, heq⟩, Vault.delete, heq, Function.update_self]
        · rw [Vault.delete, Function.update_of_ne (Ne.symm heq), if_neg]
          rintro ⟨i', hi', heq'⟩
          rcases List.mem_cons.mp hi' with rfl | hi'
          · exact heq heq'
          · exact hlater ⟨i', hi', heq'⟩

/-- Deleting what was inserted leaves the vault as it was. -/
theorem Adopted.rollback (h : Adopted env vault s)
    (hunused : ∀ kind n, vault (adoptedId env kind n) = none) :
    s.inserted.foldl Vault.delete s.vault = vault := by
  funext id
  rw [foldl_delete]
  split
  · next hin =>
      obtain ⟨i, hi, rfl⟩ := hin
      exact (h.inserted_unused hunused i hi).symm
  · next hout => exact h.kept id fun i hi heq => hout ⟨i, hi, heq⟩

end Failure

theorem relayKeys_migrateDraft (env : VaultEnv) (draft : Draft) (vault : Vault) :
    (migrateDraft env draft vault).2.1.relayKeys =
      (migrateKeys env .relay 0 draft.relayKeys ⟨vault, []⟩).2.1 := by
  have hlen := length_migrateKeys env .relay 0 draft.relayKeys ⟨vault, []⟩
  rw [migrateDraft]
  split
  · exact relayKeys_withKeys hlen
  · exact relayKeys_withKeys hlen

theorem length_migrateDraft_obfs (env : VaultEnv) (draft : Draft) (vault : Vault) :
    (migrateDraft env draft vault).2.1.obfsConf.keys.length = draft.obfsConf.keys.length := by
  rw [migrateDraft]
  split
  · rfl
  · exact length_migrateKeys env .obfs 0 draft.obfsConf.keys _

theorem relayKeys_zeroize (draft : Draft) :
    (zeroizeMaterializedSecrets draft).relayKeys = List.replicate draft.relayKeys.length [] := by
  rw [zeroizeMaterializedSecrets, relayKeys_withKeys (List.length_map _), List.map_const']

theorem obfsKeys_zeroize (draft : Draft) :
    (zeroizeMaterializedSecrets draft).obfsConf.keys =
      List.replicate draft.obfsConf.keys.length [] :=
  List.map_const'

/-- A migration that fails leaves the vault as it was, and every key of the
draft is empty. -/
theorem failed_migration_leaves_no_trace (env : VaultEnv) (draft : Draft) (vault : Vault)
    (hunused : ∀ kind n, vault (adoptedId env kind n) = none) {error : CommandError}
    {draft' : Draft} {vault' : Vault}
    (h : migrateLegacySecrets env draft vault = (.error error, draft', vault')) :
    vault' = vault ∧ draft'.relayKeys = List.replicate draft.relayKeys.length [] ∧
      draft'.obfsConf.keys = List.replicate draft.obfsConf.keys.length [] := by
  rw [migrateLegacySecrets] at h
  split at h
  · next error' _ =>
      cases h
      refine ⟨(adopted_draft env draft vault).rollback hunused, ?_, ?_⟩
      · rw [relayKeys_zeroize, relayKeys_migrateDraft, length_migrateKeys]
      · rw [obfsKeys_zeroize, length_migrateDraft_obfs]
  · cases h

def keyedDraft (relayKeys obfsKeys : List Str) : Draft :=
  { starterDraft with
    relayConf := ⟨true, false, 5,
      relayKeys.map fun key => ⟨key, "https://relay.example".toList, .direct⟩⟩
    obfsConf := ⟨true, "0.0.0.0:8853".toList, obfsKeys⟩ }

def primaryVault : Vault :=
  Function.update (fun _ => none) "relay.primary".toList (some (utf8 "old".toList))

/-- Identifiers that grow; the insertions from `full` on fail. -/
def countingEnv (full : Nat) : VaultEnv where
  uuid n := List.replicate n '0'
  putFault n := if n < full then none else some "vault is full".toList

theorem primaryVault_unused (full : Nat) (kind : SecretKind) (n : Nat) :
    primaryVault (adoptedId (countingEnv full) kind n) = none := by
  rw [primaryVault, Function.update_of_ne]
  intro heq
  exact absurd (List.cons.inj heq).1 (by decide)

/-- The second insertion fails, and the first one is taken back. -/
theorem failed_migration_leaves_no_trace_second_key :
    ∃ error draft' vault', migrateLegacySecrets (countingEnv 1)
        (keyedDraft ["vault://relay.primary".toList, "k1".toList] ["k2".toList]) primaryVault =
          (.error error, draft', vault') ∧
      vault' = primaryVault ∧ draft'.relayKeys = List.replicate 2 [] ∧
      draft'.obfsConf.keys = List.replicate 1 [] := by
  have herror : (migrateDraft (countingEnv 1)
      (keyedDraft ["vault://relay.primary".toList, "k1".toList] ["k2".toList]) primaryVault).1 =
        some (.ofField "secret_migration_failed".toList "vault is full".toList
          "obfsKeys.0".toList) := by
    decide
  have h := migrateLegacySecrets.eq_1 (countingEnv 1)
    (keyedDraft ["vault://relay.primary".toList, "k1".toList] ["k2".toList]) primaryVault
  simp only [herror] at h
  exact ⟨_, _, _, h, failed_migration_leaves_no_trace _ _ _ (primaryVault_unused 1) h⟩

/-! ## A migration that succeeds -/

def Vault.text (vault : Vault) (id : Str) : Option Str := (vault id).bind fromUtf8

/-- The key that is meant: the stored one for a reference. -/
def Vault.expand (vault : Vault) (key : Str) : Str :=
  match stripPrefix key vaultScheme with
  | some id => (vault.text id).getD key
  | none => key

/-- The vault resolves the key, if it is a reference. -/
def Vault.Resolves (vault : Vault) (key : Str) : Prop :=
  ∀ id, key = vaultScheme ++ id → (vault.text id).isSome = true

/-- Nothing is lost from one vault to the next. -/
def Vault.Extends (vault vault' : Vault) : Prop :=
  ∀ id value, vault id = some value → vault' id = some value

/-- The key of the migrated draft that stands for a key. -/
inductive Stands (vault : Vault) : Str → Str → Prop where
  | empty : Stands vault [] []
  | reference {id : Str} (valid : isSecretId id = true) :
      Stands vault (vaultScheme ++ id) (vaultScheme ++ id)
  | moved {id key : Str} (valid : isSecretId id = true)
      (plain : stripPrefix key vaultScheme = none) (ne_nil : key ≠ [])
      (stored : vault id = some (utf8 key)) : Stands vault key (vaultScheme ++ id)

section Success

variable {env : VaultEnv} {vault vault' : Vault} {kind : SecretKind} {s s' : Migration}
  {key key' : Str} {keys keys' : List Str}

theorem Stands.mono (h : Stands vault key key') (hext : vault.Extends vault') :
    Stands vault' key key' := by
  cases h with
  | empty => exact .empty
  | reference hvalid => exact .reference hvalid
  | moved hvalid hplain hne hstored => exact .moved hvalid hplain hne (hext _ _ hstored)

theorem Vault.extends_update {id : Str} (h : vault id = none) (value : Option Bytes) :
    vault.Extends (Function.update vault id value) := by
  intro id' value' hvalue
  rw [Function.update_of_ne]
  · exact hvalue
  · rintro rfl
    cases h.symm.trans hvalue

theorem MigratesTo.stands (h : MigratesTo env kind s key key' s')
    (hadopted : Adopted env vault s) (hfresh : FreshUuids env vault) :
    Stands s'.vault key key' ∧ s.vault.Extends s'.vault := by
  cases h with
  | empty hempty =>
      subst hempty
      exact ⟨.empty, fun _ _ hvalue => hvalue⟩
  | reference hvalid hreference =>
      exact ⟨hreference ▸ .reference hvalid, fun _ _ hvalue => hvalue⟩
  | moved hvalid hne hplain =>
      exact ⟨.moved hvalid hplain hne (Function.update_self _ _ _),
        Vault.extends_update (hadopted.next_unused hfresh) _⟩

/-- The loop leaves a key that stands for each key. -/
theorem migrateKeys_stands (hadopted : Adopted env vault s) (hfresh : FreshUuids env vault)
    (index : Nat) (h : (migrateKeys env kind index keys s).1 = none) :
    List.Forall₂ (Stands (migrateKeys env kind index keys s).2.2.vault) keys
        (migrateKeys env kind index keys s).2.1 ∧
      s.vault.Extends (migrateKeys env kind index keys s).2.2.vault := by
  induction keys generalizing index s with
  | nil => exact ⟨.nil, fun _ _ hvalue => hvalue⟩
  | cons key keys ih =>
      rw [migrateKeys] at h ⊢
      split at h
      · cases h
      · next key' s' hstep =>
          have hmigrates := migrateSecret_ok hstep
          obtain ⟨hstands, hext⟩ := hmigrates.stands hadopted hfresh
          obtain ⟨hrest, hext'⟩ := ih (hadopted.step hmigrates) (index + 1) h
          exact ⟨.cons (hstands.mono hext') hrest, fun id value hvalue =>
            hext' id value (hext id value hvalue)⟩

theorem Vault.Extends.text {id text : Str} (h : vault.Extends vault')
    (htext : vault.text id = some text) : vault'.text id = some text := by
  obtain ⟨value, hvalue, hutf⟩ := Option.bind_eq_some_iff.mp htext
  exact Option.bind_eq_some_iff.mpr ⟨value, h id value hvalue, hutf⟩

theorem materializeReference_of_text {id text field : Str} (hvalid : isSecretId id = true)
    (htext : vault.text id = some text) :
    materializeReference vault (vaultScheme ++ id) field = .ok text := by
  obtain ⟨value, hvalue, hutf⟩ := Option.bind_eq_some_iff.mp htext
  simp only [materializeReference, stripPrefix_append, if_pos hvalid, hvalue, hutf]

/-- The way back finds the key that is meant, but for an empty key of the
listener. -/
theorem Stands.materializeKey (h : Stands vault' key key') (hext : vault.Extends vault')
    (hresolves : vault.Resolves key) (hne : kind = .obfs → key ≠ []) (field : Str) :
    materializeKey vault' kind key' field = .ok (vault.expand key) := by
  have hreference : ∀ id text, isSecretId id = true → vault'.text id = some text →
      Gui.materializeKey vault' kind (vaultScheme ++ id) field = .ok text := by
    intro id text hvalid htext
    cases kind with
    | relay => exact materializeReference_of_text hvalid htext
    | obfs => exact materializeReference_of_text hvalid htext
  cases h with
  | empty =>
      cases kind with
      | relay => rfl
      | obfs => exact absurd rfl (hne rfl)
  | @reference id hvalid =>
      obtain ⟨text, htext⟩ := Option.isSome_iff_exists.mp (hresolves id rfl)
      rw [hreference id text hvalid (hext.text htext), Vault.expand, stripPrefix_append]
      simp only [htext, Option.getD_some]
  | moved hvalid hplain _ hstored =>
      rw [hreference _ key hvalid (by rw [Vault.text, hstored]; exact fromUtf8_utf8 key),
        Vault.expand, hplain]

theorem materializeKeys_of_stands (h : List.Forall₂ (Stands vault') keys keys')
    (hext : vault.Extends vault') (hresolves : ∀ key ∈ keys, vault.Resolves key)
    (hne : kind = .obfs → [] ∉ keys) (index : Nat) :
    materializeKeys vault' kind index keys' = .ok (keys.map vault.expand) := by
  induction h generalizing index with
  | nil => rfl
  | @cons key key' keys keys' hkey _ ih =>
      obtain ⟨hresolvesKey, hresolvesKeys⟩ := List.forall_mem_cons.mp hresolves
      have hkey' := hkey.materializeKey hext hresolvesKey
        (fun hkind hnil => hne hkind (hnil ▸ List.mem_cons_self)) (kind.field index)
      have hkeys' := ih hresolvesKeys
        (fun hkind hmem => hne hkind (List.mem_cons_of_mem key hmem)) (index + 1)
      rw [materializeKeys, hkey', hkeys']
      rfl

/-- An empty key of the listener ends the way back. -/
theorem materializeKeys_of_empty (hmem : [] ∈ keys) (index : Nat) (values : List Str) :
    materializeKeys vault .obfs index keys ≠ .ok values := by
  induction keys generalizing index values with
  | nil => cases hmem
  | cons key keys ih =>
      intro h
      obtain ⟨value, hvalue, hrest⟩ := bind_eq_ok.mp h
      obtain ⟨values', hvalues, -⟩ := bind_eq_ok.mp hrest
      cases hmem with
      | head => cases hvalue
      | tail _ hmem => exact ih hmem (index + 1) values' hvalues

theorem stands_empty (h : List.Forall₂ (Stands vault) keys keys') (hmem : [] ∈ keys) :
    [] ∈ keys' := by
  induction h with
  | nil => exact hmem
  | cons hkey _ ih =>
      cases hmem with
      | head =>
          cases hkey with
          | empty => exact List.mem_cons_self
          | moved _ _ hne => exact absurd rfl hne
      | tail _ hmem => exact List.mem_cons_of_mem _ (ih hmem)

/-- A key of a migrated draft is no key in plain text. -/
def IsReference (key : Str) : Prop := ∃ id, isSecretId id = true ∧ key = vaultScheme ++ id

theorem stands_reference (h : List.Forall₂ (Stands vault) keys keys') :
    ∀ key ∈ keys', key = [] ∨ IsReference key := by
  induction h with
  | nil => exact fun _ hmem => absurd hmem List.not_mem_nil
  | cons hkey _ ih =>
      refine List.forall_mem_cons.mpr ⟨?_, ih⟩
      cases hkey with
      | empty => exact .inl rfl
      | reference hvalid => exact .inr ⟨_, hvalid, rfl⟩
      | moved hvalid => exact .inr ⟨_, hvalid, rfl⟩

theorem materializeForApply_withKeys {draft : Draft} {relayKeys obfsKeys : List Str}
    (h : relayKeys.length = draft.relayKeys.length) :
    materializeForApply (draft.withKeys relayKeys obfsKeys) vault = do
      let relayKeys ← materializeKeys vault .relay 0 relayKeys
      let obfsKeys ← materializeKeys vault .obfs 0 obfsKeys
      return draft.withKeys relayKeys obfsKeys := by
  rw [materializeForApply, relayKeys_withKeys h]
  simp only [withKeys_withKeys h]
  rfl

theorem migrateLegacySecrets_ok {draft draft' : Draft} {inserted : List SecretId}
    (hfresh : FreshUuids env vault)
    (h : migrateLegacySecrets env draft vault = (.ok inserted, draft', vault')) :
    ∃ relayKeys obfsKeys, draft' = draft.withKeys relayKeys obfsKeys ∧
      List.Forall₂ (Stands vault') draft.relayKeys relayKeys ∧
      List.Forall₂ (Stands vault') draft.obfsConf.keys obfsKeys ∧
      vault.Extends vault' ∧ Adopted env vault ⟨vault', inserted⟩ := by
  have hadopted := adopted_draft env draft vault
  rw [migrateLegacySecrets] at h
  split at h
  · cases h
  · next hnone =>
      cases h
      rw [migrateDraft] at hnone hadopted ⊢
      split at hnone
      · cases hnone
      · next hrelays =>
          have hstart := adopted_start env vault
          obtain ⟨hstandsRelay, hextRelay⟩ := migrateKeys_stands hstart hfresh 0 hrelays
          obtain ⟨hstandsObfs, hextObfs⟩ :=
            migrateKeys_stands (hstart.keys 0 draft.relayKeys) hfresh 0 hnone
          refine ⟨_, _, rfl, ?_, hstandsObfs, ?_, ?_⟩
          · exact hstandsRelay.imp fun _ _ hkey => hkey.mono hextObfs
          · exact fun id value hvalue => hextObfs id value (hextRelay id value hvalue)
          · simpa only [hrelays] using hadopted

end Success

/-- Nothing is lost when the keys of a draft are moved. -/
structure Lossless (draft : Draft) (vault : Vault) (inserted : List SecretId) (draft' : Draft)
    (vault' : Vault) : Prop where
  restores : materializeForApply draft' vault' =
    .ok (draft.withKeys (draft.relayKeys.map vault.expand) (draft.obfsConf.keys.map vault.expand))
  noPlaintext : ∀ key ∈ draft'.relayKeys ++ draft'.obfsConf.keys, key = [] ∨ IsReference key
  inserted_unused : ∀ i ∈ inserted, vault i.value = none
  kept : ∀ id, (∀ i ∈ inserted, i.value ≠ id) → vault' id = vault id

/-- A migration is lossless just when the listener has no empty key. -/
theorem migration_lossless_iff (env : VaultEnv) (draft : Draft) (vault : Vault)
    (hfresh : FreshUuids env vault)
    (hresolves : ∀ key ∈ draft.relayKeys ++ draft.obfsConf.keys, vault.Resolves key)
    {inserted : List SecretId} {draft' : Draft} {vault' : Vault}
    (h : migrateLegacySecrets env draft vault = (.ok inserted, draft', vault')) :
    Lossless draft vault inserted draft' vault' ↔ [] ∉ draft.obfsConf.keys := by
  obtain ⟨relayKeys, obfsKeys, rfl, hrelay, hobfs, hext, hadopted⟩ :=
    migrateLegacySecrets_ok hfresh h
  obtain ⟨hresolvesRelay, hresolvesObfs⟩ := List.forall_mem_append.mp hresolves
  have hlen := hrelay.length_eq.symm
  constructor
  · intro hlossless hempty
    have hrestores := hlossless.restores
    rw [materializeForApply_withKeys hlen] at hrestores
    obtain ⟨_, -, hrest⟩ := bind_eq_ok.mp hrestores
    obtain ⟨values, hvalues, -⟩ := bind_eq_ok.mp hrest
    exact materializeKeys_of_empty (stands_empty hobfs hempty) 0 values hvalues
  · intro hne
    refine ⟨?_, ?_, hadopted.inserted_unused hfresh.unused, hadopted.kept⟩
    · have hrelayKeys : materializeKeys vault' .relay 0 relayKeys = _ :=
        materializeKeys_of_stands hrelay hext hresolvesRelay (fun hkind => by cases hkind) 0
      have hobfsKeys : materializeKeys vault' .obfs 0 obfsKeys = _ :=
        materializeKeys_of_stands hobfs hext hresolvesObfs (fun _ => hne) 0
      rw [materializeForApply_withKeys hlen, hrelayKeys, hobfsKeys]
      rfl
    · rw [relayKeys_withKeys hlen]
      exact List.forall_mem_append.mpr ⟨stands_reference hrelay, stands_reference hobfs⟩

theorem countingEnv_fresh (full : Nat) : FreshUuids (countingEnv full) primaryVault where
  distinct m n heq := by
    have hlen := congrArg List.length heq
    rwa [countingEnv, List.length_replicate, List.length_replicate] at hlen
  unused := primaryVault_unused full

/-- An empty relay key, a reference and two keys in plain text. -/
theorem migration_lossless_mixed_keys :
    ∃ inserted draft' vault', migrateLegacySecrets (countingEnv 2)
        (keyedDraft [[], "vault://relay.primary".toList, "k1".toList] ["k2".toList])
        primaryVault = (.ok inserted, draft', vault') ∧
      Lossless (keyedDraft [[], "vault://relay.primary".toList, "k1".toList] ["k2".toList])
        primaryVault inserted draft' vault' := by
  have hnone : (migrateDraft (countingEnv 2)
      (keyedDraft [[], "vault://relay.primary".toList, "k1".toList] ["k2".toList])
      primaryVault).1 = none := by
    decide
  have h := migrateLegacySecrets.eq_1 (countingEnv 2)
    (keyedDraft [[], "vault://relay.primary".toList, "k1".toList] ["k2".toList]) primaryVault
  simp only [hnone] at h
  refine ⟨_, _, _, h, (migration_lossless_iff _ _ _ (countingEnv_fresh 2) ?_ h).mpr (by decide)⟩
  intro key hkey id hid
  have hid' := stripPrefix_eq_some.mpr hid
  have hall : ∀ key ∈ [[], "vault://relay.primary".toList, "k1".toList] ++ ["k2".toList],
      ∀ id ∈ stripPrefix key vaultScheme, (primaryVault.text id).isSome = true := by
    decide
  exact hall key hkey id hid'

/-- An empty key of the listener is migrated, and then the draft cannot be
applied. -/
theorem empty_obfs_key_not_applied :
    FreshUuids (countingEnv 2) primaryVault ∧
      migrateLegacySecrets (countingEnv 2) (keyedDraft [] [[]]) primaryVault =
        (.ok [], keyedDraft [] [[]], primaryVault) ∧
      materializeForApply (keyedDraft [] [[]]) primaryVault =
        .error (.ofField "secret_reference_required".toList
          "Secrets must be stored in the credential vault".toList "obfsKeys.0".toList) := by
  refine ⟨countingEnv_fresh 2, rfl, ?_⟩
  decide

end DnsRelay.Gui
