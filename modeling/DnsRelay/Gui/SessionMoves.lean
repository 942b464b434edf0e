import DnsRelay.Gui.VaultKeys

/-!
# What a session can do

`Move` has one rule for every way a step of a session can end, with all that the
command has checked before.  `step_move` says that these are all.  What a session
keeps is then shown rule by rule, and no command is looked at again.

A command that fails leaves the session as it was, with two exceptions.  A
migration that fails has changed the vault and changed it back.  And a request
may be lost on its way back, or the state of the service cannot be read after it.
The application then does not know what it has done.  Such a fate is not
`Faithful`.
-/

namespace DnsRelay.Gui

open Lib

/-- The application learns what a request has done. -/
structure Fate.Faithful {Text : Type} (fate : Fate Text) : Prop where
  told : ∀ error config running, fate.reply ≠ .lost error config running
  reported : fate.reply = .done → fate.status = .ok ()

def SessionAct.fate {Text : Type} : SessionAct Text → Option (Fate Text)
  | .applyDraft _ fate | .installService _ fate | .adoptService _ fate | .serviceAction _ fate =>
      some fate
  | _ => none

def SessionAct.stores {Text : Type} : SessionAct Text → Option Str
  | .generateSecret kind uuid _ _ => some (storedId kind uuid)
  | .storeRelayKey uuid _ _ => some (storedId .relay uuid)
  | _ => none

/-- The draft `materialized` has the keys of `draft` from the vault, and
`configToml` is its text. -/
structure Made {Text : Type} (T : TomlCrate Text) (vault : Vault) (draft materialized : Draft)
    (configToml : Text) : Prop where
  keys : materializeForApply draft vault = .ok materialized
  reads : T.fromStr configToml = .ok materialized.toToml

section Moves

variable {Text : Type} [DecidableEq Text] (P : Session.Setup Text) (s : Session Text)

inductive Move : SessionAct Text → Session Text → Prop where
  | skip (act : SessionAct Text) : Move act s
  | unknown {act : SessionAct Text} {fate : Fate Text} (isFate : act.fate = some fate)
      (unfaithful : ¬ fate.Faithful) (config : Option Text) (running : Option Running) :
      Move act { s with config, running }
  | applied {saved draft materialized : Draft} {configToml : Text} (fate : Fate Text)
      (known : s.draft = some saved) (valid : requireValidDraft P.hostFromUrl draft = .ok ())
      (made : Made P.toml s.vault draft materialized configToml)
      (checked : (loadConf P.toml configToml).isSome = true) :
      Move (.applyDraft draft fate)
        { Gui.applied P.toml configToml (configChangeRequiresRestart P.toml (some saved) draft) s
          with draft := some draft }
  | installed {draft materialized : Draft} {configToml : Text} (fate : Fate Text)
      (valid : requireValidDraft P.hostFromUrl draft = .ok ())
      (made : Made P.toml s.vault draft materialized configToml) :
      Move (.installService draft fate)
        { Gui.installed P.toml P.platform configToml s with
          draft := some draft, recoveryRequired := false }
  | adopted {env : VaultEnv} {conf draft : Draft} {vault : Vault} {inserted : List SecretId}
      (fate : Fate Text) (loads : s.config.bind (loadConf P.toml) = some conf)
      (migrated : migrateLegacySecrets env conf s.vault = (.ok inserted, draft, vault)) :
      Move (.adoptService env fate)
        { s.record vault with draft := some draft, recoveryRequired := false }
  | notAdopted {env : VaultEnv} {conf draft : Draft} {vault : Vault} {error : CommandError}
      (fate : Fate Text) (migrated : migrateLegacySecrets env conf s.vault =
        (.error error, draft, vault)) :
      Move (.adoptService env fate) (s.record vault)
  | repaired {draft materialized : Draft} {configToml : Text} (fate : Fate Text)
      (known : s.draft = some draft ∨
        s.draft = none ∧ s.recoveryRequired = true ∧ draft = starterDraft)
      (made : Made P.toml s.vault draft materialized configToml) :
      Move (.serviceAction .repair fate)
        { Gui.repaired P.toml configToml s with recoveryRequired := false }
  | acted {action : ServiceAction} (fate : Fate Text) (recoveryRequired : Bool) :
      Move (.serviceAction action fate)
        { Gui.acted P.toml P.platform action s with recoveryRequired }
  | stored {act : SessionAct Text} {kind : SecretKind} {uuid value : Str}
      (isId : act.stores = some (storedId kind uuid))
      (valid : isSecretId (storedId kind uuid) = true) (plain : IsPlain value) :
      Move act (s.record (s.vault.put ⟨storedId kind uuid, valid⟩ (utf8 value)))
  | deleted {reference : Str} (fault : Option CommandError) (id : SecretId) :
      Move (.deleteSecret reference fault) { s with vault := s.vault.delete id }
  | relaunched (files : InstallFiles) :
      Move (.relaunch files) (Gui.relaunch P.platform files s)
  | reloaded {running : Running} {conf : Draft} (isRunning : s.running = some running)
      (loads : s.config.bind (loadConf P.toml) = some conf) :
      Move .reload { s with running := some (running.reload conf) }
  | exited : Move .exit { s with running := none }
  | revived : Move .revive { s with running := startService P.toml s.config }

end Moves

/-! ## Requests -/

section Requests

variable {Text : Type} {T : TomlCrate Text} {s : Session Text}

/-- How a request ends that only changes the installation. -/
theorem submit_cases {change : Session Text → Session Text} (fate : Fate Text)
    (hchange : ∃ config running, change s = { s with config, running }) :
    (∃ error, submit change fate s = (.error error, s)) ∨
      (¬ fate.Faithful ∧ ∃ error config running,
        submit change fate s = (.error error, { s with config, running })) ∨
      submit change fate s = (.ok (), change s) := by
  rw [submit]
  cases hreply : fate.reply with
  | refused error => exact .inl ⟨error, rfl⟩
  | lost error config running =>
      exact .inr (.inl ⟨fun h => h.told error config running hreply, error, config, running, rfl⟩)
  | done =>
      cases hstatus : fate.status with
      | ok _ => exact .inr (.inr rfl)
      | error error =>
          obtain ⟨config, running, heq⟩ := hchange
          refine .inr (.inl ⟨fun h => ?_, error, config, running, ?_⟩)
          · cases hstatus.symm.trans (h.reported hreply)
          · rw [← heq]
            rfl

theorem loadConf_eq_some {configToml : Text} {conf : Draft} :
    loadConf T configToml = some conf ↔ ∃ document, T.fromStr configToml = .ok document ∧
      Draft.fromToml document = some conf ∧ conf.toConf.validate = .ok () := by
  constructor
  · intro h
    obtain ⟨document, hread, hrest⟩ := Option.bind_eq_some_iff.mp h
    obtain ⟨conf', hconf, hchecked⟩ := Option.bind_eq_some_iff.mp hrest
    cases hvalid : conf'.toConf.validate with
    | error error =>
        rw [hvalid] at hchecked
        cases hchecked
    | ok _ =>
        rw [hvalid] at hchecked
        cases hchecked
        exact ⟨document, toOption_eq_some.mp hread, hconf, hvalid⟩
  · rintro ⟨document, hread, hconf, hvalid⟩
    refine Option.bind_eq_some_iff.mpr ⟨document, toOption_eq_some.mpr hread,
      Option.bind_eq_some_iff.mpr ⟨conf, hconf, ?_⟩⟩
    rw [hvalid]

/-- A draft that gets its keys has a text. -/
theorem configForAdmin_cases (draft : Draft) (s : Session Text) :
    (∃ error, configForAdmin T draft s = (.error error, s)) ∨
      ∃ materialized configToml, configForAdmin T draft s = (.ok configToml, s) ∧
        Made T s.vault draft materialized configToml := by
  rw [configForAdmin, Effect.read_bind, Effect.ofExcept_bind]
  cases hkeys : materializeForApply draft s.vault with
  | error error => exact .inl ⟨error, rfl⟩
  | ok materialized =>
      obtain ⟨configToml, hwrite, hread⟩ := T.round_trip materialized
      refine .inr ⟨materialized, configToml, ?_, hkeys, hread⟩
      show Effect.ofExcept _ s = _
      rw [hwrite]
      rfl

end Requests

/-! ## Commands -/

section Commands

variable {Text : Type} [DecidableEq Text] {P : Session.Setup Text} {s : Session Text}

/-- A request, and what the application notes when it was done. -/
theorem move_submit {act : SessionAct Text} {fate : Fate Text} (hfate : act.fate = some fate)
    {change : Session Text → Session Text} {m : Unit → Effect (Session Text) CommandError Unit}
    (hchange : ∃ config running, change s = { s with config, running })
    (hdone : Move P s act (m () (change s)).2) :
    Move P s act ((submit change fate >>= m) s).2 := by
  rcases submit_cases fate hchange with ⟨error, h⟩ | ⟨hlost, error, config, running, h⟩ | h
  · rw [Effect.bind_error h]
    exact .skip act
  · rw [Effect.bind_error h]
    exact .unknown hfate hlost config running
  · rw [Effect.bind_ok h]
    exact hdone

theorem move_ofExcept {α : Type} {act : SessionAct Text} {r : Except CommandError α}
    {m : α → Effect (Session Text) CommandError Unit}
    (hok : ∀ a, r = .ok a → Move P s act (m a s).2) :
    Move P s act ((Effect.ofExcept r >>= m) s).2 := by
  rw [Effect.ofExcept_bind]
  cases hr : r with
  | ok a => exact hok a hr
  | error error => exact .skip act

/-- The text of a configuration comes first. -/
theorem move_configForAdmin {act : SessionAct Text} {draft : Draft}
    {m : Text → Effect (Session Text) CommandError Unit}
    (hok : ∀ materialized configToml, Made P.toml s.vault draft materialized configToml →
      Move P s act (m configToml s).2) :
    Move P s act ((configForAdmin P.toml draft >>= m) s).2 := by
  rcases configForAdmin_cases (T := P.toml) draft s with ⟨error, h⟩ | ⟨materialized, text, h, hmade⟩
  · rw [Effect.bind_error h]
    exact .skip act
  · rw [Effect.bind_ok h]
    exact hok materialized text hmade

theorem move_applyDraft (draft : Draft) (fate : Fate Text) :
    Move P s (.applyDraft draft fate) (applyDraft P.hostFromUrl P.toml draft fate s).2 := by
  rw [applyDraft, Effect.read_bind]
  cases hsaved : s.draft with
  | none => exact .skip _
  | some saved =>
      refine move_ofExcept fun _ hvalid => move_ofExcept fun _ _ =>
        move_configForAdmin fun materialized configToml hmade => ?_
      cases hloads : loadConf P.toml configToml with
      | none => exact .skip _
      | some conf =>
          refine move_submit rfl ⟨_, _, rfl⟩ ?_
          exact .applied fate hsaved hvalid hmade (Option.isSome_iff_exists.mpr ⟨conf, hloads⟩)

theorem move_installService (draft : Draft) (fate : Fate Text) :
    Move P s (.installService draft fate)
      (installService P.hostFromUrl P.toml P.platform draft fate s).2 := by
  rw [installService]
  refine move_ofExcept fun _ hvalid => move_ofExcept fun _ _ =>
    move_configForAdmin fun materialized configToml hmade => ?_
  refine move_submit rfl ⟨_, _, rfl⟩ ?_
  exact .installed fate hvalid hmade

theorem move_adoptService (env : VaultEnv) (fate : Fate Text) :
    Move P s (.adoptService env fate) (adoptService P.toml env fate s).2 := by
  rw [adoptService]
  refine move_ofExcept fun _ _ => ?_
  rw [Effect.read_bind]
  cases hconfig : s.config with
  | none => exact .skip _
  | some configToml =>
      refine move_ofExcept fun document hdocument => ?_
      cases hconf : Draft.fromToml document with
      | none => exact .skip _
      | some conf =>
          refine move_ofExcept fun _ hvalid => ?_
          rw [Effect.read_bind]
          rcases hmigrated : migrateLegacySecrets env conf s.vault with ⟨result, draft, vault⟩
          cases result with
          | error error => exact .notAdopted fate hmigrated
          | ok inserted =>
              refine .adopted fate ?_ hmigrated
              rw [hconfig, Option.bind_some, loadConf_eq_some]
              exact ⟨document, mapError_eq_ok.mp hdocument, hconf, mapError_eq_ok.mp hvalid⟩

theorem move_serviceAction (action : ServiceAction) (fate : Fate Text) :
    Move P s (.serviceAction action fate) (serviceAction P.toml P.platform action fate s).2 := by
  cases action with
  | repair =>
      have hrepair : ∀ draft, (s.draft = some draft ∨
          s.draft = none ∧ s.recoveryRequired = true ∧ draft = starterDraft) →
          Move P s (.serviceAction .repair fate) ((do
            let configToml ← configForAdmin P.toml draft
            Effect.ofExcept fate.prepared
            submit (repaired P.toml configToml) fate
            Effect.modify ({ · with recoveryRequired := false })) s).2 := by
        intro draft hknown
        refine move_configForAdmin fun materialized configToml hmade => move_ofExcept fun _ _ =>
          move_submit rfl ⟨_, _, rfl⟩ ?_
        exact .repaired fate hknown hmade
      rw [serviceAction, Effect.read_bind, Effect.read_bind]
      cases hdraft : s.draft with
      | some draft => exact hrepair draft (.inl hdraft)
      | none =>
          cases hrecovery : s.recoveryRequired with
          | true => exact hrepair starterDraft (.inr ⟨hdraft, hrecovery, rfl⟩)
          | false => exact .skip _
  | start => exact move_ofExcept fun _ _ => move_submit rfl ⟨_, _, rfl⟩ (.acted fate _)
  | stop => exact move_ofExcept fun _ _ => move_submit rfl ⟨_, _, rfl⟩ (.acted fate _)
  | restart => exact move_ofExcept fun _ _ => move_submit rfl ⟨_, _, rfl⟩ (.acted fate _)
  | uninstall => exact move_ofExcept fun _ _ => move_submit rfl ⟨_, _, rfl⟩ (.acted fate false)

theorem move_storeSecret {act : SessionAct Text} {kind : SecretKind} {uuid value : Str}
    (hid : act.stores = some (storedId kind uuid)) (hplain : IsPlain value)
    (putFault : Option CommandError) :
    Move P s act (storeSecret kind uuid value putFault s).2 := by
  rw [storeSecret]
  split
  · next hvalid =>
      cases putFault with
      | some error => exact .skip act
      | none => exact .stored hid hvalid hplain
  · exact .skip act

theorem move_deleteSecret (reference : Str) (fault : Option CommandError) :
    Move P s (.deleteSecret reference fault) (deleteSecret reference fault s).2 := by
  rw [deleteSecret]
  refine move_ofExcept fun id _ => ?_
  cases fault with
  | some error => exact .skip _
  | none => exact .deleted none id

end Commands

/-! ## Steps -/

section Steps

variable {Text : Type} [DecidableEq Text] {P : Session.Setup Text}

/-- A key of the application has no colon. -/
theorem isPlain_generateRelayKey (bytes : { b : Bytes // b.length = 32 }) :
    IsPlain (generateRelayKey bytes) := by
  refine Option.eq_none_iff_forall_ne_some.mpr fun id hid => ?_
  have hcolon : ':' ∈ generateRelayKey bytes := by
    rw [stripPrefix_eq_some.mp hid]
    exact List.mem_append_left _ (by decide)
  rcases Base64.mem_encode hcolon with ⟨n, hn⟩ | hpad
  · have hnone : Base64.value ':' = none := by decide
    cases hnone.symm.trans hn
  · cases hpad

/-- A step ends in one of these ways. -/
theorem step_move (s : Session Text) (act : SessionAct Text) : Move P s act (s.step P act) := by
  cases act with
  | applyDraft draft fate => exact move_applyDraft draft fate
  | installService draft fate => exact move_installService draft fate
  | adoptService env fate => exact move_adoptService env fate
  | serviceAction action fate => exact move_serviceAction action fate
  | generateSecret kind uuid bytes putFault =>
      exact move_storeSecret rfl (isPlain_generateRelayKey bytes) putFault
  | storeRelayKey uuid value putFault =>
      refine move_ofExcept fun key hkey => ?_
      obtain ⟨bytes, rfl, -⟩ := (loadKeyFromStr_eq_ok P.keys).mp (mapError_eq_ok.mp hkey)
      exact move_storeSecret rfl (isPlain_generateRelayKey bytes) putFault
  | deleteSecret reference fault => exact move_deleteSecret reference fault
  | relaunch files => exact .relaunched files
  | reload =>
      rw [Session.step]
      split
      · next running conf hrunning hloads => exact .reloaded hrunning hloads
      · exact .skip _
  | exit => exact .exited
  | revive => exact .revived

end Steps

end DnsRelay.Gui
