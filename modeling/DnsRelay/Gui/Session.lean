import DnsRelay.Admin.Lifecycle
import DnsRelay.Gui.ConfigRoundTrip
import DnsRelay.Gui.Secrets
import DnsRelay.Lib.Effect
import DnsRelay.Lib.Machine
import DnsRelay.Relay.DirectRelay
import DnsRelay.Shared.DomainTrie

/-!
# The desktop application and the service

The application has a draft.  It shows keys by reference only.  The keys are in
the credential vault, and a configuration gets them on its way to the privileged
helper.  The helper installs the configuration and starts, stops or restarts the
service.  A running service reads the rules again when the file changes, whatever
`hotreload_conf` says, and keeps the rest until it is restarted.  The application
restarts it where `hotreload_conf` is off or more than the rules has changed.

`Session` has all of this.  The commands of the application are computations over
it.  What a request changes is one step here, and `Requests` compares it with the
helper.  What the helper reports and what it has done may be two things: a command
that fails may have changed the installation (`Reply.lost`).

The session also has a record of all keys that were ever in the vault.
-/

namespace DnsRelay.Gui

open Lib

/-! ## The service -/

def Draft.withoutRules (draft : Draft) : Draft := { draft with dropList := [], redirectList := [] }

structure Running where
  /-- What it was started with, but for the rules. -/
  settings : Draft
  dropList : List Str
  redirectList : List (Str × Str)
deriving DecidableEq, Repr

def Running.start (conf : Draft) : Running :=
  ⟨conf.withoutRules, conf.dropList, conf.redirectList⟩

/-- The service after a tick of `watch_conf_and_reload`, which has found this
configuration. -/
def Running.reload (running : Running) (conf : Draft) : Running :=
  { running with dropList := conf.dropList, redirectList := conf.redirectList }

def Running.ruleTrie (U : CaseTable) (files : Str → Option Str) (running : Running) : DomainTrie :=
  DomainTrie.build U files running.dropList running.redirectList

/-! ## The session -/

section Session

variable (Text : Type)

/-- The application, the vault and the installation. -/
structure Session where
  /-- `draft` of `BackendState`. -/
  draft : Option Draft
  /-- `recovery_required` of `BackendState`. -/
  recoveryRequired : Bool
  /-- `secrets` of `BackendState`. -/
  vault : Vault
  /-- The keys that were ever in the vault. -/
  minted : Vault
  config : Option Text
  running : Option Running

/-- How a request to the helper ends. -/
inductive Reply where
  | done
  | refused (error : CommandError)
  /-- It fails, and this is what is installed and running now. -/
  | lost (error : CommandError) (config : Option Text) (running : Option Running)

/-- What the outside does during a command. -/
structure Fate where
  /-- What comes before the request: whether the binaries are there and fit. -/
  prepared : Except CommandError Unit
  /-- What `check_conf` says of a configuration that cannot be loaded. -/
  checkFailure : Str
  reply : Reply Text
  /-- `current_service_state` after it. -/
  status : Except CommandError Unit

end Session

inductive ServiceAction where
  | start
  | stop
  | restart
  | uninstall
  | repair
deriving DecidableEq, Repr

/-- `adoption_required`. -/
def adoptionRequired : CommandError :=
  .new "adoption_required".toList "Existing configuration must be adopted before editing".toList

section Commands

variable (hostFromUrl : Str → Option Str) {Text : Type} [DecidableEq Text] (T : TomlCrate Text)
  (platform : Admin.Platform)

/-- `load_conf`. -/
def loadConf (configToml : Text) : Option Draft := do
  let document ← (T.fromStr configToml).toOption
  let conf ← Draft.fromToml document
  match conf.toConf.validate with
  | .ok () => some conf
  | .error _ => none

def startService (config : Option Text) : Option Running :=
  (config.bind (loadConf T)).map Running.start

/-- `config_change_requires_restart`. -/
def configChangeRequiresRestart (saved : Option Draft) (draft : Draft) : Bool :=
  if !draft.hotreloadConf.enable then true
  else
    match saved with
    | none => true
    | some saved =>
        decide ((T.toStringPretty saved.withoutRules.toToml).toOption ≠
          (T.toStringPretty draft.withoutRules.toToml).toOption)

/-- `config_for_admin`. -/
def configForAdmin (draft : Draft) : Effect (Session Text) CommandError Text := do
  let vault ← Effect.read Session.vault
  let materialized ← Effect.ofExcept (materializeForApply draft vault)
  Effect.ofExcept ((T.toStringPretty materialized.toToml).mapError (.new "invalid_config".toList))

/-- `request_admin_with_paths` for something that changes the installation, and
`current_service_state` after it. -/
def submit (change : Session Text → Session Text) (fate : Fate Text) :
    Effect (Session Text) CommandError Unit := do
  match fate.reply with
  | .done => Effect.modify change
  | .refused error => Effect.ofExcept (.error error)
  | .lost error config running =>
      Effect.modify ({ · with config, running })
      Effect.ofExcept (.error error)
  Effect.ofExcept fate.status

/-- What `apply_config` changes. -/
def applied (configToml : Text) (restart : Bool) (s : Session Text) : Session Text :=
  { s with
    config := some configToml
    running :=
      if restart then s.running.bind fun _ => startService T (some configToml) else s.running }

/-- What an installation changes.  `systemctl start` leaves a service alone that
runs already. -/
def installed (configToml : Text) (s : Session Text) : Session Text :=
  { s with
    config := some configToml
    running :=
      match platform, s.running with
      | .linux, some running => some running
      | .linux, none | .macos, _ => startService T (some configToml) }

/-- What a repair changes.  A configuration that is there stays. -/
def repaired (configToml : Text) (s : Session Text) : Session Text :=
  let config := s.config.or (some configToml)
  { s with config, running := startService T config }

def acted (action : ServiceAction) (s : Session Text) : Session Text :=
  match action with
  | .start =>
      { s with
        running :=
          match platform, s.running with
          | .linux, some running => some running
          | .linux, none | .macos, _ => startService T s.config }
  | .restart => { s with running := startService T s.config }
  | .stop | .uninstall | .repair => { s with running := none }

/-! ## Commands -/

/-- `apply_draft`. -/
def applyDraft (draft : Draft) (fate : Fate Text) : Effect (Session Text) CommandError Unit := do
  let saved ← Effect.read Session.draft
  if saved.isNone then Effect.ofExcept (.error adoptionRequired)
  Effect.ofExcept (requireValidDraft hostFromUrl draft)
  let restart := configChangeRequiresRestart T saved draft
  Effect.ofExcept fate.prepared
  let configToml ← configForAdmin T draft
  -- the helper has the staged file checked by the installed resolver
  if (loadConf T configToml).isNone then
    Effect.ofExcept (.error (.new "admin_failed".toList fate.checkFailure))
  submit (applied T configToml restart) fate
  Effect.modify ({ · with draft := some draft })

/-- `install_service`. -/
def installService (draft : Draft) (fate : Fate Text) :
    Effect (Session Text) CommandError Unit := do
  Effect.ofExcept (requireValidDraft hostFromUrl draft)
  Effect.ofExcept fate.prepared
  let configToml ← configForAdmin T draft
  submit (installed T platform configToml) fate
  Effect.modify ({ · with draft := some draft, recoveryRequired := false })

def Session.record (s : Session Text) (vault : Vault) : Session Text :=
  { s with vault, minted := fun id => (vault id).or (s.minted id) }

/-- `adopt_service`, for the identifiers that are drawn. -/
def adoptService (env : VaultEnv) (fate : Fate Text) : Effect (Session Text) CommandError Unit := do
  Effect.ofExcept fate.prepared
  match ← Effect.read Session.config with
  | none => Effect.ofExcept (.error (.new "admin_failed".toList Admin.notFound))
  | some configToml =>
      let document ← Effect.ofExcept
        ((T.fromStr configToml).mapError (.new "invalid_installed_config".toList))
      match Draft.fromToml document with
      | none =>
          Effect.ofExcept
            (.error (.new "invalid_installed_config".toList (T.describe document)))
      | some conf =>
          Effect.ofExcept (conf.toConf.validate.mapError fun error =>
            .new "invalid_installed_config".toList (validationText error))
          let vault ← Effect.read Session.vault
          let (result, draft, vault) := migrateLegacySecrets env conf vault
          Effect.modify (·.record vault)
          let _ ← Effect.ofExcept result
          Effect.modify ({ · with draft := some draft, recoveryRequired := false })

/-- `service_action`. -/
def serviceAction (action : ServiceAction) (fate : Fate Text) :
    Effect (Session Text) CommandError Unit := do
  match action with
  | .repair =>
      let draft ← Effect.read Session.draft
      let recoveryRequired ← Effect.read Session.recoveryRequired
      match draft.or (if recoveryRequired then some starterDraft else none) with
      | none => Effect.ofExcept (.error adoptionRequired)
      | some draft =>
          let configToml ← configForAdmin T draft
          Effect.ofExcept fate.prepared
          submit (repaired T configToml) fate
  | .start | .stop | .restart | .uninstall =>
      Effect.ofExcept fate.prepared
      submit (acted T platform action) fate
  if action = .repair ∨ action = .uninstall then
    Effect.modify ({ · with recoveryRequired := false })

/-- The identifier of a key that is made or entered in the application. -/
def storedId (kind : SecretKind) (uuid : Str) : Str := kind.text ++ '.' :: uuid

def storeSecret (kind : SecretKind) (uuid value : Str) (putFault : Option CommandError) :
    Effect (Session Text) CommandError Unit := do
  if h : isSecretId (storedId kind uuid) = true then
    Effect.check putFault
    Effect.modify fun s => s.record (s.vault.put ⟨storedId kind uuid, h⟩ (utf8 value))
  else Effect.ofExcept (.error (.new "secret_failed".toList "secret ID is invalid".toList))

/-- `generate_secret`, for the bytes that the random generator supplies. -/
def generateSecret (kind : SecretKind) (uuid : Str) (bytes : { b : Bytes // b.length = 32 })
    (putFault : Option CommandError) : Effect (Session Text) CommandError Unit :=
  storeSecret kind uuid (generateRelayKey bytes) putFault

/-- `store_relay_key`. -/
def storeRelayKey {C : RelayCrypto} (K : RelayKeys C) (describe : Error → Str) (uuid value : Str)
    (putFault : Option CommandError) : Effect (Session Text) CommandError Unit := do
  let _ ← Effect.ofExcept ((loadKeyFromStr K value).mapError fun error =>
    .new "invalid_relay_key".toList (describe error))
  storeSecret .relay uuid value putFault

/-- `delete_secret`. -/
def deleteSecret (reference : Str) (fault : Option CommandError) :
    Effect (Session Text) CommandError Unit := do
  let id ← Effect.ofExcept (secretIdFromReference reference)
  Effect.check fault
  Effect.modify fun s => { s with vault := s.vault.delete id }

/-! ## The start of the application -/

/-- The installed files, but for the configuration. -/
structure InstallFiles where
  resolver : Bool
  admin : Bool
  service : Bool
  policy : Bool
deriving DecidableEq, Repr

/-- `draft_for_install_files`. -/
def draftForInstallFiles (installationPresent installationComplete configPresent : Bool) :
    Option Draft × Bool :=
  if !installationPresent then (some starterDraft, false)
  else if !installationComplete then (if configPresent then none else some starterDraft, true)
  else (none, false)

/-- `BackendState::default`. -/
def relaunch (files : InstallFiles) (s : Session Text) : Session Text :=
  let config := s.config.isSome
  let linux := decide (platform = .linux)
  let (draft, recoveryRequired) := draftForInstallFiles
    (files.resolver || files.admin || config || files.service || linux && files.policy)
    (files.resolver && files.admin && config && files.service && (!linux || files.policy))
    config
  { s with draft, recoveryRequired }

end Commands

/-! ## The machine -/

inductive SessionAct (Text : Type) where
  | applyDraft (draft : Draft) (fate : Fate Text)
  | installService (draft : Draft) (fate : Fate Text)
  | adoptService (env : VaultEnv) (fate : Fate Text)
  | serviceAction (action : ServiceAction) (fate : Fate Text)
  | generateSecret (kind : SecretKind) (uuid : Str) (bytes : { b : Bytes // b.length = 32 })
      (putFault : Option CommandError)
  | storeRelayKey (uuid value : Str) (putFault : Option CommandError)
  | deleteSecret (reference : Str) (fault : Option CommandError)
  | relaunch (files : InstallFiles)
  | reload
  | exit
  | revive

namespace Session

structure Setup (Text : Type) where
  hostFromUrl : Str → Option Str
  toml : TomlCrate Text
  platform : Admin.Platform
  crypto : RelayCrypto
  keys : RelayKeys crypto
  describe : Error → Str

section Machine

variable {Text : Type} [DecidableEq Text] (P : Setup Text)

def step (s : Session Text) : SessionAct Text → Session Text
  | .applyDraft draft fate => (Gui.applyDraft P.hostFromUrl P.toml draft fate s).2
  | .installService draft fate =>
      (Gui.installService P.hostFromUrl P.toml P.platform draft fate s).2
  | .adoptService env fate => (Gui.adoptService P.toml env fate s).2
  | .serviceAction action fate => (Gui.serviceAction P.toml P.platform action fate s).2
  | .generateSecret kind uuid bytes putFault => (Gui.generateSecret kind uuid bytes putFault s).2
  | .storeRelayKey uuid value putFault =>
      (Gui.storeRelayKey P.keys P.describe uuid value putFault s).2
  | .deleteSecret reference fault => (Gui.deleteSecret reference fault s).2
  | .relaunch files => Gui.relaunch P.platform files s
  | .reload =>
      match s.running, s.config.bind (loadConf P.toml) with
      | some running, some conf => { s with running := some (running.reload conf) }
      | _, _ => s
  | .exit => { s with running := none }
  | .revive => { s with running := startService P.toml s.config }

/-- The application is started for the first time, with an empty vault.  There
may be a configuration. -/
def fresh (config : Option Text) (files : InstallFiles) : Session Text :=
  Gui.relaunch P.platform files ⟨none, false, fun _ => none, fun _ => none, config, none⟩

def machine (config : Option Text) (files : InstallFiles) :
    Machine (Session Text) (SessionAct Text) :=
  ⟨fresh P config files, fun s a => some (step P s a)⟩

end Machine

end Session

end DnsRelay.Gui
