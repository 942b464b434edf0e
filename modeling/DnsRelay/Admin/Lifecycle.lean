import Mathlib.Data.Fintype.Basic
import DnsRelay.Admin.Install
import DnsRelay.Admin.Mailbox
import DnsRelay.Relay.AppsScript

/-!
# Installing, updating, repairing and uninstalling the service

`execute_action_with_helper` of the privileged helper, with the service managers
of Linux and macOS.  An installation is five files and what the service manager
is told.  The files are written one after the other, each by `atomic_replace`,
and the service definition comes after everything it names.  Uninstalling
removes the definition first and keeps the configuration.  `apply_config` replaces
the configuration alone, by way of a staged file and a backup.  Its code is that of
`Apply`, on the operations of this disk.

`ServiceFates` says what happens at each operation.  It is done, it fails, or the
helper is killed before it.  The log has every command that the service manager
was given, with the disk at that moment.  Other programs act between two actions of
the helper, not during one, so the resolver that is copied is the one whose hash was
checked, although it is read twice.
-/

namespace DnsRelay.Admin

open Lib

/-! ## Paths -/

/-- The files of an installation, with those that an apply makes. -/
inductive Target where
  | installedBinary
  | adminBinary
  | config
  | serviceDefinition
  | authorizationPolicy
  | backup
  | staged
deriving DecidableEq, Repr

instance : Fintype Target where
  elems := {.installedBinary, .adminBinary, .config, .serviceDefinition, .authorizationPolicy,
    .backup, .staged}
  complete t := by cases t <;> decide

structure ServicePaths where
  path : Target → Path
  logs : Str
  injective : Function.Injective path
  installing_ne : ∀ t t', installingPath (path t) ≠ path t'
  staged_eq : path .staged = stagingPath (path .config)

/-- `platform_paths` on Linux. -/
def linuxPath : Target → Path
  | .installedBinary => ⟨"/opt/dns-relay-gui".toList, "dns_relay".toList⟩
  | .adminBinary => ⟨"/opt/dns-relay-gui".toList, "dns_relay_admin".toList⟩
  | .config => ⟨"/opt/dns-relay-gui".toList, "conf.toml".toList⟩
  | .serviceDefinition => ⟨"/etc/systemd/system".toList, "dns-relay-gui.service".toList⟩
  | .authorizationPolicy =>
      ⟨"/usr/share/polkit-1/actions".toList, "com.dns-relay.gui.policy".toList⟩
  | .backup => ⟨"/opt/dns-relay-gui".toList, "conf.toml.bak".toList⟩
  | .staged => ⟨"/opt/dns-relay-gui".toList, ".conf.toml.staged".toList⟩

/-- `platform_paths` on macOS. -/
def macosPath : Target → Path
  | .installedBinary => ⟨"/Library/Application Support/DNS Relay".toList, "dns_relay".toList⟩
  | .adminBinary => ⟨"/Library/Application Support/DNS Relay".toList, "dns_relay_admin".toList⟩
  | .config => ⟨"/Library/Application Support/DNS Relay".toList, "conf.toml".toList⟩
  | .serviceDefinition => ⟨"/Library/LaunchDaemons".toList, "com.dns-relay.gui.plist".toList⟩
  | .authorizationPolicy =>
      ⟨"/Library/Application Support/DNS Relay".toList, "authorization.policy".toList⟩
  | .backup => ⟨"/Library/Application Support/DNS Relay".toList, "conf.toml.bak".toList⟩
  | .staged => ⟨"/Library/Application Support/DNS Relay".toList, ".conf.toml.staged".toList⟩

def linuxPaths : ServicePaths where
  path := linuxPath
  logs := "/var/log/dns-relay-gui".toList
  injective := by decide
  installing_ne := by decide
  staged_eq := rfl

def macosPaths : ServicePaths where
  path := macosPath
  logs := "/Library/Application Support/DNS Relay/logs".toList
  injective := by decide
  installing_ne := by decide
  staged_eq := rfl

/-! ## The service manager -/

inductive Platform where
  | linux
  | macos
deriving DecidableEq, Repr

/-- The commands to `systemctl` and `launchctl`. -/
inductive ServiceCommand where
  | daemonReload
  | enable
  | disable
  | start
  | stop
  | restart
  | bootout
  | bootstrap
deriving DecidableEq, Repr

/-- The files that are part of the helper. -/
structure Assets where
  /-- `UNIT`, or `PLIST`. -/
  definition : Bytes
  policy : Bytes

/-- The disk and what the service manager was told. -/
structure ServiceHost where
  disk : Disk
  /-- The commands, each with the disk when it was given. -/
  log : List (ServiceCommand × Disk)

inductive CommandFate where
  | done
  | unsuccessful
  | failed (text : Str)
  | killed
deriving DecidableEq, Repr

/-- How the wait for the service ends. -/
inductive HealthFate where
  | healthy
  | timedOut
  | killed
deriving DecidableEq, Repr

/-- What happens at the operations of `apply_config`. -/
structure ApplyFates where
  /-- `open` of the staged file. -/
  openStaged : Fate
  /-- `write_all` of the staged file. -/
  writeAll : Fate
  /-- How many bytes are written when that is not done. -/
  written : Nat
  /-- `sync_all` of the staged file. -/
  syncStaged : Fate
  /-- `fs::remove_file` of the staged file. -/
  removeStaged : Fate
  /-- `runner.check_conf`. -/
  checkConf : Except Stop Unit
  /-- `fs::copy` to the backup. -/
  copyBackup : Fate
  /-- The backup when that is not done. -/
  copied : Option InstalledFile
  /-- `set_private_permissions`. -/
  setPermissions : Fate
  /-- `open` of the backup. -/
  openBackup : Fate
  /-- `sync_all` of the backup. -/
  syncBackup : Fate
  /-- `fs::rename` of the staged file. -/
  renameStaged : Fate
  syncParent : Fate
  /-- `fs::rename` of the backup. -/
  restoreBackup : Fate
  /-- `fs::remove_file` of the live file. -/
  removeConfig : Fate
  /-- `sync_parent` in `rollback`. -/
  syncRestored : Fate
  /-- `service.restart()` or `service.stop()` in `rollback`. -/
  rollback : ServiceCommand → CommandFate
  /-- `service.start()` in `rollback`. -/
  rollbackStart : ServiceCommand → CommandFate

/-- What happens at each operation of an action. -/
structure ServiceFates where
  /-- `env::current_exe` of `execute_action`. -/
  currentExe : Fate
  /-- `fs::read` of the bundled resolver. -/
  readResolver : Fate
  /-- `service.status()`. -/
  status : Except Stop ServiceStatus
  root : Bool
  /-- `env::current_exe` of the service manager. -/
  locate : Fate
  /-- `create_dir_all` of the directory of the logs. -/
  createLogs : Fate
  /-- `fs::File::open` of the source of a copy. -/
  openSource : Target → Fate
  /-- `atomic_replace`. -/
  replace : Target → Fates
  /-- `remove_if_present`. -/
  remove : Target → Fate
  command : ServiceCommand → CommandFate
  /-- `read_to_string` of the configuration. -/
  readConfig : Fate
  /-- `wait_for_health`. -/
  health : HealthFate
  diagnostics : Option Str
  /-- `apply_config`. -/
  apply : ApplyFates

/-- Code of the helper. -/
abbrev Service (α : Type) : Type := Effect ServiceHost Stop α

def onDisk {α : Type} (m : Install α) : Service α := fun h =>
  ((m h.disk).1, { h with disk := (m h.disk).2 })

def Stop.goesOn : Stop → Bool
  | .failed _ => true
  | .killed => false

/-- `or_else`. -/
def orTry (m m' : Service Unit) : Service Unit := Effect.orElseIf Stop.goesOn m m'

/-- `map_err`. -/
def mapErr {α : Type} (f : AdminError → AdminError) (m : Service α) : Service α := fun h =>
  match m h with
  | (.error (.failed error), h') => (.error (.failed (f error)), h')
  | final => final

/-- `bundled_resolver`. -/
def bundledResolver (helper : Path) : Path := ⟨helper.dir, "dns_relay".toList⟩

/-- `u8::is_ascii_hexdigit`. -/
def isAsciiHexdigit (b : UInt8) : Bool :=
  (48 ≤ b && b ≤ 57) || (65 ≤ b && b ≤ 70) || (97 ≤ b && b ≤ 102)

/-- `verify_sha256`. -/
def verifySha256 (sha256 : Bytes → Bytes) (content : Bytes) (expected : Str) :
    Except AdminError Unit :=
  if (utf8 expected).length ≠ 64 ∨ (utf8 expected).all isAsciiHexdigit = false then
    .error (.operation "expected binary SHA-256 is invalid".toList)
  else if toAsciiLowercase (hexEncode (sha256 content)) = toAsciiLowercase expected then .ok ()
  else .error (.operation "bundled resolver SHA-256 does not match".toList)

section Code

variable (F : ServiceFates) (paths : ServicePaths)

def readSource (fate : Fate) (source : Path) : Service Bytes := do
  onDisk (meet fate)
  let file ← Effect.read fun h => h.disk.files source
  match file with
  | none => Effect.ofExcept (.error (.failed (.io notFound)))
  | some file => pure file.content

/-- `atomic_write`. -/
def atomicWrite (t : Target) (content : Bytes) (mode : Nat) : Service Unit :=
  onDisk (atomicReplace (F.replace t) (paths.path t) mode content)

/-- `atomic_copy`. -/
def atomicCopy (source : Path) (t : Target) (mode : Nat) : Service Unit := do
  let content ← readSource (F.openSource t) source
  atomicWrite F paths t content mode

/-- `remove_if_present`. -/
def removeIfPresent (t : Target) : Service Unit := do
  onDisk (meet (F.remove t))
  Effect.modify fun h => { h with disk := h.disk.put (paths.path t) none }

def Platform.program : Platform → Str
  | .linux => "/usr/bin/systemctl".toList
  | .macos => "/bin/launchctl".toList

def Platform.run (fates : ServiceCommand → CommandFate) (platform : Platform)
    (command : ServiceCommand) : Service Unit := fun h =>
  match fates command with
  | .done => (.ok (), { h with log := h.log ++ [(command, h.disk)] })
  | .unsuccessful =>
      (.error (.failed (.operation (platform.program ++ " failed".toList))),
        { h with log := h.log ++ [(command, h.disk)] })
  | .failed text => (.error (.failed (.io text)), h)
  | .killed => (.error .killed, h)

/-- `create_dir_all` of the directory of the logs. -/
def createLogs : Service Unit := do
  onDisk (meet F.createLogs)
  Effect.modify fun h => { h with disk := h.disk.withDir paths.logs }

/-- `require_root`. -/
def requireRoot (message : Str) : Service Unit :=
  Effect.check (if F.root then none else some (.failed (.operation message)))

variable (A : Assets) (helper : Path)

def copyBinaries : Service Unit := do
  atomicCopy F paths (bundledResolver helper) .installedBinary 0o755
  atomicCopy F paths helper .adminBinary 0o755

def writeConfig (configToml : Str) : Service Unit :=
  atomicWrite F paths .config (utf8 configToml) 0o600

/-- The configuration of a repair, which keeps one that is there. -/
def writeMissingConfig (configToml : Str) : Service Unit := do
  let found ← Effect.read fun h => (h.disk.files (paths.path .config)).isSome
  if found then pure () else writeConfig F paths configToml

def Platform.writeDefinition : Platform → Service Unit
  | .linux => do
      atomicWrite F paths .serviceDefinition A.definition 0o644
      atomicWrite F paths .authorizationPolicy A.policy 0o644
  | .macos => atomicWrite F paths .serviceDefinition A.definition 0o644

/-- `install_payload`. -/
def Platform.installPayload (platform : Platform) (configToml : Str) : Service Unit := do
  createLogs F paths
  copyBinaries F paths helper
  writeConfig F paths configToml
  platform.writeDefinition F paths A

/-- `repair_payload`. -/
def Platform.repairPayload (platform : Platform) (configToml : Str) : Service Unit := do
  createLogs F paths
  copyBinaries F paths helper
  writeMissingConfig F paths configToml
  platform.writeDefinition F paths A

/-- `require_root` and `env::current_exe`. -/
def Platform.authorize (platform : Platform) : Service Unit := do
  requireRoot F (match platform with
    | .linux => "Linux service changes require administrator authorization".toList
    | .macos => "macOS service changes require administrator authorization".toList)
  onDisk (meet F.locate)

end Code

namespace LinuxServiceManager

variable (F : ServiceFates) (paths : ServicePaths) (A : Assets) (helper : Path)

def run (fates : ServiceCommand → CommandFate) : ServiceCommand → Service Unit :=
  Platform.linux.run fates

def install (configToml : Str) : Service Unit := do
  Platform.linux.authorize F
  Platform.linux.installPayload F paths A helper configToml
  run F.command .daemonReload
  run F.command .enable
  run F.command .start

def update : Service Unit := do
  Platform.linux.authorize F
  copyBinaries F paths helper
  run F.command .daemonReload
  run F.command .restart

def repair (configToml : Str) : Service Unit := do
  Platform.linux.authorize F
  Platform.linux.repairPayload F paths A helper configToml
  run F.command .daemonReload
  run F.command .enable
  orTry (run F.command .restart) (run F.command .start)

def uninstall : Service Unit := do
  requireRoot F "Linux service changes require administrator authorization".toList
  orTry (run F.command .stop) (pure ())
  orTry (run F.command .disable) (pure ())
  removeIfPresent F paths .serviceDefinition
  removeIfPresent F paths .authorizationPolicy
  removeIfPresent F paths .installedBinary
  removeIfPresent F paths .adminBinary
  run F.command .daemonReload

end LinuxServiceManager

namespace MacosServiceManager

variable (F : ServiceFates) (paths : ServicePaths) (A : Assets) (helper : Path)

def run (fates : ServiceCommand → CommandFate) : ServiceCommand → Service Unit :=
  Platform.macos.run fates

def activate (fates : ServiceCommand → CommandFate) : Service Unit := do
  run fates .enable
  run fates .bootstrap
  run fates .restart

def install (configToml : Str) : Service Unit := do
  Platform.macos.authorize F
  orTry (run F.command .bootout) (pure ())
  Platform.macos.installPayload F paths A helper configToml
  activate F.command

def update : Service Unit := do
  Platform.macos.authorize F
  orTry (run F.command .bootout) (pure ())
  copyBinaries F paths helper
  activate F.command

def repair (configToml : Str) : Service Unit := do
  Platform.macos.authorize F
  orTry (run F.command .bootout) (pure ())
  Platform.macos.repairPayload F paths A helper configToml
  activate F.command

def uninstall : Service Unit := do
  requireRoot F "macOS service changes require administrator authorization".toList
  orTry (run F.command .bootout) (pure ())
  removeIfPresent F paths .serviceDefinition
  removeIfPresent F paths .installedBinary
  removeIfPresent F paths .adminBinary

def restart (fates : ServiceCommand → CommandFate) : Service Unit := do
  orTry (run fates .bootout) (pure ())
  activate fates

end MacosServiceManager

/-! ## Actions -/

section Actions

variable (sha256 : Bytes → Bytes) (parse : Str → Except Str Toml) (F : ServiceFates)
  (paths : ServicePaths) (A : Assets) (helper : Path)

/-- `service_error`. -/
def Platform.serviceError (platform : Platform) (error : AdminError) : AdminError :=
  match platform, F.diagnostics with
  | .linux, some diagnostics => .operation (error.display ++ "\n\n".toList ++ diagnostics)
  | _, _ => error

/-- `wait_for_health`. -/
def waitForHealth : Service Unit :=
  Effect.check (match F.health with
    | .healthy => none
    | .timedOut => some (.failed (.operation "service health check timed out".toList))
    | .killed => some .killed)

/-- `wait_for_configured_health`. -/
def Platform.waitForConfiguredHealth (platform : Platform) (configToml : Str) : Service Unit := do
  let config ← Effect.ofExcept ((parseConfig parse configToml).mapError Stop.failed)
  if exposesHttpHealth config then mapErr (platform.serviceError F) (waitForHealth F) else pure ()

/-- `read_to_string` of the live configuration. -/
def readConfig : Service Str := do
  let content ← readSource F.readConfig (paths.path .config)
  match fromUtf8 content with
  | none => Effect.ofExcept (.error (.failed (.io "stream did not contain valid UTF-8".toList)))
  | some text => pure text

/-- `wait_for_live_config_health`. -/
def Platform.waitForLiveConfigHealth (platform : Platform) : Service Unit := do
  let configToml ← readConfig F paths
  platform.waitForConfiguredHealth parse F configToml

/-- `verify_bundled_resolver`. -/
def verifyBundledResolver (expected : Str) : Service Unit := do
  let content ← readSource F.readResolver (bundledResolver helper)
  Effect.ofExcept ((verifySha256 sha256 content expected).mapError Stop.failed)

/-- `AdminService::install`. -/
def Platform.install (platform : Platform) (configToml : Str) : Service Unit :=
  match platform with
  | .linux => LinuxServiceManager.install F paths A helper configToml
  | .macos => MacosServiceManager.install F paths A helper configToml

/-- `AdminService::update`. -/
def Platform.update (platform : Platform) : Service Unit :=
  match platform with
  | .linux => LinuxServiceManager.update F paths helper
  | .macos => MacosServiceManager.update F paths helper

/-- `AdminService::repair`. -/
def Platform.repair (platform : Platform) (configToml : Str) : Service Unit :=
  match platform with
  | .linux => LinuxServiceManager.repair F paths A helper configToml
  | .macos => MacosServiceManager.repair F paths A helper configToml

/-- `AdminService::uninstall`. -/
def Platform.uninstall (platform : Platform) : Service Unit :=
  match platform with
  | .linux => LinuxServiceManager.uninstall F paths
  | .macos => MacosServiceManager.uninstall F paths

/-- `ServiceManager::start`. -/
def Platform.start (fates : ServiceCommand → CommandFate) : Platform → Service Unit
  | .linux => LinuxServiceManager.run fates .start
  | .macos => MacosServiceManager.restart fates

/-- `ServiceManager::stop`. -/
def Platform.stop (fates : ServiceCommand → CommandFate) : Platform → Service Unit
  | .linux => LinuxServiceManager.run fates .stop
  | .macos => MacosServiceManager.run fates .bootout

/-- `ServiceManager::restart`. -/
def Platform.restart (fates : ServiceCommand → CommandFate) : Platform → Service Unit
  | .linux => LinuxServiceManager.run fates .restart
  | .macos => MacosServiceManager.restart fates

/-! ## `apply_config` on the disk -/

/-- A file gets another content.  A new one is private. -/
def Disk.write (disk : Disk) (path : Path) (content : Bytes) : Disk :=
  disk.put path (some ⟨content, ((disk.files path).map InstalledFile.mode).getD 0o600⟩)

/-- `open` of the staged file, which is emptied. -/
def openStagedConfig : Install Unit := do
  meet F.apply.openStaged
  let disk ← Effect.read id
  if disk.dirs (paths.path .staged).dir = false then
    Effect.ofExcept (.error (.failed (.io notFound)))
  else Effect.modify fun disk => disk.write (paths.path .staged) []

/-- `write_all` of the staged file. -/
def writeStagedConfig (content : Bytes) : Install Unit :=
  let written :=
    if F.apply.writeAll = .done then content else content.take F.apply.written
  do
    Effect.modify fun disk => disk.write (paths.path .staged) written
    meet F.apply.writeAll

/-- `fs::copy` of the configuration to the backup, with its permissions. -/
def copyConfig : Install Unit :=
  if F.apply.copyBackup = .done then do
    let disk ← Effect.read id
    match disk.files (paths.path .config) with
    | none => Effect.ofExcept (.error (.failed (.io notFound)))
    | some file => Effect.modify fun disk => disk.put (paths.path .backup) (some file)
  else do
    Effect.modify fun disk => disk.put (paths.path .backup) F.apply.copied
    meet F.apply.copyBackup

/-- `set_private_permissions` of the backup. -/
def setPrivatePermissions : Install Unit := do
  meet F.apply.setPermissions
  Effect.modify fun disk =>
    disk.put (paths.path .backup)
      ((disk.files (paths.path .backup)).map ({ · with mode := 0o600 }))

/-- `fs::rename`. -/
def moveFile (fate : Fate) (source target : Path) : Install Unit := do
  meet fate
  let disk ← Effect.read id
  match disk.files source with
  | none => Effect.ofExcept (.error (.failed (.io notFound)))
  | some file => Effect.modify fun disk => (disk.put target (some file)).put source none

/-- `fs::remove_file`. -/
def deleteFile (fate : Fate) (path : Path) : Install Unit := do
  meet fate
  Effect.modify fun disk => disk.put path none

def serviceOps (platform : Platform) : ApplyOps ServiceHost Stop where
  raise := .failed
  caught := Stop.goesOn
  status := Effect.ofExcept F.status
  openStaged := onDisk (openStagedConfig F paths)
  writeAll content := onDisk (writeStagedConfig F paths content)
  syncStaged := onDisk (meet F.apply.syncStaged)
  removeStaged := orTry (onDisk (deleteFile F.apply.removeStaged (paths.path .staged))) (pure ())
  checkConf := Effect.ofExcept F.apply.checkConf
  configExists := Effect.read fun h => (h.disk.files (paths.path .config)).isSome
  copyBackup := onDisk (copyConfig F paths)
  setPermissions := onDisk (setPrivatePermissions F paths)
  openBackup := onDisk (meet F.apply.openBackup)
  syncBackup := onDisk (meet F.apply.syncBackup)
  renameStaged :=
    onDisk (moveFile F.apply.renameStaged (paths.path .staged) (paths.path .config))
  syncParent := onDisk (meet F.apply.syncParent)
  restart := platform.restart F.command
  waitForHealth := waitForHealth F
  restoreBackup :=
    onDisk (moveFile F.apply.restoreBackup (paths.path .backup) (paths.path .config))
  removeConfig := onDisk (deleteFile F.apply.removeConfig (paths.path .config))
  syncRestored := onDisk (meet F.apply.syncRestored)
  rollbackRestart := platform.restart F.apply.rollback
  rollbackStart := platform.start F.apply.rollbackStart
  rollbackStop := platform.stop F.apply.rollback

/-! ## Every action -/

def ServiceStatus.text : ServiceStatus → Str
  | .running => "running".toList
  | .stopped => "stopped".toList

/-- `execute_action_with_helper`. -/
def executeActionWithHelper (platform : Platform) : AdminAction → Service Str
  | .status => do
      let status ← Effect.ofExcept F.status
      pure status.text
  | .readConfig => readConfig F paths
  | .install configToml expected => do
      verifyBundledResolver sha256 F helper expected
      mapErr (platform.serviceError F) (platform.install F paths A helper configToml)
      platform.waitForConfiguredHealth parse F configToml
      pure "installed".toList
  | .update expected => do
      verifyBundledResolver sha256 F helper expected
      mapErr (platform.serviceError F) (platform.update F paths helper)
      platform.waitForLiveConfigHealth parse F paths
      pure "updated".toList
  | .repair expected configToml => do
      verifyBundledResolver sha256 F helper expected
      mapErr (platform.serviceError F) (platform.repair F paths A helper configToml)
      platform.waitForConfiguredHealth parse F configToml
      pure "repaired".toList
  | .uninstall => do
      platform.uninstall F paths
      pure "uninstalled".toList
  | .start => do
      mapErr (platform.serviceError F) (platform.start F.command)
      platform.waitForLiveConfigHealth parse F paths
      pure "started".toList
  | .stop => do
      platform.stop F.command
      pure "stopped".toList
  | .restart => do
      mapErr (platform.serviceError F) (platform.restart F.command)
      platform.waitForLiveConfigHealth parse F paths
      pure "restarted".toList
  | .applyConfig configToml restart => do
      mapErr (platform.serviceError F)
        ((serviceOps F paths platform).applyConfig parse configToml restart)
      pure "applied".toList

/-- `execute_action`. -/
def executeAction (platform : Platform) (action : AdminAction) : Service Str := do
  onDisk (meet F.currentExe)
  executeActionWithHelper sha256 parse F paths A helper platform action

end Actions

/-! ## Runs -/

/-- The host, the actions it was asked for and what other programs did. -/
structure Installation where
  host : ServiceHost
  /-- The actions, whatever came of them. -/
  asked : List AdminAction
  /-- The files that other programs have changed. -/
  foreign : List (Path × Option InstalledFile)

def owned : List Target :=
  [.installedBinary, .adminBinary, .config, .serviceDefinition, .authorizationPolicy]

namespace Installation

inductive Act where
  | ask (action : AdminAction) (fates : ServiceFates)
  /-- Another program changes a file that is not one of the installation. -/
  | elsewhere (path : Path) (file : Option InstalledFile)

variable (sha256 : Bytes → Bytes) (parse : Str → Except Str Toml) (paths : ServicePaths)
  (A : Assets) (helper : Path) (platform : Platform)

def step (s : Installation) : Act → Option Installation
  | .ask action F =>
      some { s with
        host := (executeAction sha256 parse F paths A helper platform action s.host).2
        asked := s.asked ++ [action] }
  | .elsewhere path file =>
      if ∀ t ∈ owned, path ≠ paths.path t then
        some { s with
          host := { s.host with disk := s.host.disk.put path file }
          foreign := s.foreign ++ [(path, file)] }
      else none

def machine (disk : Disk) : Machine Installation Act where
  init := ⟨⟨disk, []⟩, [], []⟩
  step := step sha256 parse paths A helper platform

end Installation

end DnsRelay.Admin
