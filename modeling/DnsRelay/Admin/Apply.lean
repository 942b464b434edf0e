import Mathlib.Logic.Function.Basic
import DnsRelay.Lib.Effect
import DnsRelay.Lib.Toml

/-!
# Applying a configuration

`apply_config` of the privileged helper.  The new text is written to a staged
file next to the live one and checked there.  The live file is copied to the
backup, and the staged file is moved in its place.  When a later operation
fails, the backup is moved back and the service is started again.

The code is written over the operations that it is given (`ApplyOps`).  Here they
work on a `Host`, and `Faults` says which of them fail and what a failed one leaves
behind.  The host keeps a log of the changes of the live file and of the calls to
the service manager.  The proof goes along the code, with one assertion for every
stage.  `Lifecycle` runs the same code on the disk of an installation.
-/

namespace DnsRelay.Admin

open Lib

/-! ## The host -/

/-- `AdminError`, with the texts of other libraries' errors. -/
inductive AdminError where
  | invalidRequestId
  | invalidRequestFile (text : Str)
  | io (text : Str)
  | json (text : Str)
  | operation (text : Str)
  | unsupported
deriving DecidableEq, Repr

inductive ServiceStatus where
  | running
  | stopped
deriving DecidableEq, Repr

/-- A path, as its directory and its file name. -/
structure Path where
  dir : Str
  name : Str
deriving DecidableEq, Repr

/-- `staging_path`. -/
def stagingPath (config : Path) : Path :=
  { config with name := ".".toList ++ config.name ++ ".staged".toList }

/-- The paths of `PlatformPaths` that an apply uses. -/
structure PlatformPaths where
  config : Path
  backup : Path
  backup_ne_config : backup ≠ config
  backup_ne_staged : backup ≠ stagingPath config

/-! ## The code -/

/-- What `apply_config` works with: the file system, a `ServiceManager` and a
`CommandRunner`. -/
structure ApplyOps (σ ε : Type) where
  raise : AdminError → ε
  /-- The code goes on after this error. -/
  caught : ε → Bool
  /-- `service.status()`. -/
  status : Effect σ ε ServiceStatus
  /-- `open` of the staged file. -/
  openStaged : Effect σ ε Unit
  /-- `write_all` of the staged file. -/
  writeAll : Bytes → Effect σ ε Unit
  /-- `sync_all` of the staged file. -/
  syncStaged : Effect σ ε Unit
  /-- `fs::remove_file` of the staged file.  An error is not looked at. -/
  removeStaged : Effect σ ε Unit
  /-- `runner.check_conf`. -/
  checkConf : Effect σ ε Unit
  /-- `paths.config.exists()`. -/
  configExists : Effect σ ε Bool
  /-- `fs::copy` of the live file to the backup. -/
  copyBackup : Effect σ ε Unit
  /-- `set_private_permissions` of the backup. -/
  setPermissions : Effect σ ε Unit
  /-- `open` of the backup. -/
  openBackup : Effect σ ε Unit
  /-- `sync_all` of the backup. -/
  syncBackup : Effect σ ε Unit
  /-- `fs::rename` of the staged file. -/
  renameStaged : Effect σ ε Unit
  syncParent : Effect σ ε Unit
  /-- `service.restart()`. -/
  restart : Effect σ ε Unit
  /-- `runner.wait_for_health`. -/
  waitForHealth : Effect σ ε Unit
  /-- `fs::rename` of the backup. -/
  restoreBackup : Effect σ ε Unit
  /-- `fs::remove_file` of the live file. -/
  removeConfig : Effect σ ε Unit
  /-- `sync_parent` in `rollback`. -/
  syncRestored : Effect σ ε Unit
  /-- `service.restart()` in `rollback`. -/
  rollbackRestart : Effect σ ε Unit
  /-- `service.start()` in `rollback`. -/
  rollbackStart : Effect σ ε Unit
  /-- `service.stop()` in `rollback`. -/
  rollbackStop : Effect σ ε Unit

variable (parse : Str → Except Str Toml)

/-- `parse_config`. -/
def parseConfig (configToml : Str) : Except AdminError Toml :=
  match parse configToml with
  | .ok value => .ok value
  | .error error => .error (.operation ("invalid config TOML: ".toList ++ error))

/-- `exposes_http_health`. -/
def exposesHttpHealth (config : Toml) : Bool :=
  (((config.get "metric_conf").bind (·.get "enable")).bind Toml.asBool).getD false &&
    ((config.get "metric_conf").bind (·.get "report_type")).bind Toml.asStr == some "http".toList

namespace ApplyOps

variable {σ ε : Type} (O : ApplyOps σ ε)

/-- `write_staged`. -/
def writeStaged (content : Bytes) : Effect σ ε Unit := do
  O.openStaged
  O.writeAll content
  O.syncStaged

/-- `backup_config`. -/
def backupConfig : Effect σ ε Unit := do
  O.copyBackup
  O.setPermissions
  O.openBackup
  O.syncBackup

/-- `wait_for_http_health`. -/
def waitForHttpHealth (hasHttpHealth : Bool) : Effect σ ε Unit :=
  if hasHttpHealth then O.waitForHealth else pure ()

/-- The file operations of `rollback`. -/
def restoreConfig (hadLiveConfig : Bool) : Effect σ ε Unit :=
  if hadLiveConfig then O.restoreBackup
  else do
    let found ← O.configExists
    if found then O.removeConfig else pure ()

def rollback (hadLiveConfig : Bool) (priorStatus : ServiceStatus) : Effect σ ε Unit := do
  O.restoreConfig hadLiveConfig
  O.syncRestored
  match priorStatus with
  | .running => Effect.orElseIf O.caught O.rollbackRestart O.rollbackStart
  | .stopped => O.rollbackStop

def takeOver (restart hasHttpHealth : Bool) : ServiceStatus → Effect σ ε Unit
  | .running =>
      if restart then do
        O.restart
        O.waitForHttpHealth hasHttpHealth
      else O.waitForHttpHealth hasHttpHealth
  | .stopped => pure ()

/-- `apply_config`. -/
def applyConfig (configToml : Str) (restart : Bool) : Effect σ ε Unit := do
  let parsed ← Effect.ofExcept ((parseConfig parse configToml).mapError O.raise)
  let hasHttpHealth := exposesHttpHealth parsed
  let priorStatus ← O.status
  Effect.onError O.caught (O.writeStaged (utf8 configToml)) O.removeStaged
  Effect.onError O.caught O.checkConf O.removeStaged
  let hadLiveConfig ← O.configExists
  Effect.onError O.caught (if hadLiveConfig then O.backupConfig else pure ()) O.removeStaged
  Effect.onError O.caught O.renameStaged O.removeStaged
  Effect.onError O.caught O.syncParent (O.rollback hadLiveConfig priorStatus)
  Effect.onError O.caught (O.takeOver restart hasHttpHealth priorStatus)
    (O.rollback hadLiveConfig priorStatus)

end ApplyOps

/-! ## The host -/

/-- What the log of the host tells. -/
inductive Event where
  | config (content : Option Bytes)
  | start
  | stop
  | restart
deriving DecidableEq, Repr

/-- The files, the service and the log. -/
structure Host where
  files : Path → Option Bytes
  service : ServiceStatus
  log : List Event

def Host.put (paths : PlatformPaths) (path : Path) (content : Option Bytes) (h : Host) : Host :=
  { h with
    files := Function.update h.files path content
    log := if path = paths.config then h.log ++ [.config content] else h.log }

/-- Which operations fail.  The file operations of a cleanup and of `rollback`
do not. -/
structure Faults where
  /-- `service.status()`. -/
  status : Option AdminError
  /-- `open` of the staged file. -/
  openStaged : Option Str
  /-- `write_all` of the staged file, after some bytes. -/
  writeStaged : Option (Str × Nat)
  /-- `sync_all` of the staged file. -/
  syncStaged : Option Str
  /-- `runner.check_conf`. -/
  checkConf : Option AdminError
  /-- `fs::copy` to the backup, with what is there then. -/
  copyBackup : Option (Str × Option Bytes)
  /-- `set_private_permissions`. -/
  setPermissions : Option Str
  /-- `open` of the backup. -/
  openBackup : Option Str
  /-- `sync_all` of the backup. -/
  syncBackup : Option Str
  /-- `fs::rename` of the staged file. -/
  rename : Option Str
  syncParent : Option AdminError
  /-- `service.restart()`, with the status then. -/
  restart : Option (AdminError × ServiceStatus)
  /-- `runner.wait_for_health`. -/
  health : Option AdminError
  /-- `service.restart()` in `rollback`. -/
  rollbackRestart : Option (AdminError × ServiceStatus)
  /-- `service.start()` in `rollback`. -/
  rollbackStart : Option (AdminError × ServiceStatus)
  /-- `service.stop()` in `rollback`. -/
  rollbackStop : Option (AdminError × ServiceStatus)

section Operations

variable (F : Faults) (paths : PlatformPaths)

/-- Code that runs on the host. -/
abbrev Code (α : Type) : Type := Effect Host AdminError α

/-- `fs::remove_file`. -/
def removeFile (path : Path) : Code Unit := Effect.modify (Host.put paths path none)

/-- `fs::rename`. -/
def rename (source target : Path) : Code Unit := fun h =>
  match h.files source with
  | some content => (.ok (), (h.put paths target (some content)).put paths source none)
  | none => (.error (.io "entity not found".toList), h)

def call (event : Event) (after : ServiceStatus) (fault : Option (AdminError × ServiceStatus)) :
    Code Unit := fun h =>
  match fault with
  | none => (.ok (), { h with service := after, log := h.log ++ [event] })
  | some (error, status) => (.error error, { h with service := status, log := h.log ++ [event] })

/-- `service.status()`. -/
def status : Code ServiceStatus := do
  Effect.check F.status
  Effect.read Host.service

/-- `write_all`. -/
def writeAll (path : Path) (content : Bytes) : Code Unit :=
  match F.writeStaged with
  | none => Effect.modify (Host.put paths path (some content))
  | some (error, written) => do
      Effect.modify (Host.put paths path (some (content.take written)))
      Effect.check (some (.io error))

/-- `fs::copy` of the live file to the backup. -/
def copyBackup : Code Unit :=
  match F.copyBackup with
  | none => Effect.modify fun h => h.put paths paths.backup (h.files paths.config)
  | some (error, left) => do
      Effect.modify (Host.put paths paths.backup left)
      Effect.check (some (.io error))

def hostOps : ApplyOps Host AdminError where
  raise := id
  caught _ := true
  status := status F
  openStaged := do
    Effect.check (F.openStaged.map AdminError.io)
    Effect.modify (Host.put paths (stagingPath paths.config) (some []))
  writeAll := writeAll F paths (stagingPath paths.config)
  syncStaged := Effect.check (F.syncStaged.map AdminError.io)
  removeStaged := removeFile paths (stagingPath paths.config)
  checkConf := Effect.check F.checkConf
  configExists := Effect.read fun h => (h.files paths.config).isSome
  copyBackup := copyBackup F paths
  setPermissions := Effect.check (F.setPermissions.map AdminError.io)
  openBackup := Effect.check (F.openBackup.map AdminError.io)
  syncBackup := Effect.check (F.syncBackup.map AdminError.io)
  renameStaged := do
    Effect.check (F.rename.map AdminError.io)
    rename paths (stagingPath paths.config) paths.config
  syncParent := Effect.check F.syncParent
  restart := call .restart .running F.restart
  waitForHealth := Effect.check F.health
  restoreBackup := rename paths paths.backup paths.config
  removeConfig := removeFile paths paths.config
  syncRestored := pure ()
  rollbackRestart := call .restart .running F.rollbackRestart
  rollbackStart := call .start .running F.rollbackStart
  rollbackStop := call .stop .stopped F.rollbackStop

/-- `apply_config` on the host. -/
def applyConfig (configToml : Str) (restart : Bool) : Code Unit :=
  (hostOps F paths).applyConfig parse configToml restart

end Operations

/-! ## What an apply should do -/

theorem stagingPath_ne (config : Path) : stagingPath config ≠ config := by
  intro h
  have hlen := congrArg List.length (congrArg Path.name h)
  simp only [stagingPath, List.length_append] at hlen
  have hdot : ".".toList.length = 1 := by decide
  omega

def recoveries : ServiceStatus → List (List Event)
  | .running => [[.restart], [.restart, .start]]
  | .stopped => [[.stop]]

section Outcome

variable (paths : PlatformPaths) (new : Bytes) (h s : Host)

structure Applied : Prop where
  live : s.files paths.config = some new
  backup : ∀ old, h.files paths.config = some old → s.files paths.backup = some old
  service : s.service = h.service

structure Refused : Prop where
  live : s.files paths.config = h.files paths.config
  staged : s.files (stagingPath paths.config) = none ∨ s = h
  /-- If the live file was replaced in between, then the old content was put back
  first, and the service was brought back after that.  Before, there was at most
  the restart that had been asked for. -/
  recovery : s.log = h.log ∨
    ∃ own after, s.log = h.log ++ .config (some new) :: own ++
        .config (h.files paths.config) :: after ∧
      (own = [] ∨ own = [.restart]) ∧ after ∈ recoveries h.service

/-! ## Stages -/

/-- Only the staged file and the backup may differ. -/
structure Untouched : Prop where
  live : s.files paths.config = h.files paths.config
  service : s.service = h.service
  log : s.log = h.log

/-- The staged file holds the new text. -/
structure Staged : Prop extends Untouched paths h s where
  staged : s.files (stagingPath paths.config) = some new

/-- The backup holds the old one. -/
structure BackedUp : Prop extends Staged paths new h s where
  backup : ∀ old, h.files paths.config = some old → s.files paths.backup = some old

/-- The live file was replaced, and these calls were made since. -/
structure Swapped (own : List Event) : Prop where
  live : s.files paths.config = some new
  staged : s.files (stagingPath paths.config) = none
  backup : ∀ old, h.files paths.config = some old → s.files paths.backup = some old
  log : s.log = h.log ++ .config (some new) :: own

end Outcome

variable {parse : Str → Except Str Toml} {F : Faults} {paths : PlatformPaths} {new : Bytes}
  {h s : Host}

/-! ## Changes of files -/

theorem put_files_self (path : Path) (content : Option Bytes) :
    (s.put paths path content).files path = content :=
  Function.update_self ..

theorem put_files_of_ne {path path' : Path} (hne : path' ≠ path) (content : Option Bytes) :
    (s.put paths path content).files path' = s.files path' :=
  Function.update_of_ne hne ..

theorem put_log_of_ne {path : Path} (hne : path ≠ paths.config) (content : Option Bytes) :
    (s.put paths path content).log = s.log :=
  if_neg hne

theorem put_log_config (content : Option Bytes) :
    (s.put paths paths.config content).log = s.log ++ [.config content] :=
  if_pos rfl

theorem Untouched.put {path : Path} (hs : Untouched paths h s) (hne : path ≠ paths.config)
    (content : Option Bytes) : Untouched paths h (s.put paths path content) where
  live := (put_files_of_ne hne.symm content).trans hs.live
  service := hs.service
  log := (put_log_of_ne hne content).trans hs.log

theorem Staged.put {path : Path} (hs : Staged paths new h s) (hne : path ≠ paths.config)
    (hstaged : path ≠ stagingPath paths.config) (content : Option Bytes) :
    Staged paths new h (s.put paths path content) where
  toUntouched := hs.toUntouched.put hne content
  staged := (put_files_of_ne hstaged.symm content).trans hs.staged

/-- Before the swap, a removal of the staged file is all that a refusal
needs. -/
theorem triple_removeStaged :
    (removeFile paths (stagingPath paths.config)).Triple (Untouched paths h)
      (fun _ => Refused paths new h) (Refused paths new h) := by
  refine .modify fun s hs => ?_
  have hs' := hs.put (stagingPath_ne paths.config) none
  exact ⟨hs'.live, .inl (put_files_self ..), .inl hs'.log⟩

/-! ## The stages of the code -/

theorem triple_status : (status F).Triple (· = h) (fun prior s => s = h ∧ prior = h.service)
    (Refused paths new h) := by
  refine .bind (.check fun s hs => ?_) fun _ => ?_
  · subst hs
    exact ⟨rfl, .inr rfl, .inl rfl⟩
  · refine .read fun s hs => ?_
    subst hs
    exact ⟨rfl, rfl⟩

theorem Untouched.putStaged (hs : Untouched paths h s) (content : Option Bytes) :
    Untouched paths h (s.put paths (stagingPath paths.config) content) :=
  hs.put (stagingPath_ne paths.config) content

theorem triple_writeAll :
    (writeAll F paths (stagingPath paths.config) new).Triple (Untouched paths h)
      (fun _ => Staged paths new h) (Untouched paths h) := by
  unfold writeAll
  split
  · exact .modify fun s hs => ⟨hs.putStaged _, put_files_self ..⟩
  · refine .bind (R := fun _ => Untouched paths h) (.modify fun s hs => hs.putStaged _) fun _ => ?_
    exact fun s hs => hs

theorem triple_writeStaged :
    ((hostOps F paths).writeStaged new).Triple (· = h)
      (fun _ => Staged paths new h) (Untouched paths h) := by
  have hstart : ∀ s, s = h → Untouched paths h s := by
    rintro s rfl
    exact ⟨rfl, rfl, rfl⟩
  refine .bind (R := fun _ => Untouched paths h) (.bind (.check hstart) fun _ => ?_) fun _ => ?_
  · exact .modify fun s hs => (hstart s hs).putStaged _
  refine .bind triple_writeAll fun _ => ?_
  exact .check fun _ hs => hs.toUntouched

theorem triple_copyBackup :
    (copyBackup F paths).Triple (Staged paths new h) (fun _ => BackedUp paths new h)
      (Untouched paths h) := by
  have hput := fun (s : Host) (content : Option Bytes) (hs : Staged paths new h s) =>
    hs.put paths.backup_ne_config paths.backup_ne_staged content
  unfold copyBackup
  split
  · refine .modify fun s hs => ⟨hput s _ hs, fun old hold => ?_⟩
    rw [put_files_self, hs.live, hold]
  · refine .bind (R := fun _ => Untouched paths h)
      (.modify fun s hs => (hput s _ hs).toUntouched) fun _ => ?_
    exact fun s hs => hs

theorem triple_backupConfig :
    (hostOps F paths).backupConfig.Triple (Staged paths new h) (fun _ => BackedUp paths new h)
      (Untouched paths h) := by
  have hcheck : ∀ fault : Option Str, (Effect.check (fault.map AdminError.io)).Triple
      (BackedUp paths new h) (fun _ => BackedUp paths new h) (Untouched paths h) :=
    fun _ => .check fun _ hs => hs.toUntouched
  refine .bind triple_copyBackup fun _ => ?_
  refine .bind (hcheck F.setPermissions) fun _ => ?_
  exact .bind (hcheck F.openBackup) fun _ => hcheck F.syncBackup

/-- The backup is made if there is something to back up. -/
theorem triple_backup (had : Bool) (hhad : had = (h.files paths.config).isSome) :
    (if had then (hostOps F paths).backupConfig else pure ()).Triple (Staged paths new h)
      (fun _ => BackedUp paths new h) (Untouched paths h) := by
  cases had with
  | true => exact triple_backupConfig
  | false =>
      refine .pure fun s hs => ⟨hs, fun old hold => ?_⟩
      rw [hold] at hhad
      cases hhad

/-- The staged file takes the place of the live one. -/
theorem triple_swap :
    (hostOps F paths).renameStaged.Triple (BackedUp paths new h)
      (fun _ s => Swapped paths new h s [] ∧ s.service = h.service) (Untouched paths h) := by
  refine .bind (.check fun _ hs => hs.toUntouched) fun _ => ?_
  intro s hs
  unfold rename
  rw [hs.staged]
  refine ⟨⟨?_, put_files_self .., fun old hold => ?_, ?_⟩, hs.service⟩
  · rw [put_files_of_ne (stagingPath_ne _).symm, put_files_self]
  · rw [put_files_of_ne paths.backup_ne_staged, put_files_of_ne paths.backup_ne_config]
    exact hs.backup old hold
  · rw [put_log_of_ne (stagingPath_ne _), put_log_config, hs.log]

/-! ## After the swap -/

/-- The state that a rollback starts from. -/
def Undoable (paths : PlatformPaths) (new : Bytes) (h s : Host) : Prop :=
  ∃ own, (own = [] ∨ own = [.restart]) ∧ Swapped paths new h s own

theorem Swapped.call {own : List Event} (hs : Swapped paths new h s own) (event : Event)
    (status : ServiceStatus) :
    Swapped paths new h { s with service := status, log := s.log ++ [event] } (own ++ [event]) where
  live := hs.live
  staged := hs.staged
  backup := hs.backup
  log := by
    show s.log ++ [event] = _
    rw [hs.log, List.append_assoc, List.cons_append]

theorem Swapped.applied {own : List Event} (hs : Swapped paths new h s own)
    (hservice : s.service = h.service) : Applied paths new h s :=
  ⟨hs.live, hs.backup, hservice⟩

theorem triple_waitForHttpHealth (hasHttpHealth : Bool) {own : List Event}
    (hown : own = [] ∨ own = [.restart]) :
    ((hostOps F paths).waitForHttpHealth hasHttpHealth).Triple
      (fun s => Swapped paths new h s own ∧ s.service = h.service)
      (fun _ => Applied paths new h) (Undoable paths new h) := by
  cases hasHttpHealth with
  | true =>
      refine Effect.Triple.conseq (.check fun s hs => ?_) (fun _ hs => hs)
        (fun _ s hs => hs.1.applied hs.2) fun _ hs => hs
      exact ⟨own, hown, hs.1⟩
  | false => exact .pure fun s hs => hs.1.applied hs.2

theorem triple_takeOver (restart hasHttpHealth : Bool) {prior : ServiceStatus}
    (hprior : prior = h.service) :
    ((hostOps F paths).takeOver restart hasHttpHealth prior).Triple
      (fun s => Swapped paths new h s [] ∧ s.service = h.service)
      (fun _ => Applied paths new h) (Undoable paths new h) := by
  cases prior with
  | stopped => exact .pure fun s hs => hs.1.applied hs.2
  | running =>
      cases restart with
      | false => exact triple_waitForHttpHealth hasHttpHealth (.inl rfl)
      | true =>
          refine .bind (R := fun _ s => Swapped paths new h s [.restart] ∧ s.service = h.service)
            ?_ fun _ => triple_waitForHttpHealth hasHttpHealth (.inr rfl)
          intro s hs
          show Effect.Ends _ _ (call .restart .running F.restart s)
          unfold call
          split
          · exact ⟨hs.1.call .restart .running, hprior⟩
          · exact ⟨[.restart], .inr rfl, hs.1.call .restart _⟩

/-- The old content is back, and these calls were made since. -/
structure Restored (paths : PlatformPaths) (new : Bytes) (h s : Host) (after : List Event) :
    Prop where
  live : s.files paths.config = h.files paths.config
  staged : s.files (stagingPath paths.config) = none
  log : ∃ own, (own = [] ∨ own = [.restart]) ∧
    s.log = h.log ++ .config (some new) :: own ++ .config (h.files paths.config) :: after

theorem Restored.call {after : List Event} (hs : Restored paths new h s after) (event : Event)
    (status : ServiceStatus) :
    Restored paths new h { s with service := status, log := s.log ++ [event] }
      (after ++ [event]) where
  live := hs.live
  staged := hs.staged
  log := by
    obtain ⟨own, hown, hlog⟩ := hs.log
    refine ⟨own, hown, ?_⟩
    show s.log ++ [event] = _
    rw [hlog, List.append_assoc, List.cons_append]

theorem Restored.refused {after : List Event} (hs : Restored paths new h s after)
    (hafter : after ∈ recoveries h.service) : Refused paths new h s := by
  obtain ⟨own, hown, hlog⟩ := hs.log
  exact ⟨hs.live, .inl hs.staged, .inr ⟨own, after, hlog, hown, hafter⟩⟩

/-- A call after the old content is back. -/
theorem triple_call {event : Event} {status : ServiceStatus} {after : List Event}
    {fault : Option (AdminError × ServiceStatus)} :
    (call event status fault).Triple (Restored paths new h · after)
      (fun _ s => Restored paths new h s (after ++ [event]))
      (Restored paths new h · (after ++ [event])) := by
  intro s hs
  unfold call
  split
  · exact hs.call event _
  · exact hs.call event _

/-- The backup goes back to its place. -/
theorem triple_restoreConfig {had : Bool} (hhad : had = (h.files paths.config).isSome) :
    ((hostOps F paths).restoreConfig had).Triple (Undoable paths new h)
      (fun _ s => Restored paths new h s []) (Refused paths new h) := by
  intro s hs
  obtain ⟨own, hown, hs⟩ := hs
  cases hold : h.files paths.config with
  | some old =>
      rw [hhad, hold]
      show Effect.Ends _ _ (rename paths paths.backup paths.config s)
      unfold rename
      rw [hs.backup old hold]
      refine ⟨?_, ?_, own, hown, ?_⟩
      · rw [put_files_of_ne paths.backup_ne_config.symm, put_files_self, hold]
      · rw [put_files_of_ne paths.backup_ne_staged.symm, put_files_of_ne (stagingPath_ne _),
          hs.staged]
      · rw [put_log_of_ne paths.backup_ne_config, put_log_config, hs.log, hold]
  | none =>
      rw [hhad, hold]
      show Effect.Ends _ _ ((if (s.files paths.config).isSome then removeFile paths paths.config
        else pure ()) s)
      rw [hs.live]
      refine ⟨?_, ?_, own, hown, ?_⟩
      · rw [put_files_self, hold]
      · rw [put_files_of_ne (stagingPath_ne _), hs.staged]
      · rw [put_log_config, hs.log, hold]

theorem triple_rollback {had : Bool} (hhad : had = (h.files paths.config).isSome)
    {prior : ServiceStatus} (hprior : prior = h.service) :
    ((hostOps F paths).rollback had prior).Triple (Undoable paths new h)
      (fun _ => Refused paths new h) (Refused paths new h) := by
  refine .bind (triple_restoreConfig hhad) fun _ =>
    .bind (R := fun _ s => Restored paths new h s []) (.pure fun _ hs => hs) fun _ => ?_
  cases prior with
  | running =>
      have hrefused : ∀ after ∈ recoveries .running, ∀ s, Restored paths new h s after →
          Refused paths new h s := by
        rw [hprior]
        exact fun after hafter s hs => hs.refused hafter
      refine .orElseIf (triple_call.conseq (fun _ hs => hs) ?_ fun _ hs => hs)
        (triple_call.conseq (fun _ hs => hs) ?_ ?_) fun _ _ h => nomatch h
      · exact fun _ => hrefused _ (List.mem_cons_self ..)
      · exact fun _ => hrefused _ (List.mem_cons_of_mem _ (List.mem_cons_self ..))
      · exact hrefused _ (List.mem_cons_of_mem _ (List.mem_cons_self ..))
  | stopped =>
      have hrefused : ∀ s, Restored paths new h s [.stop] → Refused paths new h s := by
        refine fun s hs => hs.refused ?_
        rw [← hprior]
        exact List.mem_cons_self ..
      exact triple_call.conseq (fun _ hs => hs) (fun _ => hrefused) hrefused

/-! ## All or nothing -/

/-- A failed apply leaves the live file as it was and no staged file of its own,
and brings the service back on the old file only.  A successful one has replaced
the file, with the old content in the backup and the service as it was. -/
theorem apply_config_all_or_nothing (parse : Str → Except Str Toml) (F : Faults)
    (paths : PlatformPaths) (configToml : Str) (restart : Bool) (h : Host) :
    match applyConfig parse F paths configToml restart h with
    | (.ok (), h') => Applied paths (utf8 configToml) h h'
    | (.error _, h') => Refused paths (utf8 configToml) h h' := by
  have hcaught : ∀ {E E' : Host → Prop} (e : AdminError) (s : Host),
      (hostOps F paths).caught e = false → E' s → E s := fun _ _ h => nomatch h
  have happly : (applyConfig parse F paths configToml restart).Triple (· = h)
      (fun _ => Applied paths (utf8 configToml) h) (Refused paths (utf8 configToml) h) := by
    refine .bind (R := fun _ s => s = h) (.ofExcept (fun _ _ _ hs => hs) ?_) fun parsed => ?_
    · rintro s rfl
      exact ⟨rfl, .inr rfl, .inl rfl⟩
    refine .bind triple_status fun prior => .pull fun hprior => ?_
    refine .bind (triple_writeStaged.onError triple_removeStaged hcaught) fun _ => ?_
    refine .bind (.onError (.check fun _ hs => hs.toUntouched) triple_removeStaged hcaught)
      fun _ => ?_
    refine .bind (R := fun had s => Staged paths (utf8 configToml) h s ∧
        had = (h.files paths.config).isSome)
      (.read fun s hs => ⟨hs, by rw [hs.live]⟩) fun had => .pull fun hhad => ?_
    refine .bind ((triple_backup had hhad).onError triple_removeStaged hcaught) fun _ => ?_
    refine .bind (triple_swap.onError triple_removeStaged hcaught) fun _ => ?_
    -- from here on a failure has something to undo
    refine .bind (.onError (.check fun s hs => ⟨[], .inl rfl, hs.1⟩)
      (triple_rollback hhad hprior) hcaught) fun _ => ?_
    exact (triple_takeOver restart _ hprior).onError (triple_rollback hhad hprior) hcaught
  have hends := happly h rfl
  generalize applyConfig parse F paths configToml restart h = final at hends ⊢
  obtain ⟨r, h'⟩ := final
  cases r with
  | ok u => exact hends
  | error e => exact hends

end DnsRelay.Admin
