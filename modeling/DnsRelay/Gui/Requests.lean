import DnsRelay.Admin.LifecycleSafety
import DnsRelay.Gui.Session

/-!
# Requests to the helper

The session says in one step what a request changes.  The helper changes one file
after the other and gives its commands to the service manager.  Here the two are
compared.  An action that succeeds leaves the configuration on the disk that the
session has then.  Its commands, each taken with the disk it was given on, leave the
service that the session has then.
-/

namespace DnsRelay.Gui

open Lib

section Requests

variable (T : TomlCrate Str) (paths : Admin.ServicePaths) (platform : Admin.Platform)

def configOn (disk : Admin.Disk) : Option Str :=
  (disk.files (paths.path .config)).bind fun file => fromUtf8 file.content

/-- What a command does to the service, if it takes effect.  The property list has
`RunAtLoad`. -/
def obey (running : Option Running) : Admin.ServiceCommand × Admin.Disk → Option Running
  | (.start, disk) => running.or (startService T (configOn paths disk))
  | (.restart, disk) | (.bootstrap, disk) => startService T (configOn paths disk)
  | (.stop, _) | (.bootout, _) => none
  | (.daemonReload, _) | (.enable, _) | (.disable, _) => running

/-- The session has the configuration that is on the disk. -/
def Mirrors (disk : Admin.Disk) (s : Session Str) : Prop :=
  (disk.files (paths.path .config)).map Admin.InstalledFile.content = s.config.map utf8

/-- What an action of the helper changes in a session.  The application does not ask
for `update`. -/
def requested : Admin.AdminAction → Session Str → Session Str
  | .applyConfig configToml restart => applied T configToml restart
  | .install configToml _ => installed T platform configToml
  | .repair _ configToml => repaired T configToml
  | .start => acted T platform .start
  | .restart | .update _ => acted T platform .restart
  | .stop => acted T platform .stop
  | .uninstall => acted T platform .uninstall
  | .status | .readConfig => id

end Requests

section Correspondence

variable {T : TomlCrate Str} {paths : Admin.ServicePaths} {platform : Admin.Platform}
  {sha256 : Bytes → Bytes} {A : Admin.Assets} {helper : Admin.Path} {F : Admin.ServiceFates}
  {disk disk' : Admin.Disk} {h h' : Admin.ServiceHost} {s : Session Str}
  {action : Admin.AdminAction}

theorem Mirrors.configOn (hs : Mirrors paths disk s) : configOn paths disk = s.config := by
  have hbind : Gui.configOn paths disk =
      ((disk.files (paths.path .config)).map Admin.InstalledFile.content).bind fromUtf8 := by
    rw [Option.bind_map]
    rfl
  rw [hbind, hs]
  cases s.config with
  | none => rfl
  | some configToml => exact fromUtf8_utf8 configToml

theorem mirrors_requested
    (hdone : Admin.Achieved sha256 paths A helper platform h F action h')
    (hs : Mirrors paths h.disk s) : Mirrors paths h'.disk (requested T platform action s) := by
  obtain ⟨binary, content, -, hfiles, -⟩ := hdone
  rw [Mirrors, hfiles .config]
  cases action with
  | status | readConfig | start | stop | restart | update => exact hs
  | install | applyConfig =>
      cases platform with
      | linux | macos => rfl
  | uninstall =>
      cases platform with
      | linux | macos => exact hs
  | repair expected configToml =>
      have hconfig : (requested T platform (.repair expected configToml) s).config =
          s.config.or (some configToml) := rfl
      rw [hconfig]
      have hsame :
          some ((h.disk.files (paths.path .config)).getD ⟨utf8 configToml, 0o600⟩).content =
            (s.config.or (some configToml)).map utf8 := by
        unfold Mirrors at hs
        cases hfile : h.disk.files (paths.path .config) with
        | none =>
            rw [hfile, Option.map_none, eq_comm, Option.map_eq_none_iff] at hs
            rw [hs]
            rfl
        | some file =>
            rw [hfile, Option.map_some, eq_comm, Option.map_eq_some_iff] at hs
            obtain ⟨old, hold, hcontent⟩ := hs
            rw [hold, Option.getD_some, ← hcontent]
            rfl
      cases platform with
      | linux | macos => exact hsame

/-- A command that has gone through is not followed by another one in its place. -/
theorem tried_done (hcommands : ∀ c, F.command c = .done) (c : Admin.ServiceCommand)
    (otherwise : List Admin.ServiceCommand) : Admin.tried F.command c otherwise = [c] := by
  rw [Admin.tried, hcommands c]

/-- A restart reads the configuration, whatever has run before. -/
theorem foldl_restart (hcommands : ∀ c, F.command c = .done) (running : Option Running) :
    ((platform.restartCommands F.command).map (·, disk)).foldl (obey T paths) running =
      startService T (configOn paths disk) := by
  cases platform with
  | linux => rfl
  | macos =>
      rw [Admin.Platform.restartCommands, tried_done hcommands]
      rfl

theorem foldl_start (hcommands : ∀ c, F.command c = .done)
    (hconfig : configOn paths disk = s.config) :
    ((platform.startCommands F.command).map (·, disk)).foldl (obey T paths) s.running =
      (acted T platform .start s).running := by
  cases platform with
  | linux =>
      show s.running.or (startService T (configOn paths disk)) = _
      rw [hconfig]
      obtain ⟨draft, recoveryRequired, vault, minted, config, running⟩ := s
      cases running with
      | none | some => rfl
  | macos =>
      rw [Admin.Platform.startCommands, foldl_restart hcommands, hconfig]
      rfl

theorem foldl_obey (hcommands : ∀ c, F.command c = .done)
    (hstatus : F.status = .ok (if s.running.isSome then .running else .stopped))
    (hnew : configOn paths disk' = (requested T platform action s).config) :
    ((platform.commandsBefore F.command action).map (·, disk) ++
      (platform.commandsAfter F.command F.status action).map (·, disk')).foldl (obey T paths)
        s.running = (requested T platform action s).running := by
  have htried := tried_done hcommands
  cases action with
  | status | readConfig => rfl
  | start => exact foldl_start hcommands hnew
  | restart => exact (foldl_restart hcommands _).trans (congrArg (startService T) hnew)
  | stop =>
      cases platform with
      | linux | macos => rfl
  | uninstall =>
      cases platform with
      | linux | macos =>
          simp only [Admin.Platform.commandsBefore, htried]
          rfl
  | install configToml expected =>
      cases platform with
      | linux =>
          show s.running.or (startService T (configOn paths disk')) = _
          rw [hnew]
          obtain ⟨draft, recoveryRequired, vault, minted, config, running⟩ := s
          cases running with
          | none | some => rfl
      | macos =>
          simp only [Admin.Platform.commandsBefore, htried]
          exact congrArg (startService T) hnew
  | update expected =>
      cases platform with
      | linux => exact congrArg (startService T) hnew
      | macos =>
          simp only [Admin.Platform.commandsBefore, htried]
          exact congrArg (startService T) hnew
  | repair expected configToml =>
      cases platform with
      | linux | macos =>
          simp only [Admin.Platform.commandsBefore, Admin.Platform.commandsAfter, htried]
          exact congrArg (startService T) hnew
  | applyConfig configToml restart =>
      rw [hstatus]
      cases hrunning : s.running with
      | none =>
          show none = if restart then s.running.bind _ else s.running
          rw [hrunning]
          cases restart with
          | false | true => rfl
      | some running =>
          cases restart with
          | false => exact hrunning.symm
          | true =>
              show _ = s.running.bind _
              rw [hrunning]
              exact (foldl_restart hcommands _).trans (congrArg (startService T) hnew)

/-- An action of the helper that succeeds does what the session says of it, where the
service manager knows the service and its commands take effect. -/
theorem executeAction_requested (parse : Str → Except Str Toml) {text : Str}
    (hcommands : ∀ c, F.command c = .done)
    (hstatus : F.status = .ok (if s.running.isSome then .running else .stopped))
    (hs : Mirrors paths h.disk s)
    (hrun : Admin.executeAction sha256 parse F paths A helper platform action h = (.ok text, h')) :
    Mirrors paths h'.disk (requested T platform action s) ∧
      ∃ given, h'.log = h.log ++ given ∧
        given.foldl (obey T paths) s.running = (requested T platform action s).running := by
  have hends : Effect.Ends _ (Admin.Off ⟨paths, fun _ _ => True, platform, h⟩
        (Admin.scopeOf paths platform h.disk action))
      (Admin.executeAction sha256 parse F paths A helper platform action h) :=
    Admin.leads_executeAction action (Admin.permits_true paths platform h action) h rfl
  rw [hrun] at hends
  have hmirrors := mirrors_requested (T := T) hends.2 hs
  obtain ⟨binary, content, -, -, hlog⟩ := hends.2
  refine ⟨hmirrors, _, hlog.trans (List.append_assoc _ _ _), ?_⟩
  exact foldl_obey hcommands hstatus hmirrors.configOn

end Correspondence

end DnsRelay.Gui
