import DnsRelay.Admin.LifecycleStages

/-!
# Stages of an apply

`apply_config` on the disk of an installation.  It writes three files, one of which
it moves over another, and the configuration goes through few values.  `Applying`
is the assertion along the code that goes through.  It has the three files and the
commands as they are.  `Amid` keeps less of it, for the code that is undone, and
`Halted` is what is left wherever an apply stops.  The permissions of a staged file
that is already there are kept, and the live file gets them.
-/

namespace DnsRelay.Admin

open Lib

/-! ## Operations -/

section Operations

variable {P E : ServiceHost → Prop} {F : ServiceFates} {paths : ServicePaths}

/-- Work on the disk of a host. -/
theorem triple_onDisk {α : Type} {m : Install α} {Q : α → ServiceHost → Prop}
    (h : ∀ s, P s → m.Triple (· = s.disk) (fun a disk => Q a { s with disk := disk })
      (fun disk => E { s with disk := disk })) : (onDisk m).Triple P Q E := by
  intro s hs
  have hends := h s hs s.disk rfl
  unfold onDisk
  generalize m s.disk = final at hends ⊢
  obtain ⟨result, disk⟩ := final
  cases result with
  | ok a => exact hends
  | error stop => exact hends

variable {Q : Unit → ServiceHost → Prop}

/-- A file is looked up, and it is an error if it is not there. -/
theorem triple_lookup {path : Path} {change : InstalledFile → Disk → Disk}
    (hoff : ∀ s, P s → E s)
    (hfound : ∀ s f, P s → s.disk.files path = some f →
      Q () { s with disk := change f s.disk }) :
    (onDisk (do
      let disk ← Effect.read id
      match disk.files path with
      | none => Effect.ofExcept (.error (.failed (.io notFound)))
      | some file => Effect.modify (change file))).Triple P Q E := by
  refine triple_onDisk fun s hs => ?_
  refine .bind (R := fun disk d => d = s.disk ∧ disk = s.disk) (.read fun d hd => ⟨hd, hd⟩)
    fun disk => .pull ?_
  rintro rfl
  split
  · exact .ofExcept (fun _ _ hr => by cases hr) (by rintro d rfl; exact hoff s hs)
  · next f hf =>
      refine .modify ?_
      rintro d rfl
      exact hfound s f hs hf

/-- An operation that may not be done. -/
theorem triple_meet_bind {fate : Fate} {f : Unit → Install Unit} (hoff : ∀ s, P s → E s)
    (hf : (onDisk (f ())).Triple P Q E) : (onDisk (meet fate >>= f)).Triple P Q E := by
  intro s hs
  cases fate with
  | done => exact hf s hs
  | failed text => exact hoff s hs
  | killed => exact hoff s hs

theorem triple_moveFile {fate : Fate} {source target : Path} (hoff : ∀ s, P s → E s)
    (hmoved : ∀ s f, P s → s.disk.files source = some f →
      Q () { s with disk := (s.disk.put target (some f)).put source none }) :
    (onDisk (moveFile fate source target)).Triple P Q E :=
  triple_meet_bind hoff (triple_lookup hoff hmoved)

theorem triple_copyConfig (hoff : ∀ s, P s → E s)
    (hcopied : ∀ s f, P s → s.disk.files (paths.path .config) = some f →
      Q () { s with disk := s.disk.put (paths.path .backup) (some f) })
    (hpart : ∀ s file, P s → E { s with disk := s.disk.put (paths.path .backup) file }) :
    (onDisk (copyConfig F paths)).Triple P Q E := by
  unfold copyConfig
  split
  · exact triple_lookup hoff hcopied
  · next hdone =>
      obtain ⟨stop, hstop⟩ := exists_stop hdone
      refine triple_onDisk fun s hs => .bind
        (R := fun _ d => d = s.disk.put (paths.path .backup) F.apply.copied)
        (.modify (by rintro d rfl; rfl)) fun _ => ?_
      rintro d rfl
      rw [meet_stop hstop]
      exact hpart s _ hs

theorem triple_openStagedConfig (hoff : ∀ s, P s → E s)
    (hopened : ∀ s, P s → Q () { s with disk := s.disk.write (paths.path .staged) [] }) :
    (onDisk (openStagedConfig F paths)).Triple P Q E := by
  refine triple_meet_bind hoff (triple_onDisk fun s hs => .bind (R := fun _ d => d = s.disk)
    (.read fun d hd => hd) fun disk => ?_)
  split
  · exact .ofExcept (fun _ _ hr => by cases hr) (by rintro d rfl; exact hoff s hs)
  · exact .modify (by rintro d rfl; exact hopened s hs)

theorem triple_writeStagedConfig {content : Bytes}
    (hwritten : ∀ s, P s → Q () { s with disk := s.disk.write (paths.path .staged) content })
    (hpart : ∀ s part, P s → E { s with disk := s.disk.write (paths.path .staged) part }) :
    (onDisk (writeStagedConfig F paths content)).Triple P Q E := by
  refine triple_onDisk fun s hs => .bind (R := fun _ d => d = s.disk.write (paths.path .staged) _)
    (.modify (by rintro d rfl; rfl)) fun _ => ?_
  rintro d rfl
  split
  · next hdone =>
      rw [hdone]
      exact hwritten s hs
  · next hdone =>
      obtain ⟨stop, hstop⟩ := exists_stop hdone
      rw [meet_stop hstop]
      exact hpart s _ hs

end Operations

/-! ## Stages -/

def applyTargets : List Target := [.config, .backup, .staged]

def Start.stagedMode (c : Start) : Nat :=
  ((c.host.disk.files (c.paths.path .staged)).map InstalledFile.mode).getD 0o600

def Start.kept (c : Start) : Option InstalledFile :=
  match c.host.disk.files (c.paths.path .config) with
  | some file => some { file with mode := 0o600 }
  | none => c.host.disk.files (c.paths.path .backup)

/-- An apply has begun, and the live file and the backup are these. -/
structure Amid (c : Start) (config backup : Option InstalledFile) (s : ServiceHost) : Prop where
  config : s.disk.files (c.paths.path .config) = config
  backup : s.disk.files (c.paths.path .backup) = backup
  mode : ∀ f, s.disk.files (c.paths.path .staged) = some f → f.mode = c.stagedMode
  frame : ∀ p, (∀ t ∈ applyTargets, p ≠ c.paths.path t) →
    s.disk.files p = c.host.disk.files p
  quiet : ∃ told, s.log = c.host.log ++ told ∧ ∀ x ∈ told, x.1 ∈ c.platform.quiet

/-- An apply has come this far, and the commands were given on this disk. -/
structure Applying (c : Start) (config backup staged : Option InstalledFile)
    (told : List ServiceCommand) (s : ServiceHost) : Prop extends Amid c config backup s where
  staged : s.disk.files (c.paths.path .staged) = staged
  log : s.log = c.host.log ++ told.map (·, s.disk)

/-- What the live file may be. -/
def Live (c : Start) (new : Bytes) (config : Option InstalledFile) : Prop :=
  config = c.host.disk.files (c.paths.path .config) ∨ config = some ⟨new, c.stagedMode⟩ ∨
    ∃ f, c.host.disk.files (c.paths.path .config) = some f ∧ config = some ⟨f.content, 0o600⟩

/-- An apply that stopped anywhere. -/
def Halted (c : Start) (new : Bytes) (s : ServiceHost) : Prop :=
  ∃ config backup, Amid c config backup s ∧ Live c new config

section Stages

variable {c : Start} {s : ServiceHost} {config backup staged : Option InstalledFile}
  {told : List ServiceCommand} {new : Bytes} {F : ServiceFates}

theorem frame_put {disk : Disk} {t : Target} (ht : t ∈ applyTargets)
    (hframe : ∀ p, (∀ t ∈ applyTargets, p ≠ c.paths.path t) →
      disk.files p = c.host.disk.files p) (file : Option InstalledFile) (p : Path)
    (hp : ∀ t ∈ applyTargets, p ≠ c.paths.path t) :
    (disk.put (c.paths.path t) file).files p = c.host.disk.files p :=
  (disk.put_ne (hp t ht) file).trans (hframe p hp)

theorem put_other {disk : Disk} {t t' : Target} (hne : t' ≠ t) (file : Option InstalledFile) :
    (disk.put (c.paths.path t) file).files (c.paths.path t') = disk.files (c.paths.path t') :=
  disk.put_ne (path_ne hne).1 file

theorem Amid.put_config (hs : Amid c config backup s) (file : Option InstalledFile) :
    Amid c file backup { s with disk := s.disk.put (c.paths.path .config) file } where
  config := s.disk.put_self _ _
  backup := (put_other (by decide) _).trans hs.backup
  mode f hf := hs.mode f ((put_other (by decide) _).symm.trans hf)
  frame := frame_put (by decide) hs.frame file
  quiet := hs.quiet

theorem Amid.put_backup (hs : Amid c config backup s) (file : Option InstalledFile) :
    Amid c config file { s with disk := s.disk.put (c.paths.path .backup) file } where
  config := (put_other (by decide) _).trans hs.config
  backup := s.disk.put_self _ _
  mode f hf := hs.mode f ((put_other (by decide) _).symm.trans hf)
  frame := frame_put (by decide) hs.frame file
  quiet := hs.quiet

theorem Amid.put_staged (hs : Amid c config backup s) {file : Option InstalledFile}
    (hmode : ∀ f, file = some f → f.mode = c.stagedMode) :
    Amid c config backup { s with disk := s.disk.put (c.paths.path .staged) file } where
  config := (put_other (by decide) _).trans hs.config
  backup := (put_other (by decide) _).trans hs.backup
  mode f hf := hmode f ((s.disk.put_self _ _).symm.trans hf)
  frame := frame_put (by decide) hs.frame file
  quiet := hs.quiet

theorem Amid.tell (hs : Amid c config backup s) {told : List ServiceCommand}
    (hquiet : told ⊆ c.platform.quiet) : Amid c config backup (s.tell told) where
  config := hs.config
  backup := hs.backup
  mode := hs.mode
  frame := hs.frame
  quiet := by
    obtain ⟨before, hlog, hbefore⟩ := hs.quiet
    refine ⟨before ++ told.map (·, s.disk), ?_, fun x hx => ?_⟩
    · rw [← List.append_assoc, ← hlog]
      rfl
    · rcases List.mem_append.mp hx with hx | hx
      · exact hbefore x hx
      · obtain ⟨command, hin, rfl⟩ := List.mem_map.mp hx
        exact hquiet hin

theorem Applying.start (hs : s = c.host) : Applying c (c.host.disk.files (c.paths.path .config))
    (c.host.disk.files (c.paths.path .backup)) (c.host.disk.files (c.paths.path .staged)) [] s := by
  subst hs
  refine ⟨⟨rfl, rfl, fun f hf => ?_, fun _ _ => rfl, [], ?_, ?_⟩, rfl, ?_⟩
  · rw [Start.stagedMode, hf]
    rfl
  · exact (List.append_nil _).symm
  · exact fun x hx => absurd hx List.not_mem_nil
  · exact (List.append_nil _).symm

theorem Amid.halted (hs : Amid c config backup s) (hlive : Live c new config) : Halted c new s :=
  ⟨config, backup, hs, hlive⟩

/-- The files of an installation are good if those that an apply writes are. -/
theorem Halted.off (hs : Halted c new s)
    (hconfig : c.Sound c.host → c.good .config ⟨new, c.stagedMode⟩)
    (hprivate : ∀ f, c.good .config f → c.good .config { f with mode := 0o600 })
    (hstaged : c.Sound c.host → ∀ f, f.mode = c.stagedMode → c.good .staged f)
    (hbackup : ∀ f, c.good .backup f) : Off c applyTargets s := by
  obtain ⟨config, backup, hamid, hlive⟩ := hs
  have hother : ∀ t ∉ applyTargets,
      s.disk.files (c.paths.path t) = c.host.disk.files (c.paths.path t) := by
    intro t ht
    refine hamid.frame _ fun t' ht' heq => ht ?_
    rwa [c.paths.injective heq]
  refine ⟨fun hh => ⟨⟨fun t f hf => ?_, fun hdef => ?_⟩, fun hlinux disk hin => ?_⟩,
    fun p hp => hamid.frame p fun t ht => (hp t ht).1⟩
  · cases t with
    | config =>
        rw [hamid.config] at hf
        rcases hlive with hold | hnew | ⟨f', hold, hnew⟩
        · exact hh.disk.files .config f (hold.symm.trans hf)
        · rw [← Option.some.inj (hnew.symm.trans hf)]
          exact hconfig hh
        · rw [← Option.some.inj (hnew.symm.trans hf)]
          exact hprivate f' (hh.disk.files .config f' hold)
    | backup => exact hbackup f
    | staged => exact hstaged hh f (hamid.mode f hf)
    | installedBinary | adminBinary | serviceDefinition | authorizationPolicy =>
        exact hh.disk.files _ f ((hother _ (by decide)).symm.trans hf)
  · obtain ⟨f, hf⟩ := hdef
    have hbefore := hh.disk.complete ⟨f, (hother _ (by decide)).symm.trans hf⟩
    refine ⟨⟨f, hf⟩, fun t ht => ?_⟩
    obtain ⟨f', hf'⟩ := hbefore.2 t ht
    simp only [needed, List.mem_cons, List.not_mem_nil, or_false] at ht
    rcases ht with rfl | rfl | rfl
    · exact ⟨f', (hother _ (by decide)).trans hf'⟩
    · exact ⟨f', (hother _ (by decide)).trans hf'⟩
    · rw [Present, hamid.config]
      rcases hlive with hold | hnew | ⟨f', -, hnew⟩
      · exact ⟨f', hold.trans hf'⟩
      · exact ⟨_, hnew⟩
      · exact ⟨_, hnew⟩
  · obtain ⟨told, hlog, hquiet⟩ := hamid.quiet
    rw [hlog] at hin
    rcases List.mem_append.mp hin with hin | hin
    · exact hh.enabled hlinux disk hin
    · have henable : ServiceCommand.enable ∈ c.platform.quiet := hquiet _ hin
      rw [hlinux] at henable
      exact absurd henable (by decide)

/-! ## The code -/

theorem halts_removeStaged :
    ((serviceOps F c.paths c.platform).removeStaged).Triple (Halted c new)
      (fun _ => Halted c new) (Halted c new) := by
  have hremoved : (onDisk (deleteFile F.apply.removeStaged (c.paths.path .staged))).Triple
      (Halted c new) (fun _ => Halted c new) (Halted c new) := by
    refine triple_meet_bind (fun _ hs => hs) (triple_onDisk fun s hs => .modify ?_)
    rintro disk rfl
    obtain ⟨config, backup, hamid, hlive⟩ := hs
    exact ⟨config, backup, hamid.put_staged fun f hf => (by cases hf), hlive⟩
  exact .orElseIf hremoved (.pure fun _ hs => hs) fun _ _ _ hs => hs

theorem write_staged (hs : Applying c config backup staged [] s) (content : Bytes)
    (hmode : (staged.map InstalledFile.mode).getD 0o600 = c.stagedMode) :
    Applying c config backup (some ⟨content, c.stagedMode⟩) []
      { s with disk := s.disk.write (c.paths.path .staged) content } := by
  rw [Disk.write, hs.staged, hmode]
  refine ⟨hs.toAmid.put_staged fun f hf => ?_, s.disk.put_self _ _, hs.log⟩
  rw [← Option.some.inj hf]

theorem halts_writeStaged (hlive : Live c new config)
    (hmode : (staged.map InstalledFile.mode).getD 0o600 = c.stagedMode) (content : Bytes) :
    ((serviceOps F c.paths c.platform).writeStaged content).Triple
      (Applying c config backup staged [])
      (fun _ => Applying c config backup (some ⟨content, c.stagedMode⟩) []) (Halted c new) := by
  have hoff : ∀ staged s, Applying c config backup staged [] s → Halted c new s :=
    fun _ _ hs => hs.toAmid.halted hlive
  refine .bind (R := fun _ => Applying c config backup (some ⟨[], c.stagedMode⟩) [])
    (triple_openStagedConfig (hoff _) fun s hs => write_staged hs [] hmode) fun _ => ?_
  refine .bind (R := fun _ => Applying c config backup (some ⟨content, c.stagedMode⟩) [])
    (triple_writeStagedConfig (fun s hs => write_staged hs content rfl)
      fun s part hs => hoff _ _ (write_staged hs part rfl)) fun _ => ?_
  exact triple_meet _ (hoff _)

theorem halts_backupConfig {file : InstalledFile} (hlive : Live c new (some file)) :
    ((serviceOps F c.paths c.platform).backupConfig).Triple
      (Applying c (some file) backup staged [])
      (fun _ => Applying c (some file) (some { file with mode := 0o600 }) staged [])
      (Halted c new) := by
  have hoff : ∀ backup s, Applying c (some file) backup staged [] s → Halted c new s :=
    fun _ _ hs => hs.toAmid.halted hlive
  have hput : ∀ {backup s} file', Applying c (some file) backup staged [] s →
      Applying c (some file) file' staged []
        { s with disk := s.disk.put (c.paths.path .backup) file' } :=
    fun file' hs => ⟨hs.toAmid.put_backup file', (put_other (by decide) _).trans hs.staged, hs.log⟩
  refine .bind (R := fun _ => Applying c (some file) (some file) staged [])
    (triple_copyConfig (hoff _) (fun s f hs hf => ?_) fun s file' hs => hoff _ _ (hput file' hs))
    fun _ => ?_
  · obtain rfl := Option.some.inj (hs.config.symm.trans hf)
    exact hput _ hs
  refine .bind
    (R := fun _ => Applying c (some file) (some { file with mode := 0o600 }) staged [])
    (triple_meet_bind (hoff _) (triple_onDisk fun s hs => .modify ?_)) fun _ => ?_
  · rintro disk rfl
    rw [hs.backup]
    exact hput _ hs
  · exact .bind (triple_meet _ (hoff _)) fun _ => triple_meet _ (hoff _)

theorem halts_renameStaged {file : InstalledFile} (hlive : Live c new config) :
    ((serviceOps F c.paths c.platform).renameStaged).Triple
      (Applying c config backup (some file) []) (fun _ => Applying c (some file) backup none [])
      (Halted c new) := by
  refine triple_moveFile (fun _ hs => hs.toAmid.halted hlive) fun s f hs hf => ?_
  obtain rfl := Option.some.inj (hs.staged.symm.trans hf)
  refine ⟨?_, Disk.put_self _ _ _, hs.log⟩
  exact (hs.toAmid.put_config (some file)).put_staged fun f hf => by cases hf

theorem halts_tells {m : Service Unit} (hm : Tells m told c.platform.quiet) :
    m.Triple (Halted c new) (fun _ => Halted c new) (Halted c new) := by
  intro s hs
  obtain ⟨config, backup, hamid, hlive⟩ := hs
  refine (hm.run s).conseq (fun _ ht => ht) ?_ ?_ s rfl
  · rintro _ t rfl
    exact ⟨config, backup, hamid.tell hm.subset, hlive⟩
  · rintro t ⟨told, rfl, hsub⟩
    exact ⟨config, backup, hamid.tell hsub, hlive⟩

/-- The live file is the backup again, or it is gone. -/
theorem halts_restoreConfig :
    ((serviceOps F c.paths c.platform).restoreConfig
        (c.host.disk.files (c.paths.path .config)).isSome).Triple
      (Amid c (some ⟨new, c.stagedMode⟩) c.kept) (fun _ => Halted c new) (Halted c new) := by
  have hoff : ∀ s, Amid c (some ⟨new, c.stagedMode⟩) c.kept s → Halted c new s :=
    fun _ hs => hs.halted (.inr (.inl rfl))
  unfold ApplyOps.restoreConfig
  cases hold : c.host.disk.files (c.paths.path .config) with
  | some file =>
      refine triple_moveFile hoff fun s f hs hf => ?_
      have hkept : c.kept = some { file with mode := 0o600 } := by
        rw [Start.kept, hold]
      obtain rfl := Option.some.inj ((hkept.symm.trans hs.backup.symm).trans hf)
      exact ((hs.put_config _).put_backup none).halted (.inr (.inr ⟨file, hold, rfl⟩))
  | none =>
      refine .bind (.read (Q := fun _ => Amid c (some ⟨new, c.stagedMode⟩) c.kept)
        fun s hs => hs) fun found => ?_
      cases found with
      | false => exact .pure hoff
      | true =>
          refine triple_meet_bind hoff (triple_onDisk fun s hs => .modify ?_)
          rintro disk rfl
          exact (hs.put_config none).halted (.inl hold.symm)

theorem halts_rollback (prior : ServiceStatus) :
    ((serviceOps F c.paths c.platform).rollback
        (c.host.disk.files (c.paths.path .config)).isSome prior).Triple
      (Amid c (some ⟨new, c.stagedMode⟩) c.kept) (fun _ => Halted c new) (Halted c new) := by
  refine .bind halts_restoreConfig fun _ => .bind (triple_meet _ fun _ hs => hs) fun _ => ?_
  cases prior with
  | stopped => exact halts_tells tells_stop
  | running =>
      exact .orElseIf (halts_tells tells_restart) (halts_tells tells_start) fun _ _ _ hs => hs

theorem halts_waitForHttpHealth {P E : ServiceHost → Prop} (hoff : ∀ s, P s → E s)
    (hasHttpHealth : Bool) :
    ((serviceOps F c.paths c.platform).waitForHttpHealth hasHttpHealth).Triple P (fun _ => P)
      E := by
  cases hasHttpHealth with
  | true => exact .check hoff
  | false => exact .pure fun _ hs => hs

theorem halts_takeOver (restart hasHttpHealth : Bool) (prior : ServiceStatus) :
    ((serviceOps F c.paths c.platform).takeOver restart hasHttpHealth prior).Triple
      (Applying c config backup staged [])
      (fun _ => Applying c config backup staged
        (c.platform.applyCommands F.command restart (.ok prior))) (Amid c config backup) := by
  have hoff : ∀ told s, Applying c config backup staged told s → Amid c config backup s :=
    fun _ _ hs => hs.toAmid
  cases prior with
  | stopped => exact .pure fun _ hs => hs
  | running =>
      cases restart with
      | false => exact halts_waitForHttpHealth (hoff []) _
      | true =>
          refine .bind ?_ fun _ => halts_waitForHttpHealth (hoff _) _
          intro s hs
          have htold : ∀ told, told ⊆ c.platform.quiet →
              Applying c config backup staged told (s.tell told) := by
            refine fun told hsub => ⟨hs.toAmid.tell hsub, hs.staged, ?_⟩
            rw [ServiceHost.tell, hs.log, List.map_nil, List.append_nil]
          refine (tells_restart.run s).conseq (fun _ ht => ht) ?_ ?_ s rfl
          · rintro _ t rfl
            exact htold _ tells_restart.subset
          · rintro t ⟨told, rfl, hsub⟩
            exact (htold told hsub).toAmid

/-- How an apply ends.  One that succeeds has put the new text in the place of the
live file, which is kept as the backup, and the service is told if it runs. -/
theorem halts_applyConfig (parse : Str → Except Str Toml) (configToml : Str) (restart : Bool) :
    ((serviceOps F c.paths c.platform).applyConfig parse configToml restart).Triple (· = c.host)
      (fun _ => Applying c (some ⟨utf8 configToml, c.stagedMode⟩) c.kept none
        (c.platform.applyCommands F.command restart F.status))
      (Halted c (utf8 configToml)) := by
  have hlive : Live c (utf8 configToml) (c.host.disk.files (c.paths.path .config)) := .inl rfl
  have hstart : ∀ s, s = c.host → Halted c (utf8 configToml) s :=
    fun _ hs => (Applying.start hs).toAmid.halted hlive
  have hleft : ∀ (e : Stop) s, Stop.goesOn e = false → Halted c (utf8 configToml) s →
      Halted c (utf8 configToml) s := fun _ _ _ hs => hs
  have hundo : ∀ (e : Stop) s, Stop.goesOn e = false →
      Amid c (some ⟨utf8 configToml, c.stagedMode⟩) c.kept s → Halted c (utf8 configToml) s :=
    fun _ _ _ hs => hs.halted (.inr (.inl rfl))
  refine .bind (R := fun _ s => s = c.host) (.ofExcept (fun _ _ _ hs => hs) hstart) fun _ => ?_
  refine .bind (R := fun prior s => s = c.host ∧ F.status = .ok prior)
    (.ofExcept (fun _ _ hr hs => ⟨hs, hr⟩) hstart) fun prior => .pull fun hstatus => ?_
  refine .bind (.onError ((halts_writeStaged hlive rfl _).conseq (fun _ => Applying.start)
    (fun _ _ hs => hs) (fun _ hs => hs)) halts_removeStaged hleft) fun _ => ?_
  refine .bind (.onError (.ofExcept (fun _ _ _ hs => hs) fun _ hs => hs.toAmid.halted hlive)
    halts_removeStaged hleft) fun _ => ?_
  refine .bind (.read (Q := fun had s => Applying c _ _ _ [] s ∧
    had = (c.host.disk.files (c.paths.path .config)).isSome)
      fun s hs => ⟨hs, by rw [hs.config]⟩) fun had => .pull ?_
  rintro rfl
  refine .bind (R := fun _ => Applying c (c.host.disk.files (c.paths.path .config)) c.kept
    (some ⟨utf8 configToml, c.stagedMode⟩) []) (.onError ?_ halts_removeStaged hleft) fun _ => ?_
  · rw [Start.kept]
    cases hold : c.host.disk.files (c.paths.path .config) with
    | none => exact .pure fun _ hs => hs
    | some file => exact halts_backupConfig (.inl hold.symm)
  refine .bind (.onError (halts_renameStaged hlive) halts_removeStaged hleft) fun _ => ?_
  refine .bind (.onError (triple_meet _ fun _ hs => hs.toAmid) (halts_rollback prior) hundo)
    fun _ => ?_
  rw [hstatus]
  exact .onError (halts_takeOver restart _ prior) (halts_rollback prior) hundo

end Stages

end DnsRelay.Admin
