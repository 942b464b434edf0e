import DnsRelay.Admin.Apply

/-!
# Installing files

`atomic_replace` of the privileged helper, by which the files of an installation
are written.  The content goes to a new file next to the destination, and that
file is moved in its place.  After an error the new file is removed.

`Fates` says what happens at each file operation: it is done, it fails, or the
process is killed before it.  So a record stands for one run, cut off anywhere.
Whatever happens, the destination has its old content or the new one.

A process that is killed removes nothing.  If it was writing the new file, that
file stays, and every later call finds it there and fails.
-/

namespace DnsRelay.Admin

open Lib

/-! ## The disk -/

structure InstalledFile where
  content : Bytes
  mode : Nat
deriving DecidableEq, Repr

structure Disk where
  dirs : Str → Bool
  files : Path → Option InstalledFile

def Disk.withDir (disk : Disk) (dir : Str) : Disk :=
  { disk with dirs := Function.update disk.dirs dir true }

def Disk.put (disk : Disk) (path : Path) (file : Option InstalledFile) : Disk :=
  { disk with files := Function.update disk.files path file }

@[simp] theorem Disk.put_self (disk : Disk) (path : Path) (file : Option InstalledFile) :
    (disk.put path file).files path = file := Function.update_self _ _ _

theorem Disk.put_ne (disk : Disk) {path path' : Path} (h : path' ≠ path)
    (file : Option InstalledFile) : (disk.put path file).files path' = disk.files path' :=
  Function.update_of_ne h _ _

def installingPath (destination : Path) : Path :=
  { destination with name := ".".toList ++ destination.name ++ ".installing".toList }

theorem installingPath_ne (destination : Path) : destination ≠ installingPath destination := by
  intro h
  have hlen := congrArg (fun path => path.name.length) h
  simp [installingPath] at hlen
  omega

/-! ## Operations -/

inductive Fate where
  | done
  | failed (text : Str)
  | killed
deriving DecidableEq, Repr

inductive Stop where
  | killed
  | failed (error : AdminError)
deriving DecidableEq, Repr

/-- What happens at each operation of a run. -/
structure Fates where
  createDirAll : Fate
  /-- `open` of the new file. -/
  openStaged : Fate
  write : Fate
  /-- How many bytes are written when that is not done. -/
  written : Nat
  /-- `sync_all` of the new file. -/
  syncStaged : Fate
  rename : Fate
  /-- `open` of the directory. -/
  openParent : Fate
  /-- `sync_all` of the directory. -/
  syncParent : Fate
  /-- `fs::remove_file`. -/
  removeStaged : Fate

def Fates.allDone : Fates := ⟨.done, .done, .done, 0, .done, .done, .done, .done, .done⟩

/-- Code that works on the disk. -/
abbrev Install (α : Type) : Type := Effect Disk Stop α

/-- How an operation that is not done stops the run. -/
def Fate.stop : Fate → Option Stop
  | .done => none
  | .failed text => some (.failed (.io text))
  | .killed => some .killed

def meet (fate : Fate) : Install Unit := Effect.check fate.stop

section Code

variable (F : Fates) (destination : Path) (mode : Nat) (content : Bytes)

/-- `fs::create_dir_all`. -/
def createDirAll : Install Unit := do
  meet F.createDirAll
  Effect.modify fun disk => disk.withDir destination.dir

/-- `options.open`, for a file that must not be there. -/
def openStaged : Install Unit := do
  meet F.openStaged
  let disk ← Effect.read id
  if disk.dirs destination.dir = false then
    Effect.ofExcept (.error (.failed (.io "No such file or directory (os error 2)".toList)))
  else if (disk.files (installingPath destination)).isSome then
    Effect.ofExcept (.error (.failed (.io "File exists (os error 17)".toList)))
  else Effect.modify fun disk => disk.put (installingPath destination) (some ⟨[], mode⟩)

/-- `write`, which `atomic_copy` and `atomic_write` pass. -/
def writeContent : Install Unit :=
  let written := if F.write = .done then content else content.take F.written
  do
    Effect.modify fun disk => disk.put (installingPath destination) (some ⟨written, mode⟩)
    meet F.write

/-- `fs::rename`. -/
def renameStaged : Install Unit := do
  meet F.rename
  let disk ← Effect.read id
  match disk.files (installingPath destination) with
  | none => Effect.ofExcept (.error (.failed (.io "No such file or directory (os error 2)".toList)))
  | some file =>
      Effect.modify fun disk =>
        (disk.put destination (some file)).put (installingPath destination) none

/-- The part of `atomic_replace` that is cleaned up after. -/
def writeAndRename : Install Unit := do
  writeContent F destination mode content
  meet F.syncStaged
  renameStaged F destination
  meet F.openParent
  meet F.syncParent

/-- `fs::remove_file` of the new file.  An error is not looked at. -/
def removeStaged : Install Unit := do
  meet F.removeStaged
  Effect.modify fun disk => disk.put (installingPath destination) none

/-- A cleanup after an error.  A process that is killed does not clean up. -/
def cleanedUp (m cleanup : Install Unit) : Install Unit := fun disk =>
  match m disk with
  | (.ok (), disk') => (.ok (), disk')
  | (.error .killed, disk') => (.error .killed, disk')
  | (.error (.failed error), disk') =>
      match cleanup disk' with
      | (.error .killed, disk'') => (.error .killed, disk'')
      | (_, disk'') => (.error (.failed error), disk'')

/-- `atomic_replace`. -/
def atomicReplace : Install Unit := do
  createDirAll F destination
  openStaged F destination mode
  cleanedUp (writeAndRename F destination mode content) (removeStaged F destination)

end Code

/-! ## The new file -/

def Fate.andThen : Fate → Fate → Fate
  | .done, next => next
  | fate, _ => fate

def Fates.staging (F : Fates) : Fate := F.write.andThen (F.syncStaged.andThen F.rename)

/-- The process is killed while the new file is there, or cannot remove it after
an error. -/
def Fates.LeavesStaged (F : Fates) : Prop :=
  F.createDirAll = .done ∧ F.openStaged = .done ∧ F.staging ≠ .done ∧
    (F.staging = .killed ∨ F.removeStaged ≠ .done)

instance (F : Fates) : Decidable F.LeavesStaged :=
  inferInstanceAs (Decidable (F.createDirAll = .done ∧ F.openStaged = .done ∧ F.staging ≠ .done ∧
    (F.staging = .killed ∨ F.removeStaged ≠ .done)))

theorem Fate.andThen_of_ne {fate : Fate} (h : fate ≠ .done) (next : Fate) :
    fate.andThen next = fate := by
  cases fate with
  | done => exact absurd rfl h
  | failed text => rfl
  | killed => rfl

theorem Fate.andThen_eq_done {fate next : Fate} :
    fate.andThen next = .done ↔ fate = .done ∧ next = .done := by
  cases fate <;> simp [Fate.andThen]

theorem meet_done {fate : Fate} (h : fate = .done) (disk : Disk) :
    meet fate disk = (.ok (), disk) := by
  rw [h]
  rfl

theorem meet_stop {fate : Fate} {stop : Stop} (h : fate.stop = some stop) (disk : Disk) :
    meet fate disk = (.error stop, disk) := by
  rw [meet, h]
  rfl

theorem exists_stop {fate : Fate} (h : fate ≠ .done) : ∃ stop, fate.stop = some stop := by
  cases fate with
  | done => exact absurd rfl h
  | failed text => exact ⟨_, rfl⟩
  | killed => exact ⟨_, rfl⟩

section Runs

variable {F : Fates} {destination : Path} {mode : Nat} {content : Bytes} {disk : Disk}

def Disk.installed (disk : Disk) (destination : Path) (file : InstalledFile) : Disk :=
  ((disk.put (installingPath destination) (some file)).put destination (some file)).put
    (installingPath destination) none

theorem Disk.installed_files (disk : Disk) (destination : Path) (file : InstalledFile) :
    (disk.installed destination file).files destination = some file ∧
      (disk.installed destination file).files (installingPath destination) = none := by
  refine ⟨?_, Disk.put_self _ _ _⟩
  rw [Disk.installed, Disk.put_ne _ (installingPath_ne destination), Disk.put_self]

theorem writeContent_done (h : F.write = .done) :
    writeContent F destination mode content disk =
      (.ok (), disk.put (installingPath destination) (some ⟨content, mode⟩)) := by
  rw [writeContent, if_pos h, h]
  rfl

theorem writeContent_stopped {stop : Stop} (h : F.write.stop = some stop) :
    writeContent F destination mode content disk = (.error stop,
      disk.put (installingPath destination) (some ⟨content.take F.written, mode⟩)) := by
  have hne : F.write ≠ .done := by
    intro hdone
    rw [hdone] at h
    cases h
  rw [writeContent, if_neg hne]
  exact (Effect.bind_ok rfl).trans (meet_stop h _)

/-- Before the new file is moved, only that file changes. -/
theorem writeAndRename_stopped (h : F.staging ≠ .done) :
    ∃ stop file, F.staging.stop = some stop ∧
      writeAndRename F destination mode content disk =
        (.error stop, disk.put (installingPath destination) (some file)) := by
  obtain ⟨stop, hstop⟩ := exists_stop h
  refine ⟨stop, ?_⟩
  rw [Fates.staging] at hstop ⊢
  by_cases hwrite : F.write = .done
  · rw [hwrite] at hstop
    refine ⟨⟨content, mode⟩, by rw [hwrite]; exact hstop, ?_⟩
    rw [writeAndRename, Effect.bind_ok (writeContent_done hwrite)]
    by_cases hsync : F.syncStaged = .done
    · rw [hsync] at hstop
      rw [Effect.bind_ok (meet_done hsync _)]
      exact Effect.bind_error (Effect.bind_error (meet_stop hstop _))
    · rw [Fate.andThen, Fate.andThen_of_ne hsync] at hstop
      exact Effect.bind_error (meet_stop hstop _)
  · rw [Fate.andThen_of_ne hwrite] at hstop ⊢
    exact ⟨_, hstop, Effect.bind_error (writeContent_stopped hstop)⟩

theorem renameStaged_done (h : F.rename = .done) {file : InstalledFile}
    (hfile : disk.files (installingPath destination) = some file) :
    renameStaged F destination disk =
      (.ok (), (disk.put destination (some file)).put (installingPath destination) none) := by
  rw [renameStaged, Effect.bind_ok (meet_done h _)]
  refine (Effect.bind_ok (show Effect.read id disk = (.ok disk, disk) from rfl)).trans ?_
  simp only [hfile]
  rfl

/-- Then the directory is all that is left to do. -/
theorem writeAndRename_renamed (h : F.staging = .done) :
    ∃ result, writeAndRename F destination mode content disk =
        (result, disk.installed destination ⟨content, mode⟩) ∧
      (F.openParent = .done → F.syncParent = .done → result = .ok ()) := by
  obtain ⟨hwrite, hrest⟩ := Fate.andThen_eq_done.mp h
  obtain ⟨hsync, hrename⟩ := Fate.andThen_eq_done.mp hrest
  rw [writeAndRename, Effect.bind_ok (writeContent_done hwrite),
    Effect.bind_ok (meet_done hsync _),
    Effect.bind_ok (renameStaged_done hrename (Disk.put_self _ _ _))]
  by_cases hopen : F.openParent = .done
  · rw [Effect.bind_ok (meet_done hopen _)]
    by_cases hparent : F.syncParent = .done
    · exact ⟨.ok (), meet_done hparent _, fun _ _ => rfl⟩
    · obtain ⟨stop, hstop⟩ := exists_stop hparent
      exact ⟨.error stop, meet_stop hstop _, fun _ hdone => absurd hdone hparent⟩
  · obtain ⟨stop, hstop⟩ := exists_stop hopen
    exact ⟨.error stop, Effect.bind_error (meet_stop hstop _), fun hdone => absurd hdone hopen⟩

theorem createDirAll_done (h : F.createDirAll = .done) :
    createDirAll F destination disk = (.ok (), disk.withDir destination.dir) := by
  rw [createDirAll, Effect.bind_ok (meet_done h _)]
  rfl

/-- The directory is there, so only the new file matters. -/
theorem openStaged_eq (h : F.openStaged = .done) :
    openStaged F destination mode (disk.withDir destination.dir) =
      if (disk.files (installingPath destination)).isSome then
        (.error (.failed (.io "File exists (os error 17)".toList)),
          disk.withDir destination.dir)
      else (.ok (), (disk.withDir destination.dir).put (installingPath destination)
        (some ⟨[], mode⟩)) := by
  have hdir : (disk.withDir destination.dir).dirs destination.dir = true :=
    Function.update_self _ _ _
  rw [openStaged, Effect.bind_ok (meet_done h _)]
  refine (Effect.bind_ok (show Effect.read id (disk.withDir destination.dir) =
    (.ok (disk.withDir destination.dir), disk.withDir destination.dir) from rfl)).trans ?_
  have hfiles : (disk.withDir destination.dir).files = disk.files := rfl
  rw [hdir, if_neg (by simp), hfiles]
  cases (disk.files (installingPath destination)).isSome with
  | false => rfl
  | true => rfl

def Disk.opened (disk : Disk) (destination : Path) (mode : Nat) : Disk :=
  (disk.withDir destination.dir).put (installingPath destination) (some ⟨[], mode⟩)

/-- A run that opens the new file. -/
theorem atomicReplace_opened (hdir : F.createDirAll = .done) (hopen : F.openStaged = .done)
    (hnone : disk.files (installingPath destination) = none) :
    atomicReplace F destination mode content disk =
      cleanedUp (writeAndRename F destination mode content) (removeStaged F destination)
        (disk.opened destination mode) := by
  have hstaged : openStaged F destination mode (disk.withDir destination.dir) =
      (.ok (), disk.opened destination mode) := by
    rw [openStaged_eq hopen, hnone]
    rfl
  rw [atomicReplace, Effect.bind_ok (createDirAll_done hdir), Effect.bind_ok hstaged]

/-- A run that does not open the new file changes no file. -/
theorem atomicReplace_refused
    (h : F.createDirAll ≠ .done ∨ F.openStaged ≠ .done ∨
      (disk.files (installingPath destination)).isSome = true) :
    ∃ stop disk', atomicReplace F destination mode content disk = (.error stop, disk') ∧
      disk'.files = disk.files := by
  by_cases hdir : F.createDirAll = .done
  · rw [atomicReplace, Effect.bind_ok (createDirAll_done hdir)]
    by_cases hopen : F.openStaged = .done
    · have hsome := (h.resolve_left (not_not.mpr hdir)).resolve_left (not_not.mpr hopen)
      exact ⟨_, _, Effect.bind_error ((openStaged_eq hopen).trans (if_pos hsome)), rfl⟩
    · obtain ⟨stop, hstop⟩ := exists_stop hopen
      exact ⟨stop, _, Effect.bind_error (Effect.bind_error (meet_stop hstop _)), rfl⟩
  · obtain ⟨stop, hstop⟩ := exists_stop hdir
    exact ⟨stop, _, Effect.bind_error (Effect.bind_error (meet_stop hstop _)), rfl⟩

theorem cleanedUp_killed {m cleanup : Install Unit} {disk' : Disk}
    (h : m disk = (.error .killed, disk')) :
    cleanedUp m cleanup disk = (.error .killed, disk') := by
  rw [cleanedUp, h]

/-- After an error, the cleanup has the last word on the disk. -/
theorem cleanedUp_failed {m cleanup : Install Unit} {error : AdminError} {disk' : Disk}
    (h : m disk = (.error (.failed error), disk')) :
    ∃ stop, cleanedUp m cleanup disk = (.error stop, (cleanup disk').2) := by
  simp only [cleanedUp, h]
  generalize cleanup disk' = result
  obtain ⟨result, disk''⟩ := result
  cases result with
  | ok => exact ⟨_, rfl⟩
  | error stop =>
      cases stop with
      | killed => exact ⟨_, rfl⟩
      | failed => exact ⟨_, rfl⟩

theorem removeStaged_disk : (removeStaged F destination disk).2 =
    if F.removeStaged = .done then disk.put (installingPath destination) none else disk := by
  by_cases hremove : F.removeStaged = .done
  · rw [if_pos hremove, removeStaged, Effect.bind_ok (meet_done hremove _)]
    rfl
  · obtain ⟨stop, hstop⟩ := exists_stop hremove
    rw [if_neg hremove, removeStaged, Effect.bind_error (meet_stop hstop _)]

theorem Disk.opened_destination (disk : Disk) (destination : Path) (mode : Nat) :
    (disk.opened destination mode).files destination = disk.files destination :=
  Disk.put_ne _ (installingPath_ne destination) _

/-- A run that stops before it moves the new file. -/
theorem atomicReplace_stopped (hdir : F.createDirAll = .done) (hopen : F.openStaged = .done)
    (hnone : disk.files (installingPath destination) = none) (hstaging : F.staging ≠ .done) :
    ∃ stop disk', atomicReplace F destination mode content disk = (.error stop, disk') ∧
      disk'.files destination = disk.files destination ∧
      (disk'.files (installingPath destination) = none ↔ ¬F.LeavesStaged) := by
  have hne := installingPath_ne destination
  have hdest := disk.opened_destination destination mode
  rw [atomicReplace_opened hdir hopen hnone]
  obtain ⟨stop, file, hstop, hbody⟩ := @writeAndRename_stopped F destination mode content
    (disk.opened destination mode) hstaging
  cases stop with
  | killed =>
      have hkilled : F.staging = .killed := by
        cases hfate : F.staging with
        | done => exact absurd hfate hstaging
        | failed => rw [hfate] at hstop; cases hstop
        | killed => rfl
      refine ⟨.killed, _, cleanedUp_killed hbody, (Disk.put_ne _ hne _).trans hdest, ?_⟩
      rw [Disk.put_self]
      exact iff_of_false (by simp) (not_not.mpr ⟨hdir, hopen, hstaging, .inl hkilled⟩)
  | failed error =>
      have hfailed : F.staging ≠ .killed := by
        intro hkilled
        rw [hkilled] at hstop
        cases hstop
      obtain ⟨stop, hrun⟩ := cleanedUp_failed hbody
      refine ⟨stop, _, hrun, ?_⟩
      rw [removeStaged_disk]
      by_cases hremove : F.removeStaged = .done
      · rw [if_pos hremove, Disk.put_ne _ hne, Disk.put_ne _ hne, Disk.put_self]
        exact ⟨hdest, iff_of_true rfl fun h => h.2.2.2.elim hfailed (absurd hremove)⟩
      · rw [if_neg hremove, Disk.put_ne _ hne, Disk.put_self]
        exact ⟨hdest, iff_of_false (by simp)
          (not_not.mpr ⟨hdir, hopen, hstaging, .inr hremove⟩)⟩

/-- A run that moves the new file. -/
theorem atomicReplace_renamed (hdir : F.createDirAll = .done) (hopen : F.openStaged = .done)
    (hnone : disk.files (installingPath destination) = none) (hstaging : F.staging = .done) :
    ∃ result disk', atomicReplace F destination mode content disk = (result, disk') ∧
      disk'.files destination = some ⟨content, mode⟩ ∧
      disk'.files (installingPath destination) = none ∧
      (F.openParent = .done → F.syncParent = .done → result = .ok ()) := by
  have hne := installingPath_ne destination
  rw [atomicReplace_opened hdir hopen hnone]
  obtain ⟨result, hbody, hresult⟩ := @writeAndRename_renamed F destination mode content
    (disk.opened destination mode) hstaging
  obtain ⟨hfile, hgone⟩ :=
    (disk.opened destination mode).installed_files destination ⟨content, mode⟩
  cases result with
  | ok =>
      refine ⟨.ok (), _, ?_, hfile, hgone, fun _ _ => rfl⟩
      rw [cleanedUp, hbody]
  | error stop =>
      have hparent : F.openParent = .done → F.syncParent = .done → False := by
        intro hopen hsync
        cases hresult hopen hsync
      cases stop with
      | killed =>
          exact ⟨_, _, cleanedUp_killed hbody, hfile, hgone,
            fun hopen hsync => (hparent hopen hsync).elim⟩
      | failed error =>
          obtain ⟨stop, hrun⟩ := cleanedUp_failed hbody
          refine ⟨_, _, hrun, ?_, ?_, fun hopen hsync => (hparent hopen hsync).elim⟩
          · rw [removeStaged_disk]
            split
            · rw [Disk.put_ne _ hne, hfile]
            · exact hfile
          · rw [removeStaged_disk]
            split
            · exact Disk.put_self _ _ _
            · exact hgone

end Runs

/-! ## Runs that are cut off -/

/-- A later run in which nothing fails installs the file exactly if no new file
is there. -/
theorem atomicReplace_allDone_iff (destination : Path) (mode : Nat) (content : Bytes)
    (disk : Disk) :
    (∃ disk', atomicReplace .allDone destination mode content disk = (.ok (), disk') ∧
        disk'.files destination = some ⟨content, mode⟩) ↔
      disk.files (installingPath destination) = none := by
  constructor
  · rintro ⟨disk', hrun, -⟩
    by_contra hsome
    obtain ⟨stop, disk'', hrefused, -⟩ :=
      @atomicReplace_refused .allDone destination mode content disk
        (.inr (.inr (Option.isSome_iff_ne_none.mpr hsome)))
    cases hrefused.symm.trans hrun
  · intro hnone
    obtain ⟨result, disk', hrun, hfile, -, hresult⟩ :=
      @atomicReplace_renamed .allDone destination mode content disk rfl rfl hnone rfl
    rw [hresult rfl rfl] at hrun
    exact ⟨disk', hrun, hfile⟩

/-- However a run ends, the destination has its old content or the new one.  A
later run in which nothing fails installs its file exactly if no new file was
there at first and the first run did not leave one. -/
theorem interrupted_replace_rerun_iff (F : Fates) (destination : Path) (mode mode' : Nat)
    (content content' : Bytes) (disk : Disk) :
    let interrupted := (atomicReplace F destination mode content disk).2
    (interrupted.files destination = disk.files destination ∨
        interrupted.files destination = some ⟨content, mode⟩) ∧
      ((∃ disk', atomicReplace .allDone destination mode' content' interrupted = (.ok (), disk') ∧
          disk'.files destination = some ⟨content', mode'⟩) ↔
        disk.files (installingPath destination) = none ∧ ¬F.LeavesStaged) := by
  intro interrupted
  rw [atomicReplace_allDone_iff]
  by_cases hstart : F.createDirAll = .done ∧ F.openStaged = .done ∧
      disk.files (installingPath destination) = none
  · obtain ⟨hdir, hopen, hnone⟩ := hstart
    by_cases hstaging : F.staging = .done
    · obtain ⟨result, disk', hrun, hfile, hgone, -⟩ :=
        @atomicReplace_renamed F destination mode content disk hdir hopen hnone hstaging
      have hinterrupted : interrupted = disk' := congrArg Prod.snd hrun
      rw [hinterrupted]
      exact ⟨.inr hfile, iff_of_true hgone ⟨hnone, fun h => h.2.2.1 hstaging⟩⟩
    · obtain ⟨stop, disk', hrun, hold, hgone⟩ :=
        @atomicReplace_stopped F destination mode content disk hdir hopen hnone hstaging
      have hinterrupted : interrupted = disk' := congrArg Prod.snd hrun
      rw [hinterrupted]
      exact ⟨.inl hold, hgone.trans (and_iff_right hnone).symm⟩
  · have hrefused : F.createDirAll ≠ .done ∨ F.openStaged ≠ .done ∨
        (disk.files (installingPath destination)).isSome = true := by
      rw [not_and_or, not_and_or, ← ne_eq (disk.files _), ← Option.isSome_iff_ne_none] at hstart
      exact hstart
    obtain ⟨stop, disk', hrun, hfiles⟩ :=
      @atomicReplace_refused F destination mode content disk hrefused
    have hinterrupted : interrupted = disk' := congrArg Prod.snd hrun
    rw [hinterrupted, hfiles]
    refine ⟨.inl rfl, (and_iff_left_of_imp fun hnone hleft => ?_).symm⟩
    exact hstart ⟨hleft.1, hleft.2.1, hnone⟩

/-- The process is killed before it moves the new file. -/
def killedAtRename : Fates := { Fates.allDone with rename := .killed }

/-- Killed once, a run is never repeated with success. -/
theorem killed_replace_blocks_rerun :
    let destination : Path := ⟨"/opt/dns-relay".toList, "dns_relay".toList⟩
    let disk : Disk := ⟨fun _ => true, fun _ => none⟩
    let interrupted := (atomicReplace killedAtRename destination 493 [1, 2] disk).2
    (atomicReplace killedAtRename destination 493 [1, 2] disk).1 = .error .killed ∧
      interrupted.files destination = none ∧
      (atomicReplace .allDone destination 493 [1, 2] interrupted).1 =
        .error (.failed (.io "File exists (os error 17)".toList)) ∧
      (atomicReplace .allDone destination 493 [1, 2] interrupted).2.files
        (installingPath destination) = some ⟨[1, 2], 493⟩ := by
  decide

end DnsRelay.Admin
