import DnsRelay.Admin.Commands

/-!
# Stages of an installation

An action of the helper may be cut off at any operation.  `At` is the assertion
that the proofs carry along the code.  It has the files that were touched, those
that are known and the commands that were given, before the first change and after
the last one.  `Off` is what is left of it where an action stops.  There is one rule
for each operation, and from them one for each payload and each call of a service
manager.
-/

namespace DnsRelay.Admin

open Lib

/-! ## What a replacement leaves alone -/

/-- Only the destination and the new file next to it may differ. -/
def Elsewhere (destination : Path) (disk disk' : Disk) : Prop :=
  ∀ p, p ≠ destination → p ≠ installingPath destination → disk'.files p = disk.files p

theorem Elsewhere.refl (destination : Path) (disk : Disk) : Elsewhere destination disk disk :=
  fun _ _ _ => rfl

theorem Elsewhere.trans {destination : Path} {a b c : Disk} (h : Elsewhere destination a b)
    (h' : Elsewhere destination b c) : Elsewhere destination a c :=
  fun p hp hp' => (h' p hp hp').trans (h p hp hp')

theorem Elsewhere.put_destination (destination : Path) (disk : Disk)
    (file : Option InstalledFile) :
    Elsewhere destination disk (disk.put destination file) :=
  fun _ hp _ => disk.put_ne hp file

theorem Elsewhere.put_staged (destination : Path) (disk : Disk) (file : Option InstalledFile) :
    Elsewhere destination disk (disk.put (installingPath destination) file) :=
  fun _ _ hp => disk.put_ne hp file

section Replace

variable {F : Fates} {destination : Path} {mode : Nat} {content : Bytes}

theorem after_meet (fate : Fate) : (meet fate).After (Elsewhere destination) := by
  intro disk
  cases fate with
  | done => exact .refl _ _
  | failed text => exact .refl _ _
  | killed => exact .refl _ _

/-- One piece of a replacement after another. -/
theorem after_bind {α β : Type} {m : Install α} {f : α → Install β}
    (hm : m.After (Elsewhere destination)) (hf : ∀ a, (f a).After (Elsewhere destination)) :
    (m >>= f).After (Elsewhere destination) :=
  Effect.After.bind hm hf (fun _ _ _ h h' => h.trans h') (fun _ _ h => h)

theorem after_openStaged : (openStaged F destination mode).After (Elsewhere destination) := by
  refine after_bind (after_meet _) fun _ => after_bind (fun disk => .refl _ _) fun disk => ?_
  split
  · exact .ofExcept (.refl _)
  · split
    · exact .ofExcept (.refl _)
    · exact fun disk => .put_staged _ _ _

theorem after_renameStaged : (renameStaged F destination).After (Elsewhere destination) := by
  refine after_bind (after_meet _) fun _ => after_bind (fun disk => .refl _ _) fun disk => ?_
  split
  · exact .ofExcept (.refl _)
  · exact fun disk => (Elsewhere.put_destination _ _ _).trans (.put_staged _ _ _)

theorem after_writeAndRename :
    (writeAndRename F destination mode content).After (Elsewhere destination) := by
  refine after_bind ?_ fun _ => after_bind (after_meet _) fun _ =>
    after_bind after_renameStaged fun _ => after_bind (after_meet _) fun _ => after_meet _
  exact after_bind (fun disk => .put_staged _ _ _) fun _ => after_meet _

theorem after_cleanedUp {m cleanup : Install Unit} (hm : m.After (Elsewhere destination))
    (hcleanup : cleanup.After (Elsewhere destination)) :
    (cleanedUp m cleanup).After (Elsewhere destination) := by
  intro disk
  have hdisk := hm disk
  unfold cleanedUp
  generalize m disk = final at hdisk ⊢
  obtain ⟨result, disk'⟩ := final
  cases result with
  | ok => exact hdisk
  | error stop =>
      cases stop with
      | killed => exact hdisk
      | failed error =>
          have hclean := hdisk.trans (hcleanup disk')
          simp only
          generalize cleanup disk' = final at hclean ⊢
          obtain ⟨result, disk''⟩ := final
          cases result with
          | ok => exact hclean
          | error stop =>
              cases stop with
              | killed => exact hclean
              | failed => exact hclean

theorem atomicReplace_elsewhere :
    (atomicReplace F destination mode content).After (Elsewhere destination) := by
  refine after_bind ?_ fun _ => after_bind after_openStaged fun _ => ?_
  · exact after_bind (after_meet _) fun _ disk => .refl _ _
  · refine after_cleanedUp after_writeAndRename ?_
    exact after_bind (after_meet _) fun _ disk => .put_staged _ _ _

theorem atomicReplace_destination (disk : Disk) :
    ∃ result disk', atomicReplace F destination mode content disk = (result, disk') ∧
      (disk'.files destination = some ⟨content, mode⟩ ∨
        disk'.files destination = disk.files destination ∧ result ≠ .ok ()) := by
  by_cases hstart : F.createDirAll = .done ∧ F.openStaged = .done ∧
      disk.files (installingPath destination) = none
  · obtain ⟨hdir, hopen, hnone⟩ := hstart
    by_cases hstaging : F.staging = .done
    · obtain ⟨result, disk', hrun, hfile, -⟩ :=
        @atomicReplace_renamed F destination mode content disk hdir hopen hnone hstaging
      exact ⟨result, disk', hrun, .inl hfile⟩
    · obtain ⟨stop, disk', hrun, hold, -⟩ :=
        @atomicReplace_stopped F destination mode content disk hdir hopen hnone hstaging
      exact ⟨_, disk', hrun, .inr ⟨hold, fun h => by cases h⟩⟩
  · have hrefused : F.createDirAll ≠ .done ∨ F.openStaged ≠ .done ∨
        (disk.files (installingPath destination)).isSome = true := by
      rw [not_and_or, not_and_or, ← ne_eq (disk.files _), ← Option.isSome_iff_ne_none] at hstart
      exact hstart
    obtain ⟨stop, disk', hrun, hfiles⟩ :=
      @atomicReplace_refused F destination mode content disk hrefused
    exact ⟨_, disk', hrun, .inr ⟨congrFun hfiles destination, fun h => by cases h⟩⟩

end Replace

/-! ## Installations -/

def needed : List Target := [.installedBinary, .adminBinary, .config]

section Assertions

variable (paths : ServicePaths) (good : Target → InstalledFile → Prop) (platform : Platform)

/-- The file is there. -/
def Present (disk : Disk) (t : Target) : Prop := ∃ file, disk.files (paths.path t) = some file

/-- Everything is there. -/
def Complete (disk : Disk) : Prop :=
  Present paths disk .serviceDefinition ∧ ∀ t ∈ needed, Present paths disk t

/-- No file is one that nobody asked for, and the definition comes with
everything it needs. -/
structure Sound (disk : Disk) : Prop where
  files : ∀ t file, disk.files (paths.path t) = some file → good t file
  complete : Present paths disk .serviceDefinition → Complete paths disk

/-- The disk is sound, and on Linux the service was enabled only on a complete
installation. -/
structure SoundHost (h : ServiceHost) : Prop where
  disk : Sound paths good h.disk
  enabled : platform = .linux → ∀ disk, (.enable, disk) ∈ h.log → Complete paths disk

/-- The paths that writing these files does not touch. -/
def Outside (touched : List Target) (p : Path) : Prop :=
  ∀ t ∈ touched, p ≠ paths.path t ∧ p ≠ installingPath (paths.path t)

end Assertions

/-- Where an action begins. -/
structure Start where
  paths : ServicePaths
  good : Target → InstalledFile → Prop
  platform : Platform
  host : ServiceHost

/-- The host is sound. -/
abbrev Start.Sound (c : Start) (s : ServiceHost) : Prop := SoundHost c.paths c.good c.platform s

abbrev Start.before (c : Start) (F : ServiceFates) (action : AdminAction) : List ServiceCommand :=
  c.platform.commandsBefore F.command action

abbrev Start.after (c : Start) (F : ServiceFates) (action : AdminAction) : List ServiceCommand :=
  c.platform.commandsAfter F.command F.status action

/-- An action that stopped anywhere. -/
structure Off (c : Start) (scope : List Target) (s : ServiceHost) : Prop where
  sound : c.Sound c.host → c.Sound s
  frame : ∀ p, Outside c.paths scope p → s.disk.files p = c.host.disk.files p

/-- An action has come this far. -/
structure At (c : Start) (before : List ServiceCommand) (touched : List Target)
    (known : List (Target × Option InstalledFile)) (told : List ServiceCommand)
    (s : ServiceHost) : Prop extends Off c touched s where
  files : ∀ t file, (t, file) ∈ known → s.disk.files (c.paths.path t) = file
  log : s.log = (c.host.tell before).log ++ told.map (·, s.disk)

/-- The order of changes.  A definition is written last and removed first. -/
def Allowed (known : List (Target × Option InstalledFile)) (t : Target) :
    Option InstalledFile → Prop
  | some _ => t = .serviceDefinition → ∀ t' ∈ needed, ∃ file, (t', some file) ∈ known
  | none => t ∈ needed → (.serviceDefinition, none) ∈ known

/-- The service is enabled only where everything is known to be there. -/
def Ready (platform : Platform) (known : List (Target × Option InstalledFile))
    (told : List ServiceCommand) : Prop :=
  .enable ∈ told → platform = .linux →
    ∀ t ∈ .serviceDefinition :: needed, ∃ f, (t, some f) ∈ known

section Rules

variable {c : Start} {s : ServiceHost} {scope touched : List Target}
  {known : List (Target × Option InstalledFile)} {before told : List ServiceCommand}
  {F : ServiceFates}

theorem Outside.of_subset {paths : ServicePaths} {p : Path} (hsub : touched ⊆ scope)
    (hp : Outside paths scope p) : Outside paths touched p := fun t ht => hp t (hsub ht)

theorem Off.widen (hs : Off c touched s) (hsub : touched ⊆ scope) : Off c scope s :=
  ⟨hs.sound, fun p hp => hs.frame p (hp.of_subset hsub)⟩

theorem path_ne {paths : ServicePaths} {t t' : Target} (hne : t' ≠ t) :
    paths.path t' ≠ paths.path t ∧ paths.path t' ≠ installingPath (paths.path t) :=
  ⟨fun heq => hne (paths.injective heq), fun heq => paths.installing_ne t t' heq.symm⟩

/-- A change of one file in the right order keeps the disk sound. -/
theorem Sound.change {paths : ServicePaths} {good : Target → InstalledFile → Prop}
    {disk disk' : Disk} (hs : Sound paths good disk)
    (hknown : ∀ t file, (t, file) ∈ known → disk.files (paths.path t) = file) {t : Target}
    {file : Option InstalledFile} (hfile : disk'.files (paths.path t) = file)
    (hother : ∀ t', t' ≠ t → disk'.files (paths.path t') = disk.files (paths.path t'))
    (hgood : ∀ f, file = some f → good t f) (hallowed : Allowed known t file) :
    Sound paths good disk' where
  files t' f hf := by
    by_cases ht : t' = t
    · subst ht
      exact hgood f (hfile.symm.trans hf)
    · exact hs.files t' f ((hother t' ht).symm.trans hf)
  complete hdef := by
    refine ⟨hdef, fun t' ht' => ?_⟩
    by_cases ht : t = .serviceDefinition
    · subst ht
      obtain ⟨f, hf⟩ := hdef
      have hne : t' ≠ .serviceDefinition := by
        rintro rfl
        exact absurd ht' (by decide)
      rw [hfile] at hf
      subst hf
      obtain ⟨f', hf'⟩ := hallowed rfl t' ht'
      exact ⟨f', (hother t' hne).trans (hknown t' _ hf')⟩
    · have hbefore : Present paths disk .serviceDefinition := by
        obtain ⟨f, hf⟩ := hdef
        exact ⟨f, (hother _ (Ne.symm ht)).symm.trans hf⟩
      by_cases heq : t' = t
      · subst heq
        cases file with
        | some f => exact ⟨f, hfile⟩
        | none =>
            obtain ⟨f, hf⟩ := hbefore
            rw [hknown _ _ (hallowed ht')] at hf
            cases hf
      · obtain ⟨f, hf⟩ := (hs.complete hbefore).2 t' ht'
        exact ⟨f, (hother t' heq).trans hf⟩

/-- A file is changed, and nothing else but the new file next to it. -/
theorem At.change (hs : At c before touched known [] s) {t : Target}
    {file : Option InstalledFile} {disk' : Disk} (hfile : disk'.files (c.paths.path t) = file)
    (helsewhere : Elsewhere (c.paths.path t) s.disk disk') (hnew : ∀ x, (t, x) ∉ known)
    (hgood : ∀ f, file = some f → c.good t f) (hallowed : Allowed known t file) :
    At c before (t :: touched) ((t, file) :: known) [] { s with disk := disk' } where
  sound hh := by
    have hother : ∀ t', t' ≠ t → disk'.files (c.paths.path t') = s.disk.files (c.paths.path t') :=
      fun t' hne => helsewhere _ (path_ne hne).1 (path_ne hne).2
    have hbefore := hs.sound hh
    exact ⟨hbefore.disk.change hs.files hfile hother hgood hallowed, hbefore.enabled⟩
  frame p hp := by
    have ht := hp t List.mem_cons_self
    rw [helsewhere p ht.1 ht.2]
    exact hs.frame p (hp.of_subset (List.subset_cons_self t touched))
  files t' x hx := by
    rcases List.mem_cons.mp hx with heq | hin
    · obtain ⟨rfl, rfl⟩ := Prod.mk.inj heq
      exact hfile
    · have hne : t' ≠ t := by
        rintro rfl
        exact hnew x hin
      rw [helsewhere _ (path_ne hne).1 (path_ne hne).2]
      exact hs.files t' x hin
  log := hs.log

/-- A file may not have been changed in the end. -/
theorem At.unchanged (hs : At c before touched known told s) {t : Target} {disk' : Disk}
    (hfile : disk'.files (c.paths.path t) = s.disk.files (c.paths.path t))
    (helsewhere : Elsewhere (c.paths.path t) s.disk disk') :
    Off c (t :: touched) { s with disk := disk' } where
  sound hh := by
    have hsame : ∀ t', disk'.files (c.paths.path t') = s.disk.files (c.paths.path t') := by
      intro t'
      by_cases hne : t' = t
      · rw [hne, hfile]
      · exact helsewhere _ (path_ne hne).1 (path_ne hne).2
    have hbefore := hs.sound hh
    refine ⟨⟨fun t' f hf => ?_, fun hdef => ?_⟩, hbefore.enabled⟩
    · exact hbefore.disk.files t' f ((hsame t').symm.trans hf)
    · simp only [Complete, Present, hsame] at hdef ⊢
      exact hbefore.disk.complete hdef
  frame p hp := by
    have ht := hp t List.mem_cons_self
    rw [helsewhere p ht.1 ht.2]
    exact hs.frame p (hp.of_subset (List.subset_cons_self t touched))

/-- Something else is known of a file. -/
theorem At.learn (hs : At c before touched known told s) {t : Target}
    {file : Option InstalledFile} (hfile : s.disk.files (c.paths.path t) = file) :
    At c before touched ((t, file) :: known) told s where
  toOff := hs.toOff
  files t' x hx := by
    rcases List.mem_cons.mp hx with heq | hx
    · obtain ⟨rfl, rfl⟩ := Prod.mk.inj heq
      exact hfile
    · exact hs.files t' x hx
  log := hs.log

/-- Commands keep a host sound, if the service is enabled only where everything is
there. -/
theorem SoundHost.tell {paths : ServicePaths} {good : Target → InstalledFile → Prop}
    {platform : Platform} (hs : SoundHost paths good platform s)
    (hready : .enable ∈ told → platform = .linux → Complete paths s.disk) :
    SoundHost paths good platform (s.tell told) where
  disk := hs.disk
  enabled hlinux disk hin := by
    rcases List.mem_append.mp hin with hin | hin
    · exact hs.enabled hlinux disk hin
    · obtain ⟨x, hx, heq⟩ := List.mem_map.mp hin
      obtain ⟨rfl, rfl⟩ := Prod.mk.inj heq
      exact hready hx hlinux

theorem Platform.quiet_ready {platform : Platform} (hsub : told ⊆ platform.quiet) :
    Ready platform known told := by
  rintro henable rfl
  exact absurd (hsub henable) (by decide)

theorem At.tell {told' : List ServiceCommand} (hs : At c before touched known told s)
    (hready : Ready c.platform known told') :
    At c before touched known (told ++ told') (s.tell told') := by
  refine ⟨⟨fun hh => (hs.sound hh).tell fun henable hlinux => ?_, hs.frame⟩, hs.files, ?_⟩
  · have hpresent : ∀ t ∈ .serviceDefinition :: needed, Present c.paths s.disk t := by
      intro t ht
      obtain ⟨f, hf⟩ := hready henable hlinux t ht
      exact ⟨f, hs.files t _ hf⟩
    exact ⟨hpresent _ List.mem_cons_self, fun t ht => hpresent t (List.mem_cons_of_mem _ ht)⟩
  · show s.log ++ _ = _
    rw [hs.log, List.map_append, ← List.append_assoc]
    rfl

/-- Some commands have been given, and nothing has changed. -/
theorem At.start (hquiet : before ⊆ c.platform.quiet) :
    At c before [] [] [] (c.host.tell before) where
  sound hh := hh.tell fun henable hlinux => by
    rw [hlinux] at hquiet
    exact absurd (hquiet henable) (by decide)
  frame _ _ := rfl
  files _ _ hin := absurd hin List.not_mem_nil
  log := (List.append_nil _).symm

theorem At.start_nil (hs : s = c.host) : At c [] [] [] [] s := by
  rw [hs, ← tell_nil c.host]
  exact .start (List.nil_subset _)

/-- The code goes from one stage to the next, or stops with changes in the scope
only. -/
abbrev Leads {α : Type} (c : Start) (P : ServiceHost → Prop) (m : Service α)
    (Q : α → ServiceHost → Prop) (scope : List Target) : Prop :=
  m.Triple P Q (Off c scope)

theorem triple_meet (fate : Fate) {P E : ServiceHost → Prop} (hoff : ∀ s, P s → E s) :
    (onDisk (meet fate)).Triple P (fun _ => P) E := by
  intro s hs
  cases fate with
  | done => exact hs
  | failed text => exact hoff s hs
  | killed => exact hoff s hs

theorem leads_before {m : Service Unit} (hm : Tells m told c.platform.quiet) :
    Leads c (· = c.host) m (fun _ => At c told [] [] []) scope := by
  refine (hm.run c.host).conseq (fun _ hs => hs) ?_ ?_
  · rintro _ s rfl
    exact .start hm.subset
  · rintro s ⟨before, rfl, hsub⟩
    exact (At.start hsub).toOff.widen (List.nil_subset _)

theorem leads_after {m : Service Unit} {among : List ServiceCommand} (hm : Tells m told among)
    (hready : ∀ told, told ⊆ among → Ready c.platform known told) (hsub : touched ⊆ scope) :
    Leads c (At c before touched known []) m (fun _ => At c before touched known told) scope := by
  intro s hs
  refine (hm.run s).conseq (fun _ ht => ht) ?_ ?_ s rfl
  · rintro _ t rfl
    exact hs.tell (hready told hm.subset)
  · rintro t ⟨told, rfl, htold⟩
    exact (hs.tell (hready told htold)).toOff.widen hsub

theorem triple_mapErr {α : Type} {f : AdminError → AdminError} {m : Service α}
    {P E : ServiceHost → Prop} {Q : α → ServiceHost → Prop} (hm : m.Triple P Q E) :
    (mapErr f m).Triple P Q E := by
  intro s hs
  have hends := hm s hs
  unfold mapErr
  generalize m s = final at hends ⊢
  obtain ⟨result, s'⟩ := final
  cases result with
  | ok a => exact hends
  | error stop =>
      cases stop with
      | killed => exact hends
      | failed error => exact hends

theorem leads_atomicWrite {t : Target} (content : Bytes) (mode : Nat)
    (hsub : t :: touched ⊆ scope) (hnew : ∀ x, (t, x) ∉ known) (hgood : c.good t ⟨content, mode⟩)
    (hallowed : Allowed known t (some ⟨content, mode⟩)) :
    Leads c (At c before touched known []) (atomicWrite F c.paths t content mode)
      (fun _ => At c before (t :: touched) ((t, some ⟨content, mode⟩) :: known) []) scope := by
  intro s hs
  obtain ⟨result, disk', hrun, hends⟩ :=
    @atomicReplace_destination (F.replace t) (c.paths.path t) mode content s.disk
  have helsewhere :=
    @atomicReplace_elsewhere (F.replace t) (c.paths.path t) mode content s.disk
  rw [hrun] at helsewhere
  rw [atomicWrite, onDisk, hrun]
  rcases hends with hfile | ⟨hfile, hstopped⟩
  · have hat := hs.change hfile helsewhere hnew
      (fun f hf => Option.some.inj hf ▸ hgood) hallowed
    cases result with
    | ok => exact hat
    | error stop => exact hat.toOff.widen hsub
  · cases result with
    | ok => exact absurd rfl hstopped
    | error stop => exact (hs.unchanged hfile helsewhere).widen hsub

theorem leads_removeIfPresent {t : Target} (hsub : t :: touched ⊆ scope)
    (hnew : ∀ x, (t, x) ∉ known) (hallowed : Allowed known t none) :
    Leads c (At c before touched known []) (removeIfPresent F c.paths t)
      (fun _ => At c before (t :: touched) ((t, none) :: known) []) scope := by
  have htouched : touched ⊆ scope := fun t ht => hsub (List.mem_cons_of_mem _ ht)
  refine .bind (triple_meet _ fun s hs => hs.toOff.widen htouched) fun _ => .modify fun s hs => ?_
  exact hs.change (s.disk.put_self _ _) (.put_destination _ _ _) hnew (fun f hf => by cases hf)
    hallowed

/-- A file that was not touched is read as it was at first. -/
theorem leads_readSource (fate : Fate) (source : Path) (hsub : touched ⊆ scope) :
    Leads c (At c before touched known told) (readSource fate source)
      (fun content s => At c before touched known told s ∧
        (Outside c.paths touched source →
          ∃ mode, c.host.disk.files source = some ⟨content, mode⟩)) scope := by
  have hoff : ∀ s, At c before touched known told s → Off c scope s :=
    fun s hs => hs.toOff.widen hsub
  refine .bind (triple_meet fate hoff) fun _ => ?_
  refine .bind (R := fun file s => At c before touched known told s ∧
    s.disk.files source = file) (.read fun s hs => ⟨hs, rfl⟩) fun file => ?_
  cases file with
  | none => exact .ofExcept (fun _ _ hr => by cases hr) fun s hs => hoff s hs.1
  | some file =>
      refine .pure fun s hs => ⟨hs.1, fun hout => ⟨file.mode, ?_⟩⟩
      rw [← hs.1.frame source hout, hs.2]

theorem leads_atomicCopy {t : Target} (source : Path) (mode : Nat) (hsub : t :: touched ⊆ scope)
    (hnew : ∀ x, (t, x) ∉ known)
    (hgood : ∀ content, (Outside c.paths touched source →
      ∃ m, c.host.disk.files source = some ⟨content, m⟩) → c.good t ⟨content, mode⟩)
    (hallowed : t ≠ .serviceDefinition) :
    Leads c (At c before touched known []) (atomicCopy F c.paths source t mode)
      (fun _ s => ∃ content, At c before (t :: touched)
          ((t, some ⟨content, mode⟩) :: known) [] s ∧
        (Outside c.paths touched source → ∃ m, c.host.disk.files source = some ⟨content, m⟩))
      scope := by
  have htouched : touched ⊆ scope := fun t ht => hsub (List.mem_cons_of_mem _ ht)
  refine .bind (leads_readSource _ source htouched) fun content => .pull fun hsource => ?_
  refine (leads_atomicWrite content mode hsub hnew (hgood content hsource)
    (fun heq => absurd heq hallowed)).conseq (fun _ hs => hs) ?_ (fun _ hs => hs)
  exact fun _ s hs => ⟨content, hs, hsource⟩

theorem leads_createLogs (hsub : touched ⊆ scope) :
    Leads c (At c before touched known []) (createLogs F c.paths)
      (fun _ => At c before touched known []) scope := by
  refine .bind (triple_meet _ fun s hs => hs.toOff.widen hsub) fun _ => .modify fun s hs => ?_
  refine ⟨⟨fun hh => ⟨⟨?_, ?_⟩, (hs.sound hh).enabled⟩, hs.frame⟩, hs.files, hs.log⟩
  · exact (hs.sound hh).disk.files
  · exact (hs.sound hh).disk.complete

end Rules

/-! ## Payloads -/

/-- The definition, and on Linux the policy, which is written after it. -/
def Platform.definitions : Platform → List Target
  | .linux => [.authorizationPolicy, .serviceDefinition]
  | .macos => [.serviceDefinition]

def Platform.definitionFiles (A : Assets) : Platform → List (Target × Option InstalledFile)
  | .linux =>
      [(.authorizationPolicy, some ⟨A.policy, 0o644⟩),
        (.serviceDefinition, some ⟨A.definition, 0o644⟩)]
  | .macos => [(.serviceDefinition, some ⟨A.definition, 0o644⟩)]

def binaryFiles (binary helper : Bytes) : List (Target × Option InstalledFile) :=
  [(.adminBinary, some ⟨helper, 0o755⟩), (.installedBinary, some ⟨binary, 0o755⟩)]

def repairTouched (paths : ServicePaths) (disk : Disk) : List Target :=
  if (disk.files (paths.path .config)).isSome then [.adminBinary, .installedBinary]
  else [.config, .adminBinary, .installedBinary]

def repairConfig (paths : ServicePaths) (disk : Disk) (configToml : Str) : InstalledFile :=
  (disk.files (paths.path .config)).getD ⟨utf8 configToml, 0o600⟩

/-- The helper that is installed is the one that runs. -/
def HelperIs (paths : ServicePaths) (disk : Disk) (helper : Path) (content : Bytes) : Prop :=
  Outside paths [.installedBinary] helper → ∃ mode, disk.files helper = some ⟨content, mode⟩

/-- What may be written. -/
structure Grants (good : Target → InstalledFile → Prop) (A : Assets) (binary : Bytes) : Prop where
  binary : good .installedBinary ⟨binary, 0o755⟩
  helper : ∀ content, good .adminBinary ⟨content, 0o755⟩
  definition : good .serviceDefinition ⟨A.definition, 0o644⟩
  policy : good .authorizationPolicy ⟨A.policy, 0o644⟩

section Payloads

variable {c : Start} {scope touched : List Target} {before told : List ServiceCommand}
  {F : ServiceFates} {A : Assets} {helper : Path} {binary : InstalledFile} {configToml : Str}

theorem leads_copyBinaries (hbinary : c.host.disk.files (bundledResolver helper) = some binary)
    (hg : Grants c.good A binary.content) (hsub : [.adminBinary, .installedBinary] ⊆ scope) :
    Leads c (At c before [] [] []) (copyBinaries F c.paths helper)
      (fun _ s => ∃ x, At c before [.adminBinary, .installedBinary]
        (binaryFiles binary.content x) [] s ∧ HelperIs c.paths c.host.disk helper x) scope := by
  have hsource : ∀ content, (Outside c.paths [] (bundledResolver helper) →
      ∃ m, c.host.disk.files (bundledResolver helper) = some ⟨content, m⟩) →
      content = binary.content := by
    intro content hcontent
    obtain ⟨m, hm⟩ := hcontent fun t ht => absurd ht List.not_mem_nil
    rw [hbinary] at hm
    rw [Option.some.inj hm]
  refine .bind (leads_atomicCopy _ 0o755 ?_ (fun x hx => absurd hx List.not_mem_nil)
    (fun content hcontent => hsource content hcontent ▸ hg.binary) (by decide)) fun _ => ?_
  · exact fun t ht => hsub (List.mem_cons_of_mem _ ht)
  · refine .some_pre fun content => .pull fun hcontent => ?_
    rw [hsource content hcontent]
    refine leads_atomicCopy helper 0o755 hsub ?_ (fun content _ => hg.helper content) (by decide)
    intro x hx
    cases List.mem_singleton.mp hx

theorem leads_writeConfig {known : List (Target × Option InstalledFile)}
    (hgood : c.good .config ⟨utf8 configToml, 0o600⟩) (hsub : .config :: touched ⊆ scope)
    (hnew : ∀ x, (.config, x) ∉ known) :
    Leads c (At c before touched known []) (writeConfig F c.paths configToml)
      (fun _ => At c before (.config :: touched)
        ((.config, some ⟨utf8 configToml, 0o600⟩) :: known) []) scope :=
  leads_atomicWrite _ _ hsub hnew hgood fun heq => by cases heq

theorem config_not_binary {b x : Bytes} (file : Option InstalledFile) :
    (Target.config, file) ∉ binaryFiles b x := by
  simp [binaryFiles]

/-- A repair writes the configuration only if there is none. -/
theorem leads_writeMissingConfig {x : Bytes} (hgood : c.good .config ⟨utf8 configToml, 0o600⟩)
    (hsub : repairTouched c.paths c.host.disk ⊆ scope) :
    Leads c (At c before [.adminBinary, .installedBinary] (binaryFiles binary.content x) [])
      (writeMissingConfig F c.paths configToml)
      (fun _ => At c before (repairTouched c.paths c.host.disk)
        ((.config, some (repairConfig c.paths c.host.disk configToml)) ::
          binaryFiles binary.content x) []) scope := by
  have houtside : Outside c.paths [.adminBinary, .installedBinary] (c.paths.path .config) := by
    intro t ht
    refine path_ne ?_
    rintro rfl
    simp at ht
  refine .bind (R := fun found s => At c before [.adminBinary, .installedBinary]
      (binaryFiles binary.content x) [] s ∧
        found = (c.host.disk.files (c.paths.path .config)).isSome)
    (.read fun s hs => ⟨hs, by rw [hs.frame _ houtside]⟩) fun found => .pull fun hfound => ?_
  cases hconfig : c.host.disk.files (c.paths.path .config) with
  | none =>
      simp only [repairTouched, repairConfig, hconfig, Option.isSome_none, Bool.false_eq_true,
        if_false, Option.getD_none] at hsub hfound ⊢
      rw [hfound, if_neg Bool.false_ne_true]
      exact leads_writeConfig hgood hsub config_not_binary
  | some file =>
      simp only [repairTouched, repairConfig, hconfig, Option.isSome_some, if_true,
        Option.getD_some] at hsub hfound ⊢
      rw [hfound, if_pos rfl]
      exact .pure fun s hs => hs.learn ((hs.frame _ houtside).trans hconfig)

theorem leads_writeDefinition {b x : Bytes} {config : InstalledFile} (hg : Grants c.good A b)
    (hsub : c.platform.definitions ++ touched ⊆ scope) :
    Leads c (At c before touched ((.config, some config) :: binaryFiles b x) [])
      (c.platform.writeDefinition F c.paths A)
      (fun _ => At c before (c.platform.definitions ++ touched)
        (c.platform.definitionFiles A ++ (.config, some config) :: binaryFiles b x) [])
      scope := by
  have hneeded : Allowed ((.config, some config) :: binaryFiles b x) .serviceDefinition
      (some ⟨A.definition, 0o644⟩) := by
    intro _ t ht
    simp only [needed, List.mem_cons, List.not_mem_nil, or_false] at ht
    rcases ht with rfl | rfl | rfl
    · exact ⟨_, by simp [binaryFiles]; rfl⟩
    · exact ⟨_, by simp [binaryFiles]; rfl⟩
    · exact ⟨_, List.mem_cons_self⟩
  have hnew : ∀ y, (.serviceDefinition, y) ∉ (.config, some config) :: binaryFiles b x := by
    simp [binaryFiles]
  obtain ⟨paths, good, platform, host⟩ := c
  cases platform with
  | macos => exact leads_atomicWrite _ _ hsub hnew hg.definition hneeded
  | linux =>
      refine .bind (leads_atomicWrite _ _ ?_ hnew hg.definition hneeded) fun _ => ?_
      · exact fun t ht => hsub (List.mem_cons_of_mem _ ht)
      · refine leads_atomicWrite _ _ hsub ?_ hg.policy fun heq => by cases heq
        simp [binaryFiles]

/-- The stage that a payload ends in. -/
def Installed (c : Start) (A : Assets) (helper : Path) (binary : Bytes)
    (before : List ServiceCommand) (touched : List Target) (config : InstalledFile)
    (told : List ServiceCommand) (s : ServiceHost) : Prop :=
  ∃ x, At c before (c.platform.definitions ++ touched)
    (c.platform.definitionFiles A ++ (.config, some config) :: binaryFiles binary x) told s ∧
      HelperIs c.paths c.host.disk helper x

theorem leads_installPayload (hbinary : c.host.disk.files (bundledResolver helper) = some binary)
    (hg : Grants c.good A binary.content) (hgood : c.good .config ⟨utf8 configToml, 0o600⟩)
    (hsub : c.platform.definitions ++ [.config, .adminBinary, .installedBinary] ⊆ scope) :
    Leads c (At c before [] [] []) (c.platform.installPayload F c.paths A helper configToml)
      (fun _ => Installed c A helper binary.content before
        [.config, .adminBinary, .installedBinary] ⟨utf8 configToml, 0o600⟩ []) scope := by
  have hwritten : [.config, .adminBinary, .installedBinary] ⊆ scope :=
    fun t ht => hsub (List.mem_append_right _ ht)
  refine .bind (leads_createLogs (List.nil_subset _)) fun _ => ?_
  refine .bind (leads_copyBinaries hbinary hg fun t ht => hwritten (List.mem_cons_of_mem _ ht))
    fun _ => .some_pre fun x => .pull fun hhelper => ?_
  refine .bind (leads_writeConfig hgood hwritten config_not_binary) fun _ => ?_
  exact (leads_writeDefinition hg hsub).conseq (fun _ hs => hs)
    (fun _ s hs => ⟨x, hs, hhelper⟩) (fun _ hs => hs)

theorem leads_repairPayload (hbinary : c.host.disk.files (bundledResolver helper) = some binary)
    (hg : Grants c.good A binary.content) (hgood : c.good .config ⟨utf8 configToml, 0o600⟩)
    (hsub : c.platform.definitions ++ repairTouched c.paths c.host.disk ⊆ scope) :
    Leads c (At c before [] [] []) (c.platform.repairPayload F c.paths A helper configToml)
      (fun _ => Installed c A helper binary.content before (repairTouched c.paths c.host.disk)
        (repairConfig c.paths c.host.disk configToml) []) scope := by
  have hwritten : repairTouched c.paths c.host.disk ⊆ scope :=
    fun t ht => hsub (List.mem_append_right _ ht)
  have hbinaries : [.adminBinary, .installedBinary] ⊆ repairTouched c.paths c.host.disk := by
    rw [repairTouched]
    split
    · exact fun t ht => ht
    · exact List.subset_cons_self _ _
  refine .bind (leads_createLogs (List.nil_subset _)) fun _ => ?_
  refine .bind (leads_copyBinaries hbinary hg fun t ht => hwritten (hbinaries ht))
    fun _ => .some_pre fun x => .pull fun hhelper => ?_
  refine .bind (leads_writeMissingConfig hgood hwritten) fun _ => ?_
  exact (leads_writeDefinition hg hsub).conseq (fun _ hs => hs)
    (fun _ s hs => ⟨x, hs, hhelper⟩) (fun _ hs => hs)

end Payloads

/-! ## Service managers -/

section Managers

variable {c : Start} {scope touched : List Target}
  {known : List (Target × Option InstalledFile)} {before told : List ServiceCommand}
  {F : ServiceFates} {A : Assets} {helper : Path} {binary : Bytes} {config : InstalledFile}

/-- After a payload everything is known to be there. -/
theorem ready_installed {b x : Bytes} (told : List ServiceCommand) : Ready c.platform
    (c.platform.definitionFiles A ++ (.config, some config) :: binaryFiles b x) told := by
  intro _ hlinux t ht
  rw [hlinux]
  simp only [needed, List.mem_cons, List.not_mem_nil, or_false] at ht
  rcases ht with rfl | rfl | rfl | rfl
  · exact ⟨⟨A.definition, 0o644⟩, by simp [Platform.definitionFiles]⟩
  · exact ⟨⟨b, 0o755⟩, by simp [binaryFiles]⟩
  · exact ⟨⟨x, 0o755⟩, by simp [binaryFiles]⟩
  · exact ⟨config, by simp⟩

theorem leads_installed {m : Service Unit} {among : List ServiceCommand} (hm : Tells m told among)
    (hsub : c.platform.definitions ++ touched ⊆ scope) :
    Leads c (Installed c A helper binary before touched config []) m
      (fun _ => Installed c A helper binary before touched config told) scope := by
  refine .some_pre fun x => .pull fun hhelper => ?_
  exact (leads_after hm (fun told _ => ready_installed told) hsub).conseq (fun _ hs => hs)
    (fun _ s hs => ⟨x, hs, hhelper⟩) (fun _ hs => hs)

theorem leads_authorize :
    Leads c (· = c.host) (c.platform.authorize F) (fun _ s => s = c.host) scope := by
  have hoff : ∀ s, s = c.host → Off c scope s :=
    fun s hs => (At.start_nil hs).toOff.widen (List.nil_subset _)
  exact .bind (.check hoff) fun _ => triple_meet _ hoff

theorem leads_alone :
    Leads c (· = c.host) (c.platform.authorize F) (fun _ => At c [] [] [] []) scope :=
  leads_authorize.conseq (fun _ hs => hs) (fun _ _ => At.start_nil) (fun _ hs => hs)

variable {source : InstalledFile} {configToml : Str}

theorem leads_install (expected : Str)
    (hbinary : c.host.disk.files (bundledResolver helper) = some source)
    (hg : Grants c.good A source.content) (hgood : c.good .config ⟨utf8 configToml, 0o600⟩)
    (hsub : c.platform.definitions ++ [.config, .adminBinary, .installedBinary] ⊆ scope) :
    Leads c (· = c.host) (c.platform.install F c.paths A helper configToml)
      (fun _ => Installed c A helper source.content (c.before F (.install configToml expected))
        [.config, .adminBinary, .installedBinary] ⟨utf8 configToml, 0o600⟩
        (c.after F (.install configToml expected))) scope := by
  obtain ⟨paths, good, platform, host⟩ := c
  cases platform with
  | linux =>
      refine .bind leads_alone fun _ => .bind (leads_installPayload hbinary hg hgood hsub)
        fun _ => ?_
      exact leads_installed (.andThen (tells_run .daemonReload) (.andThen (tells_run .enable)
        (tells_run .start))) hsub
  | macos =>
      refine .bind leads_authorize fun _ => .bind (leads_before tells_bootout) fun _ => ?_
      exact .bind (leads_installPayload hbinary hg hgood hsub) fun _ =>
        leads_installed tells_activate hsub

theorem leads_repair (expected : Str)
    (hbinary : c.host.disk.files (bundledResolver helper) = some source)
    (hg : Grants c.good A source.content) (hgood : c.good .config ⟨utf8 configToml, 0o600⟩)
    (hsub : c.platform.definitions ++ repairTouched c.paths c.host.disk ⊆ scope) :
    Leads c (· = c.host) (c.platform.repair F c.paths A helper configToml)
      (fun _ => Installed c A helper source.content (c.before F (.repair expected configToml))
        (repairTouched c.paths c.host.disk) (repairConfig c.paths c.host.disk configToml)
        (c.after F (.repair expected configToml))) scope := by
  obtain ⟨paths, good, platform, host⟩ := c
  cases platform with
  | linux =>
      refine .bind leads_alone fun _ => .bind (leads_repairPayload hbinary hg hgood hsub)
        fun _ => ?_
      exact leads_installed (.andThen (tells_run .daemonReload) (.andThen (tells_run .enable)
        (tells_orTry .restart (tells_run .start)))) hsub
  | macos =>
      refine .bind leads_authorize fun _ => .bind (leads_before tells_bootout) fun _ => ?_
      exact .bind (leads_repairPayload hbinary hg hgood hsub) fun _ =>
        leads_installed tells_activate hsub

/-- The stage that an update ends in. -/
def Updated (c : Start) (helper : Path) (binary : Bytes) (before told : List ServiceCommand)
    (s : ServiceHost) : Prop :=
  ∃ x, At c before [.adminBinary, .installedBinary] (binaryFiles binary x) told s ∧
    HelperIs c.paths c.host.disk helper x

theorem leads_updated {m : Service Unit} (hm : Tells m told c.platform.quiet)
    (hsub : [.adminBinary, .installedBinary] ⊆ scope) :
    Leads c (Updated c helper binary before []) m (fun _ => Updated c helper binary before told)
      scope := by
  refine .some_pre fun x => .pull fun hhelper => ?_
  exact (leads_after hm (fun told => Platform.quiet_ready) hsub).conseq (fun _ hs => hs)
    (fun _ s hs => ⟨x, hs, hhelper⟩) (fun _ hs => hs)

theorem leads_update (expected : Str)
    (hbinary : c.host.disk.files (bundledResolver helper) = some source)
    (hg : Grants c.good A source.content) (hsub : [.adminBinary, .installedBinary] ⊆ scope) :
    Leads c (· = c.host) (c.platform.update F c.paths helper)
      (fun _ => Updated c helper source.content (c.before F (.update expected))
        (c.after F (.update expected))) scope := by
  obtain ⟨paths, good, platform, host⟩ := c
  cases platform with
  | linux =>
      refine .bind leads_alone fun _ => .bind (leads_copyBinaries hbinary hg hsub)
        fun _ => leads_updated (.widen (.andThen (tells_run .daemonReload) (tells_run .restart)) ?_)
          hsub
      show _ ⊆ Platform.linux.quiet
      decide
  | macos =>
      refine .bind leads_authorize fun _ => .bind (leads_before tells_bootout) fun _ => ?_
      exact .bind (leads_copyBinaries hbinary hg hsub) fun _ => leads_updated tells_activate hsub

def Platform.removed : Platform → List (Target × Option InstalledFile)
  | .linux => [(.adminBinary, none), (.installedBinary, none), (.authorizationPolicy, none),
      (.serviceDefinition, none)]
  | .macos => [(.adminBinary, none), (.installedBinary, none), (.serviceDefinition, none)]

theorem leads_uninstall :
    Leads c (· = c.host) (c.platform.uninstall F c.paths)
      (fun _ => At c (c.before F .uninstall)
        (.adminBinary :: .installedBinary :: c.platform.definitions) c.platform.removed
        (c.after F .uninstall))
      (.adminBinary :: .installedBinary :: c.platform.definitions) := by
  have hoff : ∀ s, s = c.host →
      Off c (.adminBinary :: .installedBinary :: c.platform.definitions) s :=
    fun s hs => (At.start_nil hs).toOff.widen (List.nil_subset _)
  obtain ⟨paths, good, platform, host⟩ := c
  cases platform with
  | linux =>
      have hstopped : Tells (do
            orTry (LinuxServiceManager.run F.command .stop) (pure ())
            orTry (LinuxServiceManager.run F.command .disable) (pure ()))
          (tried F.command .stop [] ++ tried F.command .disable []) Platform.linux.quiet :=
        ((tells_orTry .stop tells_pure).andThen (tells_orTry .disable tells_pure)).widen (by decide)
      show Leads _ _ _ _
        [.adminBinary, .installedBinary, .authorizationPolicy, .serviceDefinition]
      refine .bind (.check hoff) fun _ => ?_
      refine .assoc (.bind (leads_before hstopped) fun _ => ?_)
      refine .bind (leads_removeIfPresent (by decide) (by simp)
        (fun hin => absurd hin (by decide))) fun _ => ?_
      refine .bind (leads_removeIfPresent (by decide) (by simp)
        (fun hin => absurd hin (by decide))) fun _ => ?_
      refine .bind (leads_removeIfPresent (by decide) (by simp) (fun _ => by simp)) fun _ => ?_
      refine .bind (leads_removeIfPresent (by decide) (by simp) (fun _ => by simp)) fun _ => ?_
      refine leads_after (tells_run .daemonReload) (fun told hsub henable => ?_) (by decide)
      exact absurd (hsub henable) (by decide)
  | macos =>
      show Leads _ _ _ _ [.adminBinary, .installedBinary, .serviceDefinition]
      refine .bind (.check hoff) fun _ => ?_
      refine .bind (leads_before tells_bootout) fun _ => ?_
      refine .bind (leads_removeIfPresent (by decide) (by simp)
        (fun hin => absurd hin (by decide))) fun _ => ?_
      refine .bind (leads_removeIfPresent (by decide) (by simp) (fun _ => by simp)) fun _ => ?_
      exact leads_removeIfPresent (by decide) (by simp) fun _ => by simp

end Managers

end DnsRelay.Admin
