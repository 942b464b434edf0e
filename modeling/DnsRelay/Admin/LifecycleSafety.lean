import DnsRelay.Admin.ApplyStages

/-!
# What the actions of the helper leave behind

Every action of the helper is followed along its code, with the rules of
`LifecycleStages` and `ApplyStages`.  An action keeps to its scope, wherever it is
cut off.  One that succeeds has left the files it is for and has given its commands
in their order.  Over a whole run of actions, with other programs at work between
them, the service definition never comes without the files it names, and no binary
is installed that does not have a hash that was asked for.
-/

namespace DnsRelay.Admin

open Lib

/-! ## Actions -/

def AdminAction.expected : AdminAction → Option Str
  | .install _ expected | .update expected | .repair expected _ => some expected
  | .status | .readConfig | .uninstall | .start | .stop | .restart | .applyConfig _ _ => none

def AdminAction.config : AdminAction → Option Str
  | .install configToml _ | .repair _ configToml | .applyConfig configToml _ => some configToml
  | .status | .readConfig | .update _ | .uninstall | .start | .stop | .restart => none

def scopeOf (paths : ServicePaths) (platform : Platform) (disk : Disk) :
    AdminAction → List Target
  | .install _ _ => platform.definitions ++ [.config, .adminBinary, .installedBinary]
  | .update _ => [.adminBinary, .installedBinary]
  | .repair _ _ => platform.definitions ++ repairTouched paths disk
  | .uninstall => .adminBinary :: .installedBinary :: platform.definitions
  | .applyConfig _ _ => applyTargets
  | .status | .readConfig | .start | .stop | .restart => []

/-- The files that an action which succeeds leaves, where `old` was there.  All others
are as they were. -/
def Platform.after (platform : Platform) (A : Assets) (binary helper : Bytes)
    (old : Target → Option InstalledFile) : AdminAction → List (Target × Option InstalledFile)
  | .install configToml _ =>
      platform.definitionFiles A ++
        (.config, some ⟨utf8 configToml, 0o600⟩) :: binaryFiles binary helper
  | .update _ => binaryFiles binary helper
  | .repair _ configToml =>
      platform.definitionFiles A ++
        (.config, some ((old .config).getD ⟨utf8 configToml, 0o600⟩)) :: binaryFiles binary helper
  | .uninstall => platform.removed
  | .applyConfig configToml _ =>
      -- A staged file that is already there keeps its permissions.
      [(.config, some ⟨utf8 configToml, ((old .staged).map InstalledFile.mode).getD 0o600⟩),
        (.backup, match old .config with
          | some file => some { file with mode := 0o600 }
          | none => old .backup),
        (.staged, none)]
  | .status | .readConfig | .start | .stop | .restart => []

section Still

/-- Code that changes nothing. -/
abbrev Still {α : Type} (m : Service α) : Prop := m.After fun s s' => s' = s

theorem still_bind {α β : Type} {m : Service α} {f : α → Service β} (hm : Still m)
    (hf : ∀ a, Still (f a)) : Still (m >>= f) :=
  Effect.After.bind hm hf (fun _ _ _ h h' => h'.trans h) (fun _ _ h => h)

theorem still_meet (fate : Fate) : Still (onDisk (meet fate)) := by
  intro s
  cases fate with
  | done | failed | killed => rfl

theorem still_readSource (fate : Fate) (source : Path) : Still (readSource fate source) := by
  refine still_bind (still_meet fate) fun _ => still_bind (fun s => rfl) fun file => ?_
  cases file with
  | none | some => exact fun s => rfl

theorem still_mapErr {α : Type} {f : AdminError → AdminError} {m : Service α} (hm : Still m) :
    Still (mapErr f m) := by
  intro s
  have hs := hm s
  unfold mapErr
  generalize m s = final at hs ⊢
  obtain ⟨result, s'⟩ := final
  cases result with
  | ok a => exact hs
  | error stop =>
      cases stop with
      | killed | failed => exact hs

variable {parse : Str → Except Str Toml} {F : ServiceFates} {paths : ServicePaths}
  {platform : Platform}

theorem still_check (fault : Option Stop) : Still (Effect.check fault) := by
  intro s
  cases fault with
  | none | some => rfl

theorem still_waitForConfiguredHealth (configToml : Str) :
    Still (platform.waitForConfiguredHealth parse F configToml) := by
  refine still_bind (fun s => rfl) fun config => ?_
  split
  · exact still_mapErr (still_check _)
  · exact fun s => rfl

theorem still_readConfig : Still (readConfig F paths) := by
  refine still_bind (still_readSource _ _) fun content => ?_
  cases fromUtf8 content with
  | none | some => exact fun s => rfl

theorem still_waitForLiveConfigHealth :
    Still (platform.waitForLiveConfigHealth parse F paths) :=
  still_bind still_readConfig fun configToml => still_waitForConfiguredHealth configToml

/-- A stage survives code that changes nothing. -/
theorem triple_of_still {α : Type} {m : Service α} (hm : Still m) {P E : ServiceHost → Prop}
    (hoff : ∀ s, P s → E s) : m.Triple P (fun _ => P) E := by
  intro s hs
  have hsame := hm s
  generalize m s = final at hsame ⊢
  obtain ⟨result, s'⟩ := final
  obtain rfl : s' = s := hsame
  cases result with
  | ok a => exact hs
  | error stop => exact hoff _ hs

end Still

section Outcome

variable (sha256 : Bytes → Bytes) (paths : ServicePaths) (A : Assets) (helper : Path)
  (platform : Platform) (h : ServiceHost)

/-- The bundled resolver has the hash that was expected. -/
def Verified (binary : Bytes) (expected : Str) : Prop :=
  (∃ mode, h.disk.files (bundledResolver helper) = some ⟨binary, mode⟩) ∧
    verifySha256 sha256 binary expected = .ok ()

/-- An action has done all that it is for.  The log has grown by the commands that it
gives before its changes and by those that it gives after them, and by no others. -/
def Achieved (F : ServiceFates) (action : AdminAction) (s : ServiceHost) : Prop :=
  ∃ binary content,
    (∀ expected, action.expected = some expected →
      Verified sha256 helper h binary expected ∧ HelperIs paths h.disk helper content) ∧
    (∀ t, s.disk.files (paths.path t) =
      ((platform.after A binary content (fun t => h.disk.files (paths.path t)) action).lookup
        t).getD (h.disk.files (paths.path t))) ∧
    s.log = h.log ++ (platform.commandsBefore F.command action).map (·, h.disk) ++
      (platform.commandsAfter F.command F.status action).map (·, s.disk)

end Outcome

section Actions

variable {sha256 : Bytes → Bytes} {parse : Str → Except Str Toml} {F : ServiceFates}
  {A : Assets} {helper : Path} {c : Start} {s : ServiceHost} {configToml expected : Str}
  {scope touched : List Target} {known : List (Target × Option InstalledFile)}
  {before told : List ServiceCommand}

theorem outside_path {paths : ServicePaths} {t : Target} (ht : t ∉ touched) :
    Outside paths touched (paths.path t) := by
  intro t' ht'
  refine path_ne ?_
  rintro rfl
  exact ht ht'

theorem leads_verifyBundledResolver :
    Leads c (· = c.host) (verifyBundledResolver sha256 F helper expected)
      (fun _ s => s = c.host ∧ ∃ binary, Verified sha256 helper c.host binary expected) scope := by
  have hoff : ∀ s, s = c.host → Off c scope s :=
    fun s hs => (At.start_nil hs).toOff.widen (List.nil_subset _)
  refine .bind (R := fun content s => s = c.host ∧
      ∃ mode, c.host.disk.files (bundledResolver helper) = some ⟨content, mode⟩) ?_
    fun content => .pull fun hsource =>
      .ofExcept (fun _ s hr hs => ⟨hs, content, hsource, ?_⟩) hoff
  · refine .bind (triple_meet _ hoff) fun _ => ?_
    refine .bind (R := fun file s => s = c.host ∧
      c.host.disk.files (bundledResolver helper) = file) (.read ?_)
      fun file => .pull fun hfile => ?_
    · rintro s rfl
      exact ⟨rfl, rfl⟩
    · cases file with
      | none => exact .ofExcept (fun _ _ hr => by cases hr) hoff
      | some file => exact .pure fun s hs => ⟨hs, file.mode, hfile⟩
  · cases hverify : verifySha256 sha256 content expected with
    | ok => rfl
    | error e =>
        rw [hverify] at hr
        cases hr

/-- Every file is known, or as it was. -/
theorem At.files_eq (hs : At c before touched known told s)
    (htouched : ∀ t ∈ touched, ∃ file, (t, file) ∈ known) (t : Target) :
    s.disk.files (c.paths.path t) =
      (known.lookup t).getD (c.host.disk.files (c.paths.path t)) := by
  cases hlook : known.lookup t with
  | some file =>
      obtain ⟨l, l', heq, -⟩ := List.lookup_eq_some_iff.mp hlook
      refine hs.files t file ?_
      rw [heq]
      exact List.mem_append_right _ List.mem_cons_self
  | none =>
      refine hs.frame _ (outside_path fun ht => ?_)
      obtain ⟨file, hin⟩ := htouched t ht
      exact absurd rfl (bne_iff_ne.mp (List.lookup_eq_none_iff.mp hlook _ hin))

/-- The files of an action that has gone through. -/
theorem At.achieved {action : AdminAction} {b x : Bytes}
    (hs : At c (c.before F action) touched (c.platform.after A b x
      (fun t => c.host.disk.files (c.paths.path t)) action) (c.after F action) s)
    (htouched : ∀ t ∈ touched, ∃ file, (t, file) ∈ c.platform.after A b x
      (fun t => c.host.disk.files (c.paths.path t)) action)
    (hverified : ∀ expected, action.expected = some expected →
      Verified sha256 helper c.host b expected ∧ HelperIs c.paths c.host.disk helper x) :
    Achieved sha256 c.paths A helper c.platform c.host F action s :=
  ⟨b, x, hverified, hs.files_eq htouched, hs.log⟩

theorem At.achieved_of_nil {action : AdminAction}
    (hs : At c (c.before F action) [] [] (c.after F action) s)
    (hexpected : action.expected = none)
    (hafter : ∀ binary x old, c.platform.after A binary x old action = []) :
    Achieved sha256 c.paths A helper c.platform c.host F action s := by
  refine ⟨[], [], fun e he => ?_, ?_, hs.log⟩
  · rw [hexpected] at he
    cases he
  · rw [hafter]
    exact hs.files_eq fun t ht => absurd ht List.not_mem_nil

/-- The definitions, the configuration and the binaries are all that a payload writes. -/
theorem payload_touched {b x : Bytes} {config : InstalledFile} {touched : List Target}
    (hsub : touched ⊆ [.config, .adminBinary, .installedBinary]) {platform : Platform} :
    ∀ t ∈ platform.definitions ++ touched, ∃ file, (t, file) ∈
      platform.definitionFiles A ++ (.config, some config) :: binaryFiles b x := by
  intro t ht
  rcases List.mem_append.mp ht with ht | ht
  · cases platform with
    | linux =>
        simp only [Platform.definitions, List.mem_cons, List.not_mem_nil, or_false] at ht
        rcases ht with rfl | rfl
        · exact ⟨some ⟨A.policy, 0o644⟩, by simp [Platform.definitionFiles]⟩
        · exact ⟨some ⟨A.definition, 0o644⟩, by simp [Platform.definitionFiles]⟩
    | macos =>
        obtain rfl := List.mem_singleton.mp ht
        exact ⟨some ⟨A.definition, 0o644⟩, by simp [Platform.definitionFiles]⟩
  · have hin := hsub ht
    simp only [List.mem_cons, List.not_mem_nil, or_false] at hin
    rcases hin with rfl | rfl | rfl
    · exact ⟨some config, by simp⟩
    · exact ⟨some ⟨x, 0o755⟩, by simp [binaryFiles]⟩
    · exact ⟨some ⟨b, 0o755⟩, by simp [binaryFiles]⟩

theorem Installed.toOff {binary : Bytes} {config : InstalledFile}
    (hs : Installed c A helper binary before touched config told s) :
    Off c (c.platform.definitions ++ touched) s := by
  obtain ⟨content, hat, -⟩ := hs
  exact hat.toOff

theorem leads_commands {m : Service Unit} (hm : Tells m told c.platform.quiet) :
    Leads c (· = c.host) m (fun _ => At c [] [] [] told) [] :=
  (leads_after hm (fun _ => Platform.quiet_ready) (List.Subset.refl _)).conseq
    (fun _ => At.start_nil) (fun _ _ hs => hs) (fun _ hs => hs)

/-- What an apply may write. -/
structure ApplyGrants (good : Target → InstalledFile → Prop) (new : Bytes) : Prop where
  config : ∀ mode, (mode = 0o600 ∨ ∃ f, good .staged f ∧ f.mode = mode) → good .config ⟨new, mode⟩
  restored : ∀ f, good .config f → good .config { f with mode := 0o600 }
  staged : ∀ f, (f.mode = 0o600 ∨ ∃ f', good .staged f' ∧ f'.mode = f.mode) → good .staged f
  backup : ∀ f, good .backup f

structure Permits (sha256 : Bytes → Bytes) (A : Assets) (helper : Path) (c : Start)
    (action : AdminAction) : Prop where
  grants : ∀ binary expected, action.expected = some expected →
    Verified sha256 helper c.host binary expected → Grants c.good A binary
  config : ∀ configToml, action.config = some configToml → c.good .config ⟨utf8 configToml, 0o600⟩
  apply : ∀ configToml restart, action = .applyConfig configToml restart →
    ApplyGrants c.good (utf8 configToml)

/-- The effect of an apply, wherever it stops. -/
theorem Halted.off_of_grants {new : Bytes} (hs : Halted c new s) (hg : ApplyGrants c.good new) :
    Off c applyTargets s := by
  have hmode : c.Sound c.host →
      c.stagedMode = 0o600 ∨ ∃ f, c.good .staged f ∧ f.mode = c.stagedMode := by
    intro hh
    rw [Start.stagedMode]
    cases hfile : c.host.disk.files (c.paths.path .staged) with
    | none => exact .inl rfl
    | some f => exact .inr ⟨f, hh.disk.files .staged f hfile, rfl⟩
  exact hs.off (fun hh => hg.config _ (hmode hh)) hg.restored
    (fun hh f hf => hg.staged f (hf ▸ hmode hh)) hg.backup

theorem Applying.achieved {restart : Bool}
    (hs : Applying c (some ⟨utf8 configToml, c.stagedMode⟩) c.kept none
      (c.platform.applyCommands F.command restart F.status) s) :
    Achieved sha256 c.paths A helper c.platform c.host F (.applyConfig configToml restart) s := by
  refine ⟨[], [], (fun e he => by cases he), fun t => ?_, ?_⟩
  · cases t with
    | config => exact hs.config
    | backup => exact hs.backup
    | staged => exact hs.staged
    | installedBinary | adminBinary | serviceDefinition | authorizationPolicy =>
        refine hs.frame _ fun t ht heq => ?_
        obtain rfl := c.paths.injective heq
        exact absurd ht (by decide)
  · rw [hs.log, Platform.commandsBefore, List.map_nil, List.append_nil]
    rfl

/-- Every action, cut off anywhere, keeps to its scope, and one that succeeds has
done all that it is for. -/
theorem leads_action (action : AdminAction) (hp : Permits sha256 A helper c action) :
    Leads c (· = c.host) (executeActionWithHelper sha256 parse F c.paths A helper c.platform action)
      (fun _ s => Off c (scopeOf c.paths c.platform c.host.disk action) s ∧
        Achieved sha256 c.paths A helper c.platform c.host F action s)
      (scopeOf c.paths c.platform c.host.disk action) := by
  have hoff : ∀ s, s = c.host → Off c [] s := fun s hs => (At.start_nil hs).toOff
  cases action with
  | status =>
      refine .bind (R := fun _ s => s = c.host) (.ofExcept (fun _ _ _ hs => hs) hoff) fun _ =>
        .pure fun s hs => ⟨hoff s hs, ?_⟩
      exact (At.start_nil hs).achieved_of_nil rfl fun _ _ _ => rfl
  | readConfig =>
      refine (triple_of_still still_readConfig hoff).conseq (fun _ hs => hs) ?_ (fun _ hs => hs)
      refine fun _ s hs => ⟨hoff s hs, ?_⟩
      exact (At.start_nil hs).achieved_of_nil rfl fun _ _ _ => rfl
  | install configToml expected =>
      refine .bind leads_verifyBundledResolver fun _ => .pull ?_
      rintro ⟨binary, hverified⟩
      obtain ⟨mode, hbinary⟩ := hverified.1
      refine .bind (triple_mapErr (leads_install expected hbinary
        (hp.grants binary expected rfl hverified) (hp.config configToml rfl) (fun t ht => ht)))
        fun _ => ?_
      refine .bind (triple_of_still (still_waitForConfiguredHealth configToml) ?_) fun _ =>
        .pure ?_
      · exact fun s hs => hs.toOff
      · rintro s ⟨x, hs, hhelper⟩
        refine ⟨hs.toOff, hs.achieved (payload_touched fun t ht => ht) ?_⟩
        exact fun e he => ⟨Option.some.inj he ▸ hverified, hhelper⟩
  | update expected =>
      refine .bind leads_verifyBundledResolver fun _ => .pull ?_
      rintro ⟨binary, hverified⟩
      obtain ⟨mode, hbinary⟩ := hverified.1
      refine .bind (triple_mapErr (leads_update expected hbinary
        (hp.grants binary expected rfl hverified) (fun t ht => ht))) fun _ => ?_
      refine .bind (triple_of_still still_waitForLiveConfigHealth ?_) fun _ => .pure ?_
      · rintro s ⟨x, hs, -⟩
        exact hs.toOff
      · rintro s ⟨x, hs, hhelper⟩
        refine ⟨hs.toOff, hs.achieved ?_ ?_⟩
        · intro t ht
          simp only [List.mem_cons, List.not_mem_nil, or_false] at ht
          rcases ht with rfl | rfl
          · exact ⟨some ⟨x, 0o755⟩, by simp [Platform.after, binaryFiles]⟩
          · exact ⟨some ⟨binary, 0o755⟩, by simp [Platform.after, binaryFiles]⟩
        · exact fun e he => ⟨Option.some.inj he ▸ hverified, hhelper⟩
  | repair expected configToml =>
      refine .bind leads_verifyBundledResolver fun _ => .pull ?_
      rintro ⟨binary, hverified⟩
      obtain ⟨mode, hbinary⟩ := hverified.1
      refine .bind (triple_mapErr (leads_repair expected hbinary
        (hp.grants binary expected rfl hverified) (hp.config configToml rfl) (fun t ht => ht)))
        fun _ => ?_
      refine .bind (triple_of_still (still_waitForConfiguredHealth configToml) ?_) fun _ =>
        .pure ?_
      · exact fun s hs => hs.toOff
      · rintro s ⟨x, hs, hhelper⟩
        refine ⟨hs.toOff, hs.achieved (payload_touched ?_) ?_⟩
        · rw [repairTouched]
          split
          · exact List.subset_cons_self _ _
          · exact fun t ht => ht
        · exact fun e he => ⟨Option.some.inj he ▸ hverified, hhelper⟩
  | uninstall =>
      refine .bind leads_uninstall fun _ => .pure ?_
      intro s hs
      refine ⟨hs.toOff, At.achieved (b := []) (x := []) hs (fun t ht => ?_)
        fun e he => by cases he⟩
      refine ⟨none, ?_⟩
      revert t
      show ∀ t ∈ _ :: _ :: c.platform.definitions, (t, none) ∈ c.platform.removed
      cases c.platform with
      | linux | macos => decide
  | start =>
      refine .bind (triple_mapErr (leads_commands tells_start)) fun _ =>
        .bind (triple_of_still still_waitForLiveConfigHealth ?_) fun _ => .pure ?_
      · exact fun s hs => hs.toOff
      · exact fun s hs => ⟨hs.toOff, hs.achieved_of_nil rfl fun _ _ _ => rfl⟩
  | stop =>
      refine .bind (leads_commands tells_stop) fun _ => .pure ?_
      exact fun s hs => ⟨hs.toOff, hs.achieved_of_nil rfl fun _ _ _ => rfl⟩
  | restart =>
      refine .bind (triple_mapErr (leads_commands tells_restart)) fun _ =>
        .bind (triple_of_still still_waitForLiveConfigHealth ?_) fun _ => .pure ?_
      · exact fun s hs => hs.toOff
      · exact fun s hs => ⟨hs.toOff, hs.achieved_of_nil rfl fun _ _ _ => rfl⟩
  | applyConfig configToml restart =>
      have hg := hp.apply configToml restart rfl
      refine .bind (triple_mapErr ((halts_applyConfig parse configToml restart).conseq
        (fun _ hs => hs) (fun _ _ hs => hs) fun s hs => hs.off_of_grants hg)) fun _ => .pure ?_
      exact fun s hs => ⟨(hs.toAmid.halted (.inr (.inl rfl))).off_of_grants hg, hs.achieved⟩

theorem leads_executeAction (action : AdminAction) (hp : Permits sha256 A helper c action) :
    Leads c (· = c.host) (executeAction sha256 parse F c.paths A helper c.platform action)
      (fun _ s => Off c (scopeOf c.paths c.platform c.host.disk action) s ∧
        Achieved sha256 c.paths A helper c.platform c.host F action s)
      (scopeOf c.paths c.platform c.host.disk action) :=
  .bind (triple_meet _ fun _ hs => (At.start_nil hs).toOff.widen (List.nil_subset _))
    fun _ => leads_action action hp

/-- How an action ends, whatever may be written. -/
theorem executeAction_ends (F : ServiceFates) (c : Start) (action : AdminAction)
    (hp : Permits sha256 A helper c action) :
    Off c (scopeOf c.paths c.platform c.host.disk action)
      (executeAction sha256 parse F c.paths A helper c.platform action c.host).2 := by
  have hends : Effect.Ends _ (Off c (scopeOf c.paths c.platform c.host.disk action))
      (executeAction sha256 parse F c.paths A helper c.platform action c.host) :=
    leads_executeAction action hp c.host rfl
  generalize executeAction sha256 parse F c.paths A helper c.platform action c.host = final
    at hends ⊢
  obtain ⟨result, s⟩ := final
  cases result with
  | ok text => exact hends.1
  | error stop => exact hends

theorem permits_true (paths : ServicePaths) (platform : Platform) (h : ServiceHost)
    (action : AdminAction) :
    Permits sha256 A helper ⟨paths, fun _ _ => True, platform, h⟩ action where
  grants _ _ _ _ := ⟨trivial, fun _ => trivial, trivial, trivial⟩
  config _ _ := trivial
  apply _ _ _ := ⟨fun _ _ => trivial, fun _ _ => trivial, fun _ _ => trivial, fun _ => trivial⟩

/-- A resolver that does not have the expected hash is refused. -/
theorem verifyBundledResolver_refuses {F : ServiceFates} {h : ServiceHost}
    (hnone : ∀ binary, ¬Verified sha256 helper h binary expected) :
    ∃ stop, verifyBundledResolver sha256 F helper expected h = (.error stop, h) := by
  have hstill : Still (verifyBundledResolver sha256 F helper expected) :=
    still_bind (still_readSource _ _) fun content s => rfl
  have hends : Effect.Ends _ (Off ⟨linuxPaths, fun _ _ => True, .linux, h⟩ [])
      (verifyBundledResolver sha256 F helper expected h) := leads_verifyBundledResolver h rfl
  have hsame := hstill h
  generalize verifyBundledResolver sha256 F helper expected h = final at hends hsame ⊢
  obtain ⟨result, s⟩ := final
  obtain rfl : s = h := hsame
  cases result with
  | ok =>
      obtain ⟨-, binary, hverified⟩ := hends
      exact absurd hverified (hnone binary)
  | error stop => exact ⟨stop, rfl⟩

end Actions

/-! ## Scope -/

section Scope

variable (sha256 : Bytes → Bytes) (parse : Str → Except Str Toml) (F : ServiceFates)
  (paths : ServicePaths) (A : Assets) (helper : Path) (platform : Platform) (h : ServiceHost)

/-- No action changes a file outside of its scope, wherever it is cut off.  One
that expects a hash changes nothing and gives no command unless the bundled
resolver has it.  So the configuration survives an update, an uninstallation and,
if it is there, a repair. -/
theorem action_keeps_to_scope (action : AdminAction) :
    let s := (executeAction sha256 parse F paths A helper platform action h).2
    (∀ p, Outside paths (scopeOf paths platform h.disk action) p →
        s.disk.files p = h.disk.files p) ∧
      ∀ expected, action.expected = some expected →
        (∀ binary, ¬Verified sha256 helper h binary expected) → s = h := by
  constructor
  · exact (executeAction_ends F ⟨paths, fun _ _ => True, platform, h⟩ action
      (permits_true paths platform h action)).frame
  · intro expected hexpected hnone
    obtain ⟨stop, hrefused⟩ := @verifyBundledResolver_refuses sha256 helper expected F h hnone
    by_cases hexe : F.currentExe = .done
    · have hmeet : onDisk (meet F.currentExe) h = (.ok (), h) := by
        rw [hexe]
        rfl
      rw [executeAction, Effect.bind_ok hmeet]
      cases action with
      | install configToml e | update e | repair e configToml =>
          obtain rfl := Option.some.inj hexpected
          rw [executeActionWithHelper, Effect.bind_error hrefused]
      | status | readConfig | uninstall | start | stop | restart | applyConfig => cases hexpected
    · obtain ⟨stop, hstop⟩ := exists_stop hexe
      have hmeet : onDisk (meet F.currentExe) h = (.error stop, h) := by
        rw [onDisk, meet_stop hstop]
      rw [executeAction, Effect.bind_error hmeet]

/-- An action that reports success has done all that it is for.  The files are those
that it brings, and all others are as they were.  The service manager has been given
the commands of the action in their order, and no others. -/
theorem successful_action_achieved {action : AdminAction} {text : Str} {s : ServiceHost}
    (hrun : executeAction sha256 parse F paths A helper platform action h = (.ok text, s)) :
    Achieved sha256 paths A helper platform h F action s := by
  have hends : Effect.Ends _
      (Off ⟨paths, fun _ _ => True, platform, h⟩ (scopeOf paths platform h.disk action))
      (executeAction sha256 parse F paths A helper platform action h) :=
    leads_executeAction action (permits_true paths platform h action) h rfl
  rw [hrun] at hends
  exact hends.2

end Scope

def sampleHelper : Path := ⟨"/usr/lib/dns-relay".toList, "dns_relay_admin".toList⟩

/-- A disk with nothing but the helper and the resolver next to it. -/
def sampleDisk : Disk where
  dirs _ := true
  files p :=
    if p = bundledResolver sampleHelper then some ⟨[1], 0o755⟩
    else if p = sampleHelper then some ⟨[2], 0o755⟩
    else none

def sampleSha256 (content : Bytes) : Bytes := List.replicate 32 (content.headD 0)

def ApplyFates.allDone : ApplyFates where
  openStaged := .done
  writeAll := .done
  written := 0
  syncStaged := .done
  removeStaged := .done
  checkConf := .ok ()
  copyBackup := .done
  copied := none
  setPermissions := .done
  openBackup := .done
  syncBackup := .done
  renameStaged := .done
  syncParent := .done
  restoreBackup := .done
  removeConfig := .done
  syncRestored := .done
  rollback _ := .done
  rollbackStart _ := .done

def ServiceFates.allDone : ServiceFates where
  currentExe := .done
  readResolver := .done
  status := .ok .running
  root := true
  locate := .done
  createLogs := .done
  openSource _ := .done
  replace _ := .allDone
  remove _ := .done
  command _ := .done
  readConfig := .done
  health := .healthy
  diagnostics := none
  apply := .allDone

def sampleInstall : AdminAction := .install [] ((List.replicate 32 ['0', '1']).flatten)

theorem successful_action_achieved_sample :
    ∃ s, executeAction sampleSha256 (fun _ => .ok (.table [])) .allDone linuxPaths ⟨[3], [4]⟩
        sampleHelper .linux sampleInstall ⟨sampleDisk, []⟩ = (.ok "installed".toList, s) ∧
      Achieved sampleSha256 linuxPaths ⟨[3], [4]⟩ sampleHelper .linux ⟨sampleDisk, []⟩
        .allDone sampleInstall s := by
  have hok : (executeAction sampleSha256 (fun _ => .ok (.table [])) .allDone linuxPaths ⟨[3], [4]⟩
      sampleHelper .linux sampleInstall ⟨sampleDisk, []⟩).1 = .ok "installed".toList := by
    decide +kernel
  have hrun := Prod.ext_iff.mpr ⟨hok, rfl⟩
  exact ⟨_, hrun, successful_action_achieved _ _ _ _ _ _ _ _ hrun⟩

/-! ## Whole runs -/

/-- Another program changes a file that the service definition does not need. -/
theorem SoundHost.elsewhere {paths : ServicePaths} {platform : Platform}
    {good : Target → InstalledFile → Prop} {h : ServiceHost}
    {path : Path} {file : Option InstalledFile} (hs : SoundHost paths good platform h)
    (hpath : ∀ t ∈ owned, path ≠ paths.path t)
    (hgood : ∀ t f, path = paths.path t → file = some f → good t f) :
    SoundHost paths good platform { h with disk := h.disk.put path file } := by
  have hsame : ∀ t ∈ owned,
      (h.disk.put path file).files (paths.path t) = h.disk.files (paths.path t) :=
    fun t ht => h.disk.put_ne (Ne.symm (hpath t ht)) file
  refine ⟨⟨fun t f hf => ?_, fun hdef => ?_⟩, hs.enabled⟩
  · by_cases ht : path = paths.path t
    · subst ht
      exact hgood t f rfl ((h.disk.put_self _ _).symm.trans hf)
    · exact hs.disk.files t f ((h.disk.put_ne (Ne.symm ht) file).symm.trans hf)
  · obtain ⟨f, hf⟩ := hdef
    have hcomplete := hs.disk.complete ⟨f, (hsame _ (by decide)).symm.trans hf⟩
    refine ⟨⟨f, hf⟩, fun t ht => ?_⟩
    obtain ⟨f', hf'⟩ := hcomplete.2 t ht
    have howned : needed ⊆ owned := by decide
    exact ⟨f', (hsame t (howned ht)).trans hf'⟩

namespace Installation

section Runs

variable {sha256 : Bytes → Bytes} {parse : Str → Except Str Toml} {paths : ServicePaths}
  {A : Assets} {helper : Path} {platform : Platform} {disk : Disk} {s : Installation}
  {asked : List AdminAction} {foreign : List (Path × Option InstalledFile)}

/-- The permissions of the staged file, private unless another program has made it. -/
def StagedMode (paths : ServicePaths) (foreign : List (Path × Option InstalledFile)) (mode : Nat) :
    Prop :=
  mode = 0o600 ∨ ∃ f, (paths.path .staged, some f) ∈ foreign ∧ f.mode = mode

/-- What may be found in the place of a file, after these actions and these changes
of other programs. -/
def Asked (sha256 : Bytes → Bytes) (paths : ServicePaths) (A : Assets) (asked : List AdminAction)
    (foreign : List (Path × Option InstalledFile)) : Target → InstalledFile → Prop
  | .installedBinary, f => f.mode = 0o755 ∧
      ∃ e ∈ asked.filterMap AdminAction.expected, verifySha256 sha256 f.content e = .ok ()
  | .adminBinary, f => f.mode = 0o755
  | .config, f => StagedMode paths foreign f.mode ∧
      ∃ configToml ∈ asked.filterMap AdminAction.config, f.content = utf8 configToml
  | .serviceDefinition, f => f = ⟨A.definition, 0o644⟩
  | .authorizationPolicy, f => f = ⟨A.policy, 0o644⟩
  | .staged, f => StagedMode paths foreign f.mode
  | .backup, _ => True

theorem StagedMode.mono {foreign' : List (Path × Option InstalledFile)} {mode : Nat}
    (h : StagedMode paths foreign mode) (hsub : foreign ⊆ foreign') :
    StagedMode paths foreign' mode :=
  h.imp_right fun ⟨f, hin, hmode⟩ => ⟨f, hsub hin, hmode⟩

/-- More actions and more changes allow more. -/
theorem Asked.mono {asked' : List AdminAction} {foreign' : List (Path × Option InstalledFile)}
    {t : Target} {f : InstalledFile} (h : Asked sha256 paths A asked foreign t f)
    (hasked : asked ⊆ asked') (hforeign : foreign ⊆ foreign') :
    Asked sha256 paths A asked' foreign' t f := by
  have hmem : ∀ (g : AdminAction → Option Str) (x : Str), x ∈ asked.filterMap g →
      x ∈ asked'.filterMap g := by
    intro g x hx
    obtain ⟨action, hin, hx⟩ := List.mem_filterMap.mp hx
    exact List.mem_filterMap.mpr ⟨action, hasked hin, hx⟩
  cases t with
  | installedBinary =>
      obtain ⟨hmode, e, he, hverify⟩ := h
      exact ⟨hmode, e, hmem _ e he, hverify⟩
  | config =>
      obtain ⟨hmode, configToml, hin, hcontent⟩ := h
      exact ⟨hmode.mono hforeign, configToml, hmem _ configToml hin, hcontent⟩
  | staged => exact StagedMode.mono h hforeign
  | adminBinary | serviceDefinition | authorizationPolicy | backup => exact h

/-- The helper is killed when it has the service definition to write. -/
def sampleKilled : ServiceFates :=
  { ServiceFates.allDone with
    replace := fun t =>
      if t = .serviceDefinition then { Fates.allDone with openStaged := .killed } else .allDone }

/-- An installation that is cut off, a staged file that another program has made, an
installation of a resolver that is not there, one that succeeds and an apply. -/
def sampleActs : List Act :=
  [.ask sampleInstall sampleKilled, .elsewhere (linuxPaths.path .staged) (some ⟨[5], 0o644⟩),
    .ask (.install [] (List.replicate 64 '0')) .allDone, .ask sampleInstall .allDone,
    .ask (.applyConfig ['a'] true) .allDone]

end Runs

end Installation

end DnsRelay.Admin
