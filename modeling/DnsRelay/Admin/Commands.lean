import DnsRelay.Admin.Lifecycle

/-!
# The commands of an action

What the service manager is told by each action of the helper, in the order of the
code.  `Tells` is the specification of code that only gives commands.  A command that
fails may be passed over or followed by another one, so the list depends on how
each command ends.
-/

namespace DnsRelay.Admin

open Lib

/-- The service manager is given these commands, on the disk as it is. -/
def ServiceHost.tell (h : ServiceHost) (told : List ServiceCommand) : ServiceHost :=
  { h with log := h.log ++ told.map (·, h.disk) }

theorem tell_nil (h : ServiceHost) : h.tell [] = h := by
  simp [ServiceHost.tell]

theorem tell_tell (h : ServiceHost) (told told' : List ServiceCommand) :
    (h.tell told).tell told' = h.tell (told ++ told') := by
  simp [ServiceHost.tell]

/-- Code that only gives commands.  They are `told` if it succeeds, and some of
`among` in any case. -/
structure Tells (m : Service Unit) (told among : List ServiceCommand) : Prop where
  subset : told ⊆ among
  run : ∀ h, m.Triple (· = h) (fun _ s => s = h.tell told)
    (fun s => ∃ told, s = h.tell told ∧ told ⊆ among)

/-- What is given in the end, where `c` is tried and `otherwise` follows if it fails. -/
def tried (fates : ServiceCommand → CommandFate) (c : ServiceCommand)
    (otherwise : List ServiceCommand) : List ServiceCommand :=
  match fates c with
  | .done => [c]
  | .unsuccessful => c :: otherwise
  | .failed _ | .killed => otherwise

section Tells

variable {m m' : Service Unit} {told told' among among' : List ServiceCommand}
  {platform : Platform} {fates : ServiceCommand → CommandFate}

theorem tells_run (c : ServiceCommand) : Tells (platform.run fates c) [c] [c] where
  subset := List.Subset.refl _
  run := by
    rintro h s rfl
    unfold Platform.run
    cases fates c with
    | done => rfl
    | unsuccessful => exact ⟨[c], rfl, List.Subset.refl _⟩
    | failed text => exact ⟨[], (tell_nil s).symm, List.nil_subset _⟩
    | killed => exact ⟨[], (tell_nil s).symm, List.nil_subset _⟩

/-- The commands of `m` come after others. -/
theorem Tells.resume (hm : Tells m told among) (h : ServiceHost) {first : List ServiceCommand}
    (hfirst : first ⊆ among') (hamong : among ⊆ among') :
    m.Triple (· = h.tell first) (fun _ s => s = h.tell (first ++ told))
      (fun s => ∃ told, s = h.tell told ∧ told ⊆ among') := by
  refine (hm.run (h.tell first)).conseq (fun _ hs => hs) ?_ ?_
  · rintro _ s rfl
    exact tell_tell _ _ _
  · rintro s ⟨more, rfl, hsub⟩
    exact ⟨first ++ more, tell_tell _ _ _,
      List.append_subset.mpr ⟨hfirst, List.Subset.trans hsub hamong⟩⟩

theorem Tells.widen (hm : Tells m told among) (hamong : among ⊆ among') :
    Tells m told among' where
  subset := List.Subset.trans hm.subset hamong
  run h := by
    have hresumed := hm.resume h (List.nil_subset _) hamong
    rwa [tell_nil] at hresumed

theorem Tells.andThen (hm : Tells m told among) (hm' : Tells m' told' among') :
    Tells (do m; m') (told ++ told') (among ++ among') := by
  have hfirst : among ⊆ among ++ among' := List.subset_append_left _ _
  have hsecond : among' ⊆ among ++ among' := List.subset_append_right _ _
  have htold := (hm.widen hfirst).subset
  refine ⟨List.append_subset.mpr ⟨htold, (hm'.widen hsecond).subset⟩, fun h => ?_⟩
  exact .bind ((hm.widen hfirst).run h) fun _ => hm'.resume h htold hsecond

theorem tells_pure : Tells (pure ()) [] [] :=
  ⟨List.nil_subset _, fun h => .pure fun _ hs => hs.trans (tell_nil h).symm⟩

theorem tried_subset (c : ServiceCommand) (htold : told ⊆ among) :
    tried fates c told ⊆ c :: among := by
  unfold tried
  cases fates c with
  | done => exact List.cons_subset_cons _ (List.nil_subset _)
  | unsuccessful => exact List.cons_subset_cons _ htold
  | failed text => exact List.subset_cons_of_subset _ htold
  | killed => exact List.subset_cons_of_subset _ htold

/-- A command that fails is followed by something else. -/
theorem tells_orTry (c : ServiceCommand) (hm : Tells m told among) :
    Tells (orTry (platform.run fates c) m) (tried fates c told) (c :: among) := by
  refine ⟨tried_subset c hm.subset, ?_⟩
  rintro h s rfl
  have hamong : among ⊆ c :: among := List.subset_cons_self _ _
  unfold orTry Effect.orElseIf Platform.run tried
  cases fates c with
  | done => rfl
  | unsuccessful =>
      exact hm.resume s (List.cons_subset_cons _ (List.nil_subset _)) hamong _ rfl
  | failed text => exact (hm.widen hamong).run s _ rfl
  | killed => exact ⟨[], (tell_nil s).symm, List.nil_subset _⟩

end Tells

section Commands

variable (platform : Platform) (fates : ServiceCommand → CommandFate)

/-- The commands of `restart`. -/
def Platform.restartCommands : List ServiceCommand :=
  match platform with
  | .linux => [.restart]
  | .macos => tried fates .bootout [] ++ [.enable, .bootstrap, .restart]

/-- The commands of `start`. -/
def Platform.startCommands : List ServiceCommand :=
  match platform with
  | .linux => [.start]
  | .macos => Platform.macos.restartCommands fates

/-- The commands of `stop`. -/
def Platform.stopCommands : List ServiceCommand :=
  match platform with
  | .linux => [.stop]
  | .macos => [.bootout]

/-- On Linux only a payload is followed by `enable`. -/
def Platform.quiet : Platform → List ServiceCommand
  | .linux => [.daemonReload, .start, .stop, .restart, .disable]
  | .macos => [.bootout, .enable, .bootstrap, .restart]

/-- The commands that an action gives before it changes a file.  Their failures do
not matter. -/
def Platform.commandsBefore : AdminAction → List ServiceCommand
  | .install _ _ | .update _ | .repair _ _ =>
      match platform with
      | .linux => []
      | .macos => tried fates .bootout []
  | .uninstall =>
      match platform with
      | .linux => tried fates .stop [] ++ tried fates .disable []
      | .macos => tried fates .bootout []
  | .status | .readConfig | .start | .stop | .restart | .applyConfig _ _ => []

/-- The commands of an apply.  The service is restarted only if it runs. -/
def Platform.applyCommands (restart : Bool) : Except Stop ServiceStatus → List ServiceCommand
  | .ok .running => if restart then platform.restartCommands fates else []
  | .ok .stopped | .error _ => []

/-- The commands that an action gives after its last change, in their order. -/
def Platform.commandsAfter (status : Except Stop ServiceStatus) :
    AdminAction → List ServiceCommand
  | .install _ _ =>
      match platform with
      | .linux => [.daemonReload, .enable, .start]
      | .macos => [.enable, .bootstrap, .restart]
  | .update _ =>
      match platform with
      | .linux => [.daemonReload, .restart]
      | .macos => [.enable, .bootstrap, .restart]
  | .repair _ _ =>
      match platform with
      | .linux => .daemonReload :: .enable :: tried fates .restart [.start]
      | .macos => [.enable, .bootstrap, .restart]
  | .uninstall =>
      match platform with
      | .linux => [.daemonReload]
      | .macos => []
  | .start => platform.startCommands fates
  | .stop => platform.stopCommands
  | .restart => platform.restartCommands fates
  | .applyConfig _ restart => platform.applyCommands fates restart status
  | .status | .readConfig => []

end Commands

section Managers

variable {platform : Platform} {fates : ServiceCommand → CommandFate}

theorem tells_activate : Tells (MacosServiceManager.activate fates)
    [.enable, .bootstrap, .restart] Platform.macos.quiet :=
  ((tells_run .enable).andThen ((tells_run .bootstrap).andThen (tells_run .restart))).widen
    (by decide)

theorem tells_bootout : Tells (orTry (Platform.macos.run fates .bootout) (pure ()))
    (tried fates .bootout []) Platform.macos.quiet :=
  (tells_orTry .bootout tells_pure).widen (by decide)

theorem tells_macosRestart : Tells (MacosServiceManager.restart fates)
    (Platform.macos.restartCommands fates) Platform.macos.quiet :=
  (tells_bootout.andThen tells_activate).widen (by decide)

theorem tells_start :
    Tells (platform.start fates) (platform.startCommands fates) platform.quiet := by
  cases platform with
  | linux => exact (tells_run .start).widen (by decide)
  | macos => exact tells_macosRestart

theorem tells_stop : Tells (platform.stop fates) platform.stopCommands platform.quiet := by
  cases platform with
  | linux => exact (tells_run .stop).widen (by decide)
  | macos => exact (tells_run .bootout).widen (by decide)

theorem tells_restart :
    Tells (platform.restart fates) (platform.restartCommands fates) platform.quiet := by
  cases platform with
  | linux => exact (tells_run .restart).widen (by decide)
  | macos => exact tells_macosRestart

end Managers

end DnsRelay.Admin
