import DnsRelay.Shared.NetGuard

/-!
# The network guard on Linux

While a VPN is up, the guard points two links at the local resolver with
`resolvectl`: that of the VPN and that of the default route.  It remembers the
links in a set, and reverts them when the VPN goes away or the process ends.

The links that the guard has set are known from its log.  A link is owned from
a successful `resolvectl dns` to the next successful `resolvectl revert`.  The
set is compared with that.

They differ in two cases.  A link that already shows the target is put in the
set although it was not set, and a link whose revert fails is taken out of the
set although it still is.  As long as neither happens the set is exact
(`touched_links_exact_iff`).
-/

namespace DnsRelay.NetGuard.Linux

open Lib

/-! ## Commands -/

inductive Command where
  /-- `ip link show`. -/
  | ipLinkShow
  /-- `ip route show default`. -/
  | ipRouteShowDefault
  /-- `resolvectl status`. -/
  | status
  /-- `resolvectl dns IFACE`, which shows the servers. -/
  | showDns (iface : Str)
  /-- `resolvectl dns IFACE TARGET`, which sets them. -/
  | setDns (iface dnsTarget : Str)
  /-- `resolvectl domain IFACE DOMAIN`. -/
  | setDomain (iface domain : Str)
  /-- `resolvectl revert IFACE`. -/
  | revert (iface : Str)
deriving DecidableEq, Repr

/-- The commands that were run, newest first. -/
abbrev Log := List (Command × Exit)

structure Guard where
  isVpnActive : Bool
  touchedLinks : HashSet Str

/-- The guard and its log. -/
abbrev World := Session Guard Command Exit

/-- The code of the guard, which fails with a text. -/
abbrev Code (α : Type) := Effect World Str α

/-- What the guard meets: how commands end and the order of sets. -/
structure Env where
  exit : Log → Command → Exit
  /-- The order in which a loop takes the elements of a set. -/
  order : Log → HashSet Str → List Str
  order_perm : ∀ log links, (order log links).Perm links.elems

section Code

variable (env : Env) (dnsTarget : Str)

def run (command : Command) : Code Exit := Session.exec env.exit command

def fail {α : Type} (text : Str) : Code α := Effect.ofExcept (.error text)

/-- `detect_vpn_interface`. -/
def detectVpnInterface : Code (Option Str) := do
  match ← run env .ipLinkShow with
  | .failed e => fail ("ip link show failed: ".toList ++ e)
  | .exited false _ => fail "ip link show exited non-zero".toList
  | .exited true text => pure (vpnInterface text)

/-- `get_default_route_iface`. -/
def getDefaultRouteIface : Code (Option Str) := do
  match ← run env .ipRouteShowDefault with
  | .exited true text => pure (defaultRouteIface text)
  | .failed _ | .exited false _ => pure none

/-- The servers that were shown have the target among them. -/
def showsTarget : Exit → Bool
  | .exited true text => contains text dnsTarget
  | .failed _ | .exited false _ => false

/-- `is_already_correct`. -/
def isAlreadyCorrect (iface : Str) : Code Bool := do
  let out ← run env (.showDns iface)
  pure (showsTarget dnsTarget out)

def touch (iface : Str) : Code Unit :=
  Session.update fun g => { g with touchedLinks := g.touchedLinks.insert iface }

/-- One round of the loop of `reassert_via_resolvectl`. -/
def reassertLink (iface : Str) : Code Unit := do
  if ← isAlreadyCorrect env dnsTarget iface then touch iface
  else
    match ← run env (.setDns iface dnsTarget) with
    | .failed e => fail ("resolvectl dns failed for ".toList ++ iface ++ ": ".toList ++ e)
    | .exited false _ => pure ()
    | .exited true _ =>
        touch iface
        let _ ← run env (.setDomain iface "~.".toList)

/-- The loop of `reassert_via_resolvectl`. -/
def reassertLoop : List Str → Code Unit
  | [] => pure ()
  | iface :: rest => do
      reassertLink env dnsTarget iface
      reassertLoop rest

/-- `reassert_via_resolvectl`. -/
def reassertViaResolvectl (targets : HashSet Str) : Code Unit := do
  match ← run env .status with
  | .failed e => fail ("resolvectl not available: ".toList ++ e)
  | .exited false _ => fail "resolvectl status exited non-zero".toList
  | .exited true _ =>
      let ifaces ← Effect.read fun w => env.order w.log targets
      reassertLoop env dnsTarget ifaces

/-- One round of the loop of `revert`.  The link has left the set before the
command is run. -/
def revertLink (iface : Str) : Code Unit := do
  Session.update fun g => { g with touchedLinks := g.touchedLinks.remove iface }
  let _ ← run env (.revert iface)

/-- The loop of `revert`. -/
def revertLoop : List Str → Code Unit
  | [] => pure ()
  | iface :: rest => do
      revertLink env iface
      revertLoop rest

def revert : Code Unit := do
  let ifaces ← Effect.read fun w => env.order w.log w.state.touchedLinks
  revertLoop env ifaces

/-- `is_vpn_active.swap`. -/
def swapVpnActive (vpnNow : Bool) : Code Bool := fun w =>
  (.ok w.state.isVpnActive, { w with state := { w.state with isVpnActive := vpnNow } })

def tick : Code Unit := do
  let vpnIface ← detectVpnInterface env
  let vpnNow := vpnIface.isSome
  let vpnWas ← swapVpnActive vpnNow
  if !vpnNow && vpnWas then revert env
  else if !vpnNow then pure ()
  else
    let targets := (vpnIface.map HashSet.empty.insert).getD .empty
    let targets := ((← getDefaultRouteIface env).map targets.insert).getD targets
    if targets.elems.isEmpty then fail "no target interface found for DNS reassertion".toList
    else reassertViaResolvectl env dnsTarget targets

end Code

/-! ## Runs -/

inductive Call where
  | tick
  | revert
deriving DecidableEq, Repr

def Call.code (env : Env) (dnsTarget : Str) : Call → Code Unit
  | .tick => Linux.tick env dnsTarget
  | .revert => Linux.revert env

def start : World := ⟨⟨false, .empty⟩, []⟩

/-- The calls one after the other.  An error of one does not stop the next. -/
def runCalls (env : Env) (dnsTarget : Str) (calls : List Call) : World :=
  calls.foldl (fun w call => (call.code env dnsTarget w).2) start

/-! ## What the guard owns -/

/-- The guard has set the link and not reverted it since. -/
def owns (link : Str) : Log → Bool
  | [] => false
  | (.setDns iface _, exit) :: log => (iface == link && exit.success) || owns link log
  | (.revert iface, exit) :: log => owns link log && !(iface == link && exit.success)
  | _ :: log => owns link log

/-- The set is right about a link. -/
def ExactAt (link : Str) (w : World) : Prop :=
  link ∈ w.state.touchedLinks ↔ owns link w.log = true

/-- A link that shows the target is one that the guard owns, and every revert
succeeds. -/
def Clean (dnsTarget : Str) : Log → Prop
  | [] => True
  | (.showDns iface, exit) :: log =>
      (showsTarget dnsTarget exit = true → owns iface log = true) ∧ Clean dnsTarget log
  | (.revert _, exit) :: log => exit.success = true ∧ Clean dnsTarget log
  | _ :: log => Clean dnsTarget log

/-- Only links that the guard owns are reverted. -/
def RevertsOwn : Log → Prop
  | [] => True
  | (.revert iface, _) :: log => owns iface log = true ∧ RevertsOwn log
  | _ :: log => RevertsOwn log

/-! ## Steps -/

/-- A step that concerns these links alone.  If the set was right about them, the
log stays clean just if it is right about them afterwards. -/
structure Moves (dnsTarget : Str) (links : List Str) (w w' : World) : Prop where
  frame : ∀ link, link ∉ links →
    (link ∈ w'.state.touchedLinks ↔ link ∈ w.state.touchedLinks) ∧
      owns link w'.log = owns link w.log
  clean : (∀ link ∈ links, ExactAt link w) →
    (Clean dnsTarget w'.log ↔ Clean dnsTarget w.log ∧ ∀ link ∈ links, ExactAt link w')
  cleanBefore : Clean dnsTarget w'.log → Clean dnsTarget w.log
  own : (∀ link ∈ links, ExactAt link w) → RevertsOwn w.log → RevertsOwn w'.log

namespace Moves

variable {dnsTarget : Str} {links links' : List Str} {w w1 w' : World}

theorem exactAt (h : Moves dnsTarget links w w') {link : Str} (hlink : link ∉ links) :
    ExactAt link w' ↔ ExactAt link w := by
  obtain ⟨htouched, howns⟩ := h.frame link hlink
  rw [ExactAt, ExactAt, htouched, howns]

theorem refl (w : World) : Moves dnsTarget [] w w where
  frame link _ := ⟨Iff.rfl, rfl⟩
  clean _ := by simp
  cleanBefore := id
  own _ := id

theorem mono (h : Moves dnsTarget links w w') (hsub : links ⊆ links') :
    Moves dnsTarget links' w w' where
  frame link hlink := h.frame link fun hmem => hlink (hsub hmem)
  clean hexact := by
    rw [h.clean fun link hlink => hexact link (hsub hlink)]
    refine and_congr_right fun _ => ⟨fun hafter link hlink => ?_, fun hafter link hlink => ?_⟩
    · by_cases hmem : link ∈ links
      · exact hafter link hmem
      · exact (h.exactAt hmem).mpr (hexact link hlink)
    · exact hafter link (hsub hlink)
  cleanBefore := h.cleanBefore
  own hexact := h.own fun link hlink => hexact link (hsub hlink)

/-- The second step meets its links as the first one did. -/
theorem exact_second (h : Moves dnsTarget links w w1) (hdisjoint : ∀ link ∈ links, link ∉ links')
    (hexact : ∀ link ∈ links ++ links', ExactAt link w) : ∀ link ∈ links', ExactAt link w1 := by
  intro link hlink
  have hother : link ∉ links := fun hmem => hdisjoint link hmem hlink
  exact (h.exactAt hother).mpr (hexact link (List.mem_append_right links hlink))

theorem append (h : Moves dnsTarget links w w1) (h' : Moves dnsTarget links' w1 w')
    (hdisjoint : ∀ link ∈ links, link ∉ links') : Moves dnsTarget (links ++ links') w w' where
  frame link hlink := by
    rw [List.mem_append, not_or] at hlink
    obtain ⟨htouched, howns⟩ := h.frame link hlink.1
    obtain ⟨htouched', howns'⟩ := h'.frame link hlink.2
    exact ⟨htouched'.trans htouched, howns'.trans howns⟩
  clean hexact := by
    have hfirst : ∀ link ∈ links, ExactAt link w :=
      fun link hlink => hexact link (List.mem_append_left links' hlink)
    have hkept : (∀ link ∈ links, ExactAt link w1) ↔ ∀ link ∈ links, ExactAt link w' :=
      forall₂_congr fun link hlink => (h'.exactAt (hdisjoint link hlink)).symm
    rw [h'.clean (h.exact_second hdisjoint hexact), h.clean hfirst, hkept, and_assoc,
      List.forall_mem_append]
  cleanBefore hclean := h.cleanBefore (h'.cleanBefore hclean)
  own hexact hown := by
    refine h'.own (h.exact_second hdisjoint hexact) (h.own (fun link hlink => ?_) hown)
    exact hexact link (List.mem_append_left links' hlink)

end Moves

/-! ## Commands that set nothing -/

/-- The command sets no servers and its answer is not compared with the target. -/
def Command.quiet : Command → Bool
  | .ipLinkShow | .ipRouteShowDefault | .status | .setDomain _ _ => true
  | .showDns _ | .setDns _ _ | .revert _ => false

section Steps

variable {env : Env} {dnsTarget : Str}

theorem moves_quiet {command : Command} (hquiet : command.quiet = true) (exit : Exit) {w w' : World}
    (htouched : w'.state.touchedLinks = w.state.touchedLinks)
    (hlog : w'.log = (command, exit) :: w.log) : Moves dnsTarget [] w w' := by
  have hsame : (∀ link, owns link w'.log = owns link w.log) ∧
      (Clean dnsTarget w'.log ↔ Clean dnsTarget w.log) ∧
      (RevertsOwn w'.log ↔ RevertsOwn w.log) := by
    rw [hlog]
    cases command with
    | ipLinkShow | ipRouteShowDefault | status | setDomain iface domain =>
        exact ⟨fun _ => rfl, Iff.rfl, Iff.rfl⟩
    | showDns iface | setDns iface target | revert iface => cases hquiet
  obtain ⟨howns, hclean, hown⟩ := hsame
  exact ⟨fun link _ => ⟨by rw [htouched], howns link⟩, fun _ => by simp [hclean], hclean.mp,
    fun _ => hown.mpr⟩

theorem run_quiet {command : Command} (hquiet : command.quiet = true) :
    Effect.After (Moves dnsTarget []) (run env command) :=
  fun w => moves_quiet hquiet (env.exit w.log command) rfl rfl

/-! ## One link -/

theorem moves_one {iface : Str} {w w' : World}
    (hother : ∀ link, link ≠ iface →
      (link ∈ w'.state.touchedLinks ↔ link ∈ w.state.touchedLinks) ∧
        owns link w'.log = owns link w.log)
    (hclean : ExactAt iface w →
      (Clean dnsTarget w'.log ↔ Clean dnsTarget w.log ∧ ExactAt iface w'))
    (hbefore : Clean dnsTarget w'.log → Clean dnsTarget w.log)
    (hown : ExactAt iface w → RevertsOwn w.log → RevertsOwn w'.log) :
    Moves dnsTarget [iface] w w' where
  frame link hlink := hother link fun heq => hlink (List.mem_singleton.mpr heq)
  clean hexact := by
    rw [List.forall_mem_singleton]
    exact hclean (hexact iface List.mem_cons_self)
  cleanBefore := hbefore
  own hexact := hown (hexact iface List.mem_cons_self)

theorem revertLink_moves {iface : Str} {w : World} (hmem : iface ∈ w.state.touchedLinks) :
    Moves dnsTarget [iface] w (revertLink env iface w).2 := by
  show Moves dnsTarget [iface] w ⟨⟨w.state.isVpnActive, w.state.touchedLinks.remove iface⟩,
    (.revert iface, env.exit w.log (.revert iface)) :: w.log⟩
  generalize env.exit w.log (.revert iface) = exit
  refine moves_one (fun link hne => ?_) (fun hexact => ?_) And.right fun hexact hown => ?_
  · simp [owns, hne, hne.symm]
  · have howned := hexact.mp hmem
    simp [ExactAt, Clean, owns, howned, and_comm]
  · exact ⟨hexact.mp hmem, hown⟩

/-- A link that shows the target is put in the set. -/
theorem moves_skipped {iface : Str} {shown : Exit} (hshows : showsTarget dnsTarget shown = true)
    (w : World) : Moves dnsTarget [iface] w
      (touch iface ⟨w.state, (.showDns iface, shown) :: w.log⟩).2 := by
  show Moves dnsTarget [iface] w ⟨⟨w.state.isVpnActive, w.state.touchedLinks.insert iface⟩,
    (.showDns iface, shown) :: w.log⟩
  refine moves_one (fun link hne => ?_) (fun hexact => ?_) And.right fun _ => id
  · simp [owns, hne]
  · simp [ExactAt, Clean, owns, hshows, and_comm]

/-- A link that could not be set stays as it was. -/
theorem moves_refused {iface : Str} {shown exit : Exit}
    (hshows : showsTarget dnsTarget shown = false) (hexit : exit.success = false) (w : World) :
    Moves dnsTarget [iface] w
      ⟨w.state, (.setDns iface dnsTarget, exit) :: (.showDns iface, shown) :: w.log⟩ := by
  refine moves_one (fun link hne => ?_) (fun hexact => ?_) And.right fun _ => id
  · simp [owns, hexit]
  · have hsame : ExactAt iface ⟨w.state, (.setDns iface dnsTarget, exit) ::
        (.showDns iface, shown) :: w.log⟩ := by
      simpa [ExactAt, owns, hexit] using hexact
    simp [hsame, Clean, hshows]

/-- A link that was set is put in the set and is owned. -/
theorem moves_set {iface : Str} {shown exit : Exit}
    (hshows : showsTarget dnsTarget shown = false) (hexit : exit.success = true) (domain : Exit)
    (w : World) : Moves dnsTarget [iface] w
      ⟨⟨w.state.isVpnActive, w.state.touchedLinks.insert iface⟩,
        (.setDomain iface "~.".toList, domain) :: (.setDns iface dnsTarget, exit) ::
          (.showDns iface, shown) :: w.log⟩ := by
  refine moves_one (fun link hne => ?_) (fun hexact => ?_) And.right fun _ => id
  · simp [owns, hne, hne.symm]
  · simp [ExactAt, Clean, owns, hshows, hexit]

theorem reassertLink_moves (iface : Str) :
    Effect.After (Moves dnsTarget [iface]) (reassertLink env dnsTarget iface) := by
  intro w
  have hcheck : isAlreadyCorrect env dnsTarget iface w =
      (.ok (showsTarget dnsTarget (env.exit w.log (.showDns iface))),
        ⟨w.state, (.showDns iface, env.exit w.log (.showDns iface)) :: w.log⟩) := rfl
  rw [reassertLink, Effect.bind_ok hcheck]
  generalize env.exit w.log (.showDns iface) = shown
  cases hshows : showsTarget dnsTarget shown with
  | true => exact moves_skipped hshows w
  | false =>
      have hset : ∀ log : Log, run env (.setDns iface dnsTarget) ⟨w.state, log⟩ =
          (.ok (env.exit log (.setDns iface dnsTarget)),
            ⟨w.state, (.setDns iface dnsTarget, env.exit log (.setDns iface dnsTarget)) :: log⟩) :=
        fun log => rfl
      rw [if_neg Bool.false_ne_true, Effect.bind_ok (hset _)]
      generalize env.exit _ (.setDns iface dnsTarget) = exit
      match exit with
      | .failed e => exact moves_refused hshows rfl w
      | .exited false text => exact moves_refused hshows rfl w
      | .exited true text => exact moves_set hshows rfl _ w

/-! ## Loops -/

theorem reassertLoop_moves {ifaces : List Str} (hnodup : ifaces.Nodup) :
    Effect.After (Moves dnsTarget ifaces) (reassertLoop env dnsTarget ifaces) := by
  induction ifaces with
  | nil => exact Effect.After.pure Moves.refl
  | cons iface rest ih =>
      obtain ⟨hnot, hrest⟩ := List.nodup_cons.mp hnodup
      refine Effect.After.bind (reassertLink_moves iface) (fun _ => ih hrest) ?_ ?_
      · intro w w1 w' h h'
        exact h.append h' fun link hlink => List.mem_singleton.mp hlink ▸ hnot
      · intro w w1 h
        exact h.mono (List.cons_subset_cons iface (List.nil_subset rest))

theorem revertLoop_moves {ifaces : List Str} (hnodup : ifaces.Nodup) {w : World}
    (hmem : ∀ iface ∈ ifaces, iface ∈ w.state.touchedLinks) :
    Moves dnsTarget ifaces w (revertLoop env ifaces w).2 := by
  induction ifaces generalizing w with
  | nil => exact .refl w
  | cons iface rest ih =>
      obtain ⟨hnot, hrest⟩ := List.nodup_cons.mp hnodup
      obtain ⟨hfirst, hothers⟩ := List.forall_mem_cons.mp hmem
      have hlink := @revertLink_moves env dnsTarget iface w hfirst
      refine hlink.append (ih hrest fun link hlink => ?_) ?_
      · exact HashSet.mem_remove.mpr ⟨ne_of_mem_of_not_mem hlink hnot, hothers link hlink⟩
      · exact fun link hlink => List.mem_singleton.mp hlink ▸ hnot

/-! ## Calls -/

variable (dnsTarget) in
/-- A step that concerns some links. -/
def Moved (w w' : World) : Prop := ∃ links, Moves dnsTarget links w w'

theorem bind_quiet {α β : Type} {m : Code α} {f : α → Code β}
    (hm : Effect.After (Moves dnsTarget []) m) (hf : ∀ a, Effect.After (Moves dnsTarget []) (f a)) :
    Effect.After (Moves dnsTarget []) (m >>= f) :=
  .bind hm hf (fun _ _ _ h h' => h.append h' (by simp)) fun _ _ h => h

theorem bind_moved {α β : Type} {m : Code α} {f : α → Code β}
    (hm : Effect.After (Moves dnsTarget []) m) (hf : ∀ a, Effect.After (Moved dnsTarget) (f a)) :
    Effect.After (Moved dnsTarget) (m >>= f) :=
  .bind hm hf (fun _ _ _ h ⟨links, h'⟩ => ⟨links, h.append h' (by simp)⟩) fun _ _ h => ⟨[], h⟩

theorem fail_moved {α : Type} (text : Str) : Effect.After (Moved dnsTarget) (fail text : Code α) :=
  fun w => ⟨[], .refl w⟩

theorem detectVpnInterface_quiet : Effect.After (Moves dnsTarget []) (detectVpnInterface env) := by
  refine bind_quiet (run_quiet rfl) fun exit => ?_
  match exit with
  | .failed e => exact Moves.refl
  | .exited false _ => exact Moves.refl
  | .exited true _ => exact Moves.refl

theorem getDefaultRouteIface_quiet :
    Effect.After (Moves dnsTarget []) (getDefaultRouteIface env) := by
  refine bind_quiet (run_quiet rfl) fun exit => ?_
  match exit with
  | .failed e => exact Moves.refl
  | .exited false _ => exact Moves.refl
  | .exited true _ => exact Moves.refl

theorem swapVpnActive_quiet (vpnNow : Bool) :
    Effect.After (Moves dnsTarget []) (swapVpnActive vpnNow) :=
  fun w => ⟨fun _ _ => ⟨Iff.rfl, rfl⟩, fun _ => by simp [swapVpnActive], id, fun _ => id⟩

theorem revert_moved : Effect.After (Moved dnsTarget) (revert env) := by
  intro w
  have hperm := env.order_perm w.log w.state.touchedLinks
  refine ⟨_, revertLoop_moves (hperm.nodup_iff.mpr w.state.touchedLinks.nodup) fun iface hmem => ?_⟩
  exact hperm.mem_iff.mp hmem

theorem reassertViaResolvectl_moved (targets : HashSet Str) :
    Effect.After (Moved dnsTarget) (reassertViaResolvectl env dnsTarget targets) := by
  refine bind_moved (run_quiet rfl) fun exit => ?_
  match exit with
  | .failed e => exact fail_moved _
  | .exited false _ => exact fail_moved _
  | .exited true _ =>
      intro w
      have hperm := env.order_perm w.log targets
      exact ⟨_, reassertLoop_moves (hperm.nodup_iff.mpr targets.nodup) w⟩

theorem tick_moved : Effect.After (Moved dnsTarget) (tick env dnsTarget) := by
  refine bind_moved detectVpnInterface_quiet fun vpnIface => ?_
  refine bind_moved (swapVpnActive_quiet _) fun vpnWas => ?_
  split
  · exact revert_moved
  · split
    · exact fun w => ⟨[], .refl w⟩
    · refine bind_moved getDefaultRouteIface_quiet fun iface => ?_
      dsimp only
      split
      · exact fail_moved _
      · exact reassertViaResolvectl_moved _

theorem call_moved (call : Call) : Effect.After (Moved dnsTarget) (call.code env dnsTarget) := by
  cases call with
  | tick => exact tick_moved
  | revert => exact revert_moved

/-- From an exact set, a call keeps the log clean just if it keeps the set exact. -/
theorem Moved.clean_iff {w w' : World} (h : Moved dnsTarget w w')
    (hexact : ∀ link, ExactAt link w) :
    Clean dnsTarget w'.log ↔ Clean dnsTarget w.log ∧ ∀ link, ExactAt link w' := by
  obtain ⟨links, h⟩ := h
  rw [h.clean fun link _ => hexact link]
  refine and_congr_right fun _ => ⟨fun hafter link => ?_, fun hafter link _ => hafter link⟩
  by_cases hmem : link ∈ links
  · exact hafter link hmem
  · exact (h.exactAt hmem).mpr (hexact link)

end Steps

/-! ## The set is exact -/

theorem runCalls_concat (env : Env) (dnsTarget : Str) (calls : List Call) (call : Call) :
    runCalls env dnsTarget (calls ++ [call]) =
      (call.code env dnsTarget (runCalls env dnsTarget calls)).2 :=
  List.foldl_append ..

/-- The set holds the links that the guard owns, after every call, exactly when
each link that showed the target was owned and each revert succeeded.  Then no
link is reverted that the guard does not own. -/
theorem touched_links_exact_iff (env : Env) (dnsTarget : Str) (calls : List Call) :
    ((∀ earlier, earlier <+: calls → ∀ link,
        link ∈ (runCalls env dnsTarget earlier).state.touchedLinks ↔
          owns link (runCalls env dnsTarget earlier).log = true) ↔
      Clean dnsTarget (runCalls env dnsTarget calls).log) ∧
    (Clean dnsTarget (runCalls env dnsTarget calls).log →
      RevertsOwn (runCalls env dnsTarget calls).log) := by
  induction calls using List.reverseRecOn with
  | nil =>
      refine ⟨⟨fun _ => trivial, fun _ earlier hearlier link => ?_⟩, fun _ => trivial⟩
      rw [List.prefix_nil.mp hearlier]
      exact ⟨fun h => absurd h (HashSet.not_mem_empty link), fun h => by cases h⟩
  | append_singleton calls call ih =>
      obtain ⟨hexact, hown⟩ := ih
      have hmoved : Moved dnsTarget (runCalls env dnsTarget calls)
          (runCalls env dnsTarget (calls ++ [call])) := by
        rw [runCalls_concat]
        exact call_moved call _
      obtain ⟨links, hmoves⟩ := id hmoved
      refine ⟨⟨fun h => ?_, fun h => ?_⟩, fun h => ?_⟩
      · have hbefore := fun earlier (hearlier : earlier <+: calls) =>
          h earlier (hearlier.trans (List.prefix_append ..))
        have hclean := hexact.mp hbefore
        exact (hmoved.clean_iff (hbefore calls List.prefix_rfl)).mpr ⟨hclean, h _ List.prefix_rfl⟩
      · have hbefore := hexact.mpr (hmoves.cleanBefore h)
        have hafter := ((hmoved.clean_iff (hbefore calls List.prefix_rfl)).mp h).2
        intro earlier hearlier
        rcases List.prefix_concat_iff.mp hearlier with rfl | hearlier
        · exact hafter
        · exact hbefore earlier hearlier
      · have hclean := hmoves.cleanBefore h
        have hbefore := hexact.mpr hclean calls List.prefix_rfl
        exact hmoves.own (fun link _ => hbefore link) (hown hclean)

/-- The VPN is on `tun0` and the default route on `eth0`, whose servers are
shown.  All commands succeed but for some reverts. -/
def wired (servers : Str) (reverts : Bool) : Env where
  exit _ command :=
    match command with
    | .ipLinkShow => .exited true "7: tun0: <UP,LOWER_UP>".toList
    | .ipRouteShowDefault => .exited true "default dev eth0".toList
    | .showDns iface => .exited true (if iface = "eth0".toList then servers else [])
    | .revert _ => .exited reverts []
    | .status | .setDns _ _ | .setDomain _ _ => .exited true []
  order _ links := links.elems
  order_perm _ _ := .refl _

/-- A link that somebody else has pointed at the target is put in the set and
reverted.  And a link whose revert fails is forgotten. -/
theorem touched_links_not_exact :
    let eth0 := "eth0".toList
    let target := "127.0.0.1".toList
    let other := runCalls (wired target true) target
    let failing := runCalls (wired [] false) target
    (eth0 ∈ (other [.tick]).state.touchedLinks ∧ owns eth0 (other [.tick]).log = false ∧
        (.revert eth0, .exited true []) ∈ (other [.tick, .revert]).log) ∧
      eth0 ∉ (failing [.tick, .revert]).state.touchedLinks ∧
        owns eth0 (failing [.tick, .revert]).log = true := by
  decide +kernel

end DnsRelay.NetGuard.Linux
