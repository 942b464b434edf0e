import DnsRelay.Shared.NetGuard

/-!
# The network guard on macOS

While a VPN is up, the guard overrides the servers of the primary service in
the dynamic store, with a script for `scutil`, and sets the servers of the
other services with `networksetup`.  It remembers one service whose override it
has installed, and removes that one when the VPN goes away.

Which overrides are installed is known from the log of the scripts.  Another
primary service takes the place of the remembered one, and then the override of
the first is never removed.  So a revert leaves nothing behind exactly when the
override that is installed is the one that is remembered
(`no_override_left_iff`).
-/

namespace DnsRelay.NetGuard.Macos

open Lib

/-! ## Commands -/

/-- The commands and the scripts of the guard. -/
inductive Command where
  | ifconfig
  /-- `show State:/Network/Global/IPv4`. -/
  | showGlobal
  /-- `d.init`, `d.add ServerAddresses * TARGET` and
  `set State:/Network/Service/ID/DNS`. -/
  | setState (serviceId dnsTarget : Str)
  /-- `remove State:/Network/Service/ID/DNS`. -/
  | removeState (serviceId : Str)
  /-- `networksetup -listallnetworkservices`. -/
  | listServices
  /-- `networksetup -getdnsservers SERVICE`. -/
  | getDns (service : Str)
  /-- `networksetup -setdnsservers SERVICE SERVERS`. -/
  | setDns (service servers : Str)
deriving DecidableEq, Repr

structure Answer where
  exit : Exit
  done : Bool
deriving DecidableEq, Repr

/-- The commands that were run, newest first. -/
abbrev Log := List (Command × Answer)

structure Guard where
  isVpnActive : Bool
  services : HashSet Str
  scutilServiceId : Option Str

/-- The guard and its log. -/
abbrev World := Session Guard Command Answer

/-- The code of the guard, which fails with a text. -/
abbrev Code (α : Type) := Effect World Str α

/-- What the guard meets: the answers to its commands and the order of sets. -/
structure Env where
  answer : Log → Command → Answer
  /-- The order in which a loop takes the elements of a set. -/
  order : Log → HashSet Str → List Str
  order_perm : ∀ log services, (order log services).Perm services.elems

section Code

variable (env : Env) (dnsTarget : Str)

def run (command : Command) : Code Exit := do
  let given ← Session.exec env.answer command
  pure given.exit

def fail {α : Type} (text : Str) : Code α := Effect.ofExcept (.error text)

/-- `run_scutil_script`.  The status of `scutil` is not looked at. -/
def runScutilScript (script : Command) : Code Str := do
  match ← run env script with
  | .failed e => fail e
  | .exited _ stdout => pure stdout

/-- `detect_vpn_interface`. -/
def detectVpnInterface : Code Bool := do
  match ← run env .ifconfig with
  | .failed e => fail ("ifconfig failed: ".toList ++ e)
  | .exited false _ => fail "ifconfig exited non-zero".toList
  | .exited true text => pure (vpnConnected text)

/-- `get_primary_service_id`. -/
def getPrimaryServiceId : Code (Option Str) :=
  Effect.orElse (do
      let out ← runScutilScript env .showGlobal
      pure (primaryService out))
    (pure none)

/-- `force_primary_dns_state`. -/
def forcePrimaryDnsState (serviceId : Str) : Code Unit := do
  let _ ← runScutilScript env (.setState serviceId dnsTarget)

/-- The override of the primary service, as `tick` installs it and remembers it.
A failure is logged only. -/
def overridePrimary (primaryId : Str) : Code Unit :=
  Effect.orElse (do
      forcePrimaryDnsState env dnsTarget primaryId
      Session.update fun g => { g with scutilServiceId := some primaryId })
    (pure ())

def showsTarget : Exit → Bool
  | .exited true text => (lines text).head?.map trim == some dnsTarget
  | .failed _ | .exited false _ => false

/-- `reassert_dns_on_service`. -/
def reassertDnsOnService (service : Str) : Code Bool := do
  let current ← run env (.getDns service)
  if showsTarget dnsTarget current then pure false
  else
    match ← run env (.setDns service dnsTarget) with
    | .exited true _ =>
        Session.update fun g => { g with services := g.services.insert service }
        pure true
    | .failed _ | .exited false _ => pure false

/-- The loop of `reassert_dns_on_all_services`. -/
def reassertLoop : List Str → Nat → Code Nat
  | [], reasserted => pure reasserted
  | service :: rest, reasserted => do
      let set ← reassertDnsOnService env dnsTarget service
      reassertLoop rest (reasserted + if set then 1 else 0)

/-- `reassert_dns_on_all_services`. -/
def reassertDnsOnAllServices : Code Nat := do
  match ← run env .listServices with
  | .failed e => fail ("listallnetworkservices failed: ".toList ++ e)
  | .exited false _ => fail "listallnetworkservices exited non-zero".toList
  | .exited true text => reassertLoop env dnsTarget (networkServices text) 0

/-- The loop of `revert` over the services. -/
def revertServices : List Str → Code Unit
  | [] => pure ()
  | service :: rest => do
      Session.update fun g => { g with services := g.services.remove service }
      let _ ← run env (.setDns service "Empty".toList)
      revertServices rest

/-- `state.scutil_service_id.take()`. -/
def takeServiceId : Code (Option Str) := fun w =>
  (.ok w.state.scutilServiceId, { w with state := { w.state with scutilServiceId := none } })

def revert : Code Unit := do
  match ← takeServiceId with
  | some serviceId =>
      let _ ← run env (.removeState serviceId)
  | none => pure ()
  let services ← Effect.read fun w => env.order w.log w.state.services
  revertServices env services

/-- `is_vpn_active.swap`. -/
def swapVpnActive (vpnNow : Bool) : Code Bool := fun w =>
  (.ok w.state.isVpnActive, { w with state := { w.state with isVpnActive := vpnNow } })

def tick : Code Unit := do
  let vpnNow ← detectVpnInterface env
  let vpnWas ← swapVpnActive vpnNow
  if !vpnNow && vpnWas then revert env
  else if !vpnNow then pure ()
  else
    match ← getPrimaryServiceId env with
    | some primaryId => overridePrimary env dnsTarget primaryId
    | none => pure ()
    let _ ← reassertDnsOnAllServices env dnsTarget

end Code

/-! ## Runs -/

inductive Call where
  | tick
  | revert
deriving DecidableEq, Repr

def Call.code (env : Env) (dnsTarget : Str) : Call → Code Unit
  | .tick => Macos.tick env dnsTarget
  | .revert => Macos.revert env

def start : World := ⟨⟨false, .empty, none⟩, []⟩

/-- The calls one after the other.  An error of one does not stop the next. -/
def runCalls (env : Env) (dnsTarget : Str) (calls : List Call) : World :=
  calls.foldl (fun w call => (call.code env dnsTarget w).2) start

/-! ## Overrides -/

def installed (serviceId : Str) : Log → Bool
  | [] => false
  | (.setState id _, answer) :: log => (id == serviceId && answer.done) || installed serviceId log
  | (.removeState id, answer) :: log =>
      installed serviceId log && !(id == serviceId && answer.done)
  | _ :: log => installed serviceId log

/-- `run_scutil_script` gives no error. -/
def Answer.ok (answer : Answer) : Bool :=
  match answer.exit with
  | .failed _ => false
  | .exited _ _ => true

/-- The service of the last script that installed an override and gave no error,
unless a removal was tried since. -/
def recorded : Log → Option Str
  | [] => none
  | (.setState id _, answer) :: log => if answer.ok then some id else recorded log
  | (.removeState _, _) :: _ => none
  | _ :: log => recorded log

/-- All scripts do what they are for, and no override is installed while that of
another service is remembered. -/
def steady : Log → Bool
  | [] => true
  | (.setState id _, answer) :: log =>
      answer.ok && (recorded log = none || recorded log = some id) && steady log
  | (.removeState _, answer) :: log => answer.done && steady log
  | _ :: log => steady log

/-- The override that is removed is the one that is remembered. -/
def RemovesRecorded : Log → Prop
  | [] => True
  | (.removeState id, _) :: log => recorded log = some id ∧ RemovesRecorded log
  | _ :: log => RemovesRecorded log

/-- In a steady log the override that is installed is remembered. -/
theorem recorded_of_steady {log : Log} (h : steady log = true) (hremoves : RemovesRecorded log)
    {id : Str} (hid : installed id log = true) : recorded log = some id := by
  induction log with
  | nil => cases hid
  | cons entry log ih =>
      obtain ⟨command, answer⟩ := entry
      cases command with
      | setState i target =>
          simp only [steady, Bool.and_eq_true, Bool.or_eq_true, decide_eq_true_eq] at h
          obtain ⟨⟨hok, hsame⟩, hsteady⟩ := h
          simp only [installed, Bool.or_eq_true, Bool.and_eq_true, beq_iff_eq] at hid
          rw [recorded, if_pos hok]
          rcases hid with ⟨rfl, -⟩ | hid
          · rfl
          · have hrecorded := ih hsteady hremoves hid
            rcases hsame with hnone | hsome
            · rw [hnone] at hrecorded
              cases hrecorded
            · exact hsome.symm.trans hrecorded
      | removeState i =>
          obtain ⟨hdone, hsteady⟩ := (Bool.and_eq_true ..).mp h
          obtain ⟨hrecorded, hremoves⟩ := hremoves
          simp only [installed, Bool.and_eq_true, hdone, Bool.and_true, Bool.not_eq_true',
            beq_eq_false_iff_ne] at hid
          have hboth := hrecorded.symm.trans (ih hsteady hremoves hid.1)
          exact absurd (Option.some.inj hboth) hid.2
      | ifconfig | showGlobal | listServices | getDns service | setDns service servers =>
          exact ih h hremoves hid

/-! ## Steps -/

/-- The guard remembers what its log says. -/
structure Remembers (w : World) : Prop where
  service : w.state.scutilServiceId = recorded w.log
  removes : RemovesRecorded w.log

/-- A step that runs no script that changes the store. -/
structure Quiet (w w' : World) : Prop where
  log : w.log <:+ w'.log
  installed : ∀ id, installed id w'.log = installed id w.log
  remembers : Remembers w → Remembers w'

theorem Quiet.refl (w : World) : Quiet w w := ⟨List.suffix_rfl, fun _ => rfl, id⟩

theorem Quiet.trans {w w1 w' : World} (h : Quiet w w1) (h' : Quiet w1 w') : Quiet w w' where
  log := h.log.trans h'.log
  installed id := (h'.installed id).trans (h.installed id)
  remembers hw := h'.remembers (h.remembers hw)

def Command.quiet : Command → Bool
  | .ifconfig | .showGlobal | .listServices | .getDns _ | .setDns _ _ => true
  | .setState _ _ | .removeState _ => false

section Steps

variable {env : Env} {dnsTarget : Str}

theorem run_quiet {command : Command} (hquiet : command.quiet = true) :
    Effect.After Quiet (run env command) := by
  intro w
  show Quiet w ⟨w.state, (command, env.answer w.log command) :: w.log⟩
  cases command with
  | ifconfig | showGlobal | listServices | getDns service | setDns service servers =>
      exact ⟨List.suffix_cons .., fun _ => rfl, fun h => ⟨h.service, h.removes⟩⟩
  | setState id target | removeState id => cases hquiet

theorem bind_quiet {α β : Type} {m : Code α} {f : α → Code β} (hm : Effect.After Quiet m)
    (hf : ∀ a, Effect.After Quiet (f a)) : Effect.After Quiet (m >>= f) :=
  .bind hm hf (fun _ _ _ h h' => h.trans h') fun _ _ h => h

theorem update_quiet {f : Guard → Guard} (hf : ∀ g, (f g).scutilServiceId = g.scutilServiceId) :
    Effect.After Quiet (Session.update f : Code Unit) :=
  fun w => ⟨List.suffix_rfl, fun _ => rfl, fun h => ⟨(hf w.state).trans h.service, h.removes⟩⟩

theorem swapVpnActive_quiet (vpnNow : Bool) : Effect.After Quiet (swapVpnActive vpnNow) :=
  fun _ => ⟨List.suffix_rfl, fun _ => rfl, fun h => ⟨h.service, h.removes⟩⟩

theorem runScutilScript_quiet {script : Command} (hquiet : script.quiet = true) :
    Effect.After Quiet (runScutilScript env script) := by
  refine bind_quiet (run_quiet hquiet) fun exit => ?_
  cases exit with
  | failed e => exact Quiet.refl
  | exited success stdout => exact Quiet.refl

theorem detectVpnInterface_quiet : Effect.After Quiet (detectVpnInterface env) := by
  refine bind_quiet (run_quiet rfl) fun exit => ?_
  match exit with
  | .failed e => exact Quiet.refl
  | .exited false _ => exact Quiet.refl
  | .exited true _ => exact Quiet.refl

theorem getPrimaryServiceId_quiet : Effect.After Quiet (getPrimaryServiceId env) :=
  .orElse (bind_quiet (runScutilScript_quiet rfl) fun _ => Quiet.refl) Quiet.refl
    fun _ _ _ h h' => h.trans h'

theorem reassertDnsOnService_quiet (service : Str) :
    Effect.After Quiet (reassertDnsOnService env dnsTarget service) := by
  refine bind_quiet (run_quiet rfl) fun current => ?_
  split
  · exact Quiet.refl
  · refine bind_quiet (run_quiet rfl) fun exit => ?_
    match exit with
    | .failed e => exact Quiet.refl
    | .exited false _ => exact Quiet.refl
    | .exited true _ => exact bind_quiet (update_quiet fun _ => rfl) fun _ => Quiet.refl

theorem reassertLoop_quiet (services : List Str) (reasserted : Nat) :
    Effect.After Quiet (reassertLoop env dnsTarget services reasserted) := by
  induction services generalizing reasserted with
  | nil => exact Quiet.refl
  | cons service rest ih => exact bind_quiet (reassertDnsOnService_quiet service) fun _ => ih _

theorem reassertDnsOnAllServices_quiet :
    Effect.After Quiet (reassertDnsOnAllServices env dnsTarget) := by
  refine bind_quiet (run_quiet rfl) fun exit => ?_
  match exit with
  | .failed e => exact Quiet.refl
  | .exited false _ => exact Quiet.refl
  | .exited true _ => exact reassertLoop_quiet _ 0

theorem revertServices_quiet (services : List Str) :
    Effect.After Quiet (revertServices env services) := by
  induction services with
  | nil => exact Quiet.refl
  | cons service rest ih =>
      exact bind_quiet (update_quiet fun _ => rfl) fun _ => bind_quiet (run_quiet rfl) fun _ => ih

/-! ## Scripts that change the store -/

theorem runScutilScript_eq {script : Command} {w : World} : runScutilScript env script w =
    ((match (env.answer w.log script).exit with
      | .failed e => .error e
      | .exited _ stdout => .ok stdout),
      ⟨w.state, (script, env.answer w.log script) :: w.log⟩) := by
  have hrun : run env script w = (.ok (env.answer w.log script).exit,
      ⟨w.state, (script, env.answer w.log script) :: w.log⟩) := rfl
  rw [runScutilScript, Effect.bind_ok hrun]
  cases (env.answer w.log script).exit with
  | failed e => rfl
  | exited success stdout => rfl

/-- The memory is kept. -/
def Kept (w w' : World) : Prop := Remembers w → Remembers w'

theorem bind_kept {α β : Type} {m : Code α} {f : α → Code β} (hm : Effect.After Kept m)
    (hf : ∀ a, Effect.After Kept (f a)) : Effect.After Kept (m >>= f) :=
  .bind hm hf (fun _ _ _ h h' hw => h' (h hw)) fun _ _ h => h

theorem kept_of_quiet {α : Type} {m : Code α} (h : Effect.After Quiet m) : Effect.After Kept m :=
  fun w => (h w).remembers

/-- An override is remembered just if its script gives no error. -/
theorem overridePrimary_kept (primaryId : Str) :
    Effect.After Kept (overridePrimary env dnsTarget primaryId) := by
  intro w hw
  have hscript := @runScutilScript_eq env (.setState primaryId dnsTarget) w
  generalize env.answer w.log (.setState primaryId dnsTarget) = answer at hscript
  cases hexit : answer.exit with
  | failed e =>
      simp only [hexit] at hscript
      have hforce : forcePrimaryDnsState env dnsTarget primaryId w = _ := Effect.bind_error hscript
      rw [overridePrimary, Effect.orElse_error (Effect.bind_error hforce)]
      refine ⟨hw.service.trans ?_, hw.removes⟩
      show recorded w.log = if answer.ok then some primaryId else recorded w.log
      rw [Answer.ok, hexit]
      rfl
  | exited success stdout =>
      simp only [hexit] at hscript
      have hforce : forcePrimaryDnsState env dnsTarget primaryId w =
          (.ok (), ⟨w.state, (.setState primaryId dnsTarget, answer) :: w.log⟩) :=
        Effect.bind_ok hscript
      have hresult : overridePrimary env dnsTarget primaryId w =
          (.ok (), ⟨{ w.state with scutilServiceId := some primaryId },
            (.setState primaryId dnsTarget, answer) :: w.log⟩) :=
        Effect.orElse_ok (Effect.bind_ok hforce)
      rw [hresult]
      refine ⟨?_, hw.removes⟩
      show some primaryId = if answer.ok then some primaryId else recorded w.log
      rw [Answer.ok, hexit]
      rfl

/-- `revert` removes the override that is remembered, and then changes the store
no more. -/
theorem revert_quiet_after (w : World) : ∃ w1, Quiet w1 (revert env w).2 ∧
    w1.state.scutilServiceId = none ∧ w1.log = match w.state.scutilServiceId with
      | none => w.log
      | some id => (.removeState id, env.answer w.log (.removeState id)) :: w.log := by
  have htake : takeServiceId w =
      (.ok w.state.scutilServiceId, ⟨{ w.state with scutilServiceId := none }, w.log⟩) := rfl
  rw [revert, Effect.bind_ok htake]
  cases hid : w.state.scutilServiceId with
  | none => exact ⟨_, revertServices_quiet _ _, rfl, rfl⟩
  | some id => exact ⟨_, revertServices_quiet _ _, rfl, rfl⟩

theorem revert_kept : Effect.After Kept (revert env) := by
  intro w hw
  obtain ⟨w1, hquiet, hnone, hlog⟩ := @revert_quiet_after env w
  refine hquiet.remembers ⟨?_, ?_⟩
  · rw [hnone, hlog]
    cases hid : w.state.scutilServiceId with
    | none => exact (hid.symm.trans hw.service)
    | some id => rfl
  · rw [hlog]
    cases hid : w.state.scutilServiceId with
    | none => exact hw.removes
    | some id => exact ⟨hw.service.symm.trans hid, hw.removes⟩

theorem tick_kept : Effect.After Kept (tick env dnsTarget) := by
  refine bind_kept (kept_of_quiet detectVpnInterface_quiet) fun vpnNow => ?_
  refine bind_kept (kept_of_quiet (swapVpnActive_quiet _)) fun vpnWas => ?_
  split
  · exact revert_kept
  · split
    · exact fun w => id
    · refine bind_kept (kept_of_quiet getPrimaryServiceId_quiet) fun primary => ?_
      have hrest : Effect.After Kept (do
          let _ ← reassertDnsOnAllServices env dnsTarget) :=
        bind_kept (kept_of_quiet reassertDnsOnAllServices_quiet) fun _ _ => id
      cases primary with
      | none => exact hrest
      | some primaryId => exact bind_kept (overridePrimary_kept primaryId) fun _ => hrest

end Steps

/-! ## What is left behind -/

/-- The command succeeds, and a script also changes the store. -/
def Command.succeeds : Command → Answer → Bool
  | .setState _ _, answer | .removeState _, answer => answer.exit.success && answer.done
  | _, answer => answer.exit.success

theorem runCalls_concat (env : Env) (dnsTarget : Str) (calls : List Call) (call : Call) :
    runCalls env dnsTarget (calls ++ [call]) =
      (call.code env dnsTarget (runCalls env dnsTarget calls)).2 :=
  List.foldl_append ..

theorem remembers_runCalls (env : Env) (dnsTarget : Str) (calls : List Call) :
    Remembers (runCalls env dnsTarget calls) := by
  induction calls using List.reverseRecOn with
  | nil => exact ⟨rfl, trivial⟩
  | append_singleton calls call ih =>
      rw [runCalls_concat]
      cases call with
      | tick => exact tick_kept _ ih
      | revert => exact revert_kept _ ih

/-- A revert that succeeds removes the override that is remembered and no other. -/
theorem installed_revert {env : Env} {w : World} (hw : Remembers w)
    (hsucceeds : ∀ new, (revert env w).2.log = new ++ w.log →
      ∀ entry ∈ new, entry.1.succeeds entry.2 = true)
    (id : Str) : installed id (revert env w).2.log = true ↔
      installed id w.log = true ∧ recorded w.log ≠ some id := by
  obtain ⟨w1, hquiet, -, hlog⟩ := @revert_quiet_after env w
  rw [hquiet.installed id, ← hw.service]
  cases hservice : w.state.scutilServiceId with
  | none =>
      simp only [hservice] at hlog
      simp [hlog]
  | some i =>
      simp only [hservice] at hlog
      obtain ⟨new, hnew⟩ := hquiet.log
      have hremoved := hsucceeds (new ++ [(.removeState i, env.answer w.log (.removeState i))])
        (by rw [← hnew, hlog, List.append_assoc]; rfl) _
        (List.mem_append_right new (List.mem_singleton.mpr rfl))
      have hdone : (env.answer w.log (.removeState i)).done = true :=
        ((Bool.and_eq_true ..).mp hremoved).2
      simp [hlog, installed, hdone]

/-- A last revert whose commands all succeed leaves no override behind exactly
when no override was installed but the one that was remembered.  That is so if
the scripts work and the primary service stays the same while an override is
remembered. -/
theorem no_override_left_iff (env : Env) (dnsTarget : Str) (calls : List Call)
    (hsucceeds : ∀ new, (runCalls env dnsTarget (calls ++ [.revert])).log =
        new ++ (runCalls env dnsTarget calls).log →
      ∀ entry ∈ new, entry.1.succeeds entry.2 = true) :
    let log := (runCalls env dnsTarget calls).log
    let left := fun id => installed id (runCalls env dnsTarget (calls ++ [.revert])).log = true
    ((∀ id, ¬left id) ↔ ∀ id, installed id log = true → recorded log = some id) ∧
      (steady log = true → ∀ id, ¬left id) := by
  intro log left
  have hremembers := remembers_runCalls env dnsTarget calls
  rw [runCalls_concat] at hsucceeds
  have hleft : ∀ id, left id ↔ installed id log = true ∧ recorded log ≠ some id := by
    intro id
    show installed id (runCalls env dnsTarget (calls ++ [.revert])).log = true ↔ _
    rw [runCalls_concat]
    exact installed_revert hremembers hsucceeds id
  have hiff : (∀ id, ¬left id) ↔ ∀ id, installed id log = true → recorded log = some id := by
    refine forall_congr' fun id => ?_
    rw [hleft, not_and, not_not]
  exact ⟨hiff, fun hsteady => hiff.mpr fun id => recorded_of_steady hsteady hremembers.removes⟩

/-- A VPN is up.  The primary service is the first one, and the second one after
an override was installed.  All commands succeed. -/
def roaming (first second : Str) : Env where
  answer log command :=
    match command with
    | .ifconfig => ⟨.exited true "utun4: <UP,RUNNING>\n\tinet 10.8.0.2".toList, false⟩
    | .showGlobal =>
        let primary := if (recorded log).isSome then second else first
        ⟨.exited true ("PrimaryService : ".toList ++ primary), false⟩
    | .setState _ _ | .removeState _ => ⟨.exited true [], true⟩
    | .listServices => ⟨.exited true "services\nWi-Fi".toList, false⟩
    | .getDns _ | .setDns _ _ => ⟨.exited true [], false⟩
  order _ services := services.elems
  order_perm _ _ := .refl _

theorem no_override_left_iff_one_service :
    let env := roaming "A".toList "A".toList
    let target := "127.0.0.1".toList
    let calls := [Call.tick, .tick]
    installed "A".toList (runCalls env target calls).log = true ∧
      ∀ id, ¬installed id (runCalls env target (calls ++ [.revert])).log = true := by
  intro env target calls
  have hall : (runCalls env target (calls ++ [.revert])).log.all
      (fun entry => entry.1.succeeds entry.2) = true := by decide +kernel
  have hsteady : steady (runCalls env target calls).log = true := by decide +kernel
  refine ⟨by decide +kernel, (no_override_left_iff env target calls ?_).2 hsteady⟩
  intro new hnew entry hentry
  rw [hnew] at hall
  exact List.all_eq_true.mp hall entry (List.mem_append_left _ hentry)

/-- The primary service changes from one to the other.  The override of the
first one stays in the store. -/
theorem override_left_behind :
    let env := roaming "A".toList "B".toList
    let final := runCalls env "127.0.0.1".toList [.tick, .tick, .revert]
    installed "A".toList final.log = true ∧ installed "B".toList final.log = false ∧
      final.state.scutilServiceId = none ∧
      final.log.all (fun entry => entry.1.succeeds entry.2) = true := by
  decide +kernel

end DnsRelay.NetGuard.Macos
