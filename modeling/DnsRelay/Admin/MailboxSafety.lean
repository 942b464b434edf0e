import DnsRelay.Admin.Mailbox

/-!
# What the privileged helper does

Whatever anybody does to the files, the helper does only what a private file of
the user has asked for.

Where nobody tampers with the directories, every request is done at most once,
however many helpers are started for it, whatever fails and whoever is killed.
What a call returns as the response of the helper is what came of its own
request.  The argument counts tokens.  A request file is one, a helper that has
removed the file and not yet acted is one, and an execution is one.  Creating
the request makes the only token there ever is.
-/

namespace DnsRelay.Admin

open Lib

/-- A helper that has taken a request and not yet done it. -/
def Helper.token (id : Uuid) (p : Helper) : Nat :=
  match p.stage with
  | .dispatching _ => if p.id = id then 1 else 0
  | _ => 0

namespace Mailbox

variable {user : Nat} {s s' : Mailbox} {a : Act}

/-! ## Provenance -/

/-- There is a private file of the user that asks for the action. -/
def Signed (user : Nat) (s : Mailbox) (id : Uuid) (action : AdminAction) : Prop :=
  ∃ f, s.requests id = some f ∧ f.Private user ∧ f.body = .ok ⟨id, action⟩

/-- The action was done for the identifier, or a helper is about to do it. -/
def Underway (s : Mailbox) (id : Uuid) (action : AdminAction) : Prop :=
  (∃ e ∈ s.executed, e.id = id ∧ e.action = action) ∨
    ∃ p ∈ s.helpers, p.id = id ∧ (p.stage = .removing action ∨ p.stage = .dispatching action)

/-- A helper that changes its stage gives nothing new to do. -/
theorem Underway.of_setHelper {h : Nat} {p : Helper} {stage : HelperStage} {id : Uuid}
    {action : AdminAction} (found : s.helpers[h]? = some p)
    (hstage : ∀ action, stage = .removing action ∨ stage = .dispatching action →
      p.stage = .removing action ∨ p.stage = .dispatching action)
    (hu : Underway (s.setHelper h p.id stage) id action) : Underway s id action := by
  rcases hu with hdone | ⟨q, hq, hid, hq'⟩
  · exact .inl hdone
  · rcases List.mem_or_eq_of_mem_set hq with hq | rfl
    · exact .inr ⟨q, hq, hid, hq'⟩
    · exact .inr ⟨p, List.mem_of_getElem? found, hid, hstage action hq'⟩

theorem Underway.of_spawn {id id' : Uuid} {action : AdminAction}
    (hu : Underway (s.spawn id') id action) : Underway s id action := by
  rcases hu with hdone | ⟨q, hq, hid, hq'⟩
  · exact .inl hdone
  · rcases List.mem_append.mp hq with hq | hq
    · exact .inr ⟨q, hq, hid, hq'⟩
    · rw [List.mem_singleton.mp hq] at hq'
      rcases hq' with hq' | hq'
      · cases hq'
      · cases hq'

/-- Only reading a private file brings an action underway. -/
theorem Move.underway (h : Move user s a s') {id : Uuid} {action : AdminAction}
    (hu : Underway s' id action) : Underway s id action ∨ Signed user s id action := by
  cases h with
  | request _ | create _ _ _ | write _ _ | advance _ _ | tamper | forge => exact .inl hu
  | settle _ _ | clean _ _ =>
      left
      split at hu
      · exact hu
      · exact hu
  | elevate _ _ => exact .inl (Underway.of_spawn hu)
  | start => exact .inl hu.of_spawn
  | @read h p request found reads =>
      obtain ⟨hid, f, hf, hprivate, hbody⟩ := readMessage_ok reads
      rcases hu with hdone | ⟨q, hq, hqid, hq'⟩
      · exact .inl (.inl hdone)
      · rcases List.mem_or_eq_of_mem_set hq with hq | rfl
        · exact .inl (.inr ⟨q, hq, hqid, hq'⟩)
        · obtain rfl : p.id = id := hqid
          have haction : request.action = action := by
            rcases hq' with hq' | hq'
            · exact HelperStage.removing.inj hq'
            · cases hq'
          refine .inr ⟨f, hf, hprivate, ?_⟩
          rw [hbody, ← haction, ← hid]
  | @remove h p action' f found stage there =>
      left
      refine Underway.of_setHelper (s := s) found ?_ hu
      rintro _ (hq | hq)
      · cases hq
      · exact .inl (stage.trans (congrArg _ (HelperStage.dispatching.inj hq)))
  | @dispatch h p action' ok message found stage =>
      left
      rcases hu with ⟨e, he, hid, haction⟩ | ⟨q, hq, hqid, hq'⟩
      · rcases List.mem_append.mp he with he | he
        · exact .inl ⟨e, he, hid, haction⟩
        · rw [List.mem_singleton.mp he] at hid haction
          exact .inr ⟨p, List.mem_of_getElem? found, hid, .inr (stage.trans (congrArg _ haction))⟩
      · rcases List.mem_or_eq_of_mem_set hq with hq | rfl
        · exact .inr ⟨q, hq, hqid, hq'⟩
        · rcases hq' with hq' | hq'
          · cases hq'
          · cases hq'
  | answer found _ | fill found _ | chown found _ =>
      left
      refine Underway.of_setHelper (s := s) found ?_ hu
      rintro _ (hq | hq)
      · cases hq
      · cases hq
  | proceed found proceeds =>
      left
      refine Underway.of_setHelper (s := s) found ?_ hu
      rintro _ (hq | hq)
      · rcases proceeds with rfl | ⟨ok, rfl⟩
        · cases hq
        · cases hq
      · rcases proceeds with rfl | ⟨ok, rfl⟩
        · cases hq
        · cases hq

/-- The helper acts for the user.  Whatever was done to the files, every action
it has done was asked for, at some moment of the run, by a regular file of the
user with mode 0600, under the identifier that is in the file. -/
theorem every_execution_signed {as : List Act} (h : (machine user).run new as = some s)
    {e : Execution} (he : e ∈ s.executed) :
    ∃ before after mid, as = before ++ after ∧ (machine user).run new before = some mid ∧
      Signed user mid e.id e.action := by
  refine (Machine.Reach.run_traced (P := fun s => Underway s e.id e.action)
    (fun s a s' _ hs => (step_move hs).underway) .init h (.inl ⟨e, he, rfl, rfl⟩)).resolve_left ?_
  rintro (⟨e, he, -⟩ | ⟨p, hp, -⟩)
  · exact List.not_mem_nil he
  · exact List.not_mem_nil hp

/-- The request is replaced twice.  A file of somebody else is refused.  A file of
the user is obeyed, and it is not what the call has asked for. -/
def replaced : List Act :=
  [.request 7 .restart, .call 7 (.create none), .call 7 (.write none), .call 7 (.sync none),
    .tamper 7 (some ⟨.regular, 0o600, 1001, .ok ⟨7, .uninstall⟩⟩), .start 7, .helper 0 .read,
    .tamper 7 (some ⟨.regular, 0o600, 1000, .ok ⟨7, .stop⟩⟩), .call 7 (.elevate none),
    .helper 1 .read, .helper 1 (.remove none), .helper 1 (.dispatch true "stopped".toList)]

theorem replaced_runs :
    ∃ s, (machine 1000).run new replaced = some s ∧ s.helpers.head? = some ⟨7, .exited false⟩ ∧
      s.executed = [⟨7, .stop, true, "stopped".toList⟩] := by
  have hrun : ((machine 1000).run new replaced).map (fun s => (s.helpers.head?, s.executed)) =
      some (some ⟨7, .exited false⟩, [⟨7, .stop, true, "stopped".toList⟩]) := by
    decide +kernel
  obtain ⟨s, hs, hseen⟩ := Option.map_eq_some_iff.mp hrun
  exact ⟨s, hs, Prod.mk.inj hseen⟩

theorem every_execution_signed_sample :
    ∃ s, (machine 1000).run new replaced = some s ∧
      s.helpers.head? = some ⟨7, .exited false⟩ ∧
      s.executed = [⟨7, .stop, true, "stopped".toList⟩] ∧
      ∃ before after mid, replaced = before ++ after ∧
        (machine 1000).run new before = some mid ∧ Signed 1000 mid 7 .stop := by
  obtain ⟨s, hs, hrefused, hexecuted⟩ := replaced_runs
  have he : ⟨7, .stop, true, "stopped".toList⟩ ∈ s.executed :=
    hexecuted ▸ List.mem_singleton_self _
  exact ⟨s, hs, hrefused, hexecuted, every_execution_signed hs he⟩

/-! ## At most once -/

def Act.honest : Act → Bool
  | .tamper _ _ | .forge _ _ => false
  | .request _ _ | .call _ _ | .start _ | .helper _ _ => true

/-- The tokens of a request: the file, the helper that has taken it, and the
executions. -/
def tokens (s : Mailbox) (id : Uuid) : Nat :=
  (s.requests id).toList.length + (s.helpers.map (Helper.token id)).sum +
    s.executed.countP (fun e => e.id = id)

theorem tokens_setCall (s : Mailbox) (id : Uuid) (call : AdminCall) (id' : Uuid) :
    (s.setCall id call).tokens id' = s.tokens id' := rfl

theorem tokens_spawn (s : Mailbox) (id id' : Uuid) : (s.spawn id).tokens id' = s.tokens id' := by
  simp only [tokens, spawn, List.map_append, List.map_singleton, List.sum_append,
    List.sum_singleton, Helper.token, Nat.add_zero]

theorem tokens_setRequest (s : Mailbox) (id : Uuid) (file : Option (MessageFile AdminRequest))
    (id' : Uuid) :
    (s.setRequest id file).tokens id' + (if id' = id then (s.requests id).toList.length else 0) =
      s.tokens id' + (if id' = id then file.toList.length else 0) := by
  simp only [tokens, setRequest, Function.update_apply]
  by_cases hid : id' = id
  · subst hid
    simp only [if_true]
    omega
  · simp only [if_neg hid]

theorem tokens_setHelper {h : Nat} {p : Helper} (found : s.helpers[h]? = some p)
    (stage : HelperStage) (id : Uuid) :
    (s.setHelper h p.id stage).tokens id + p.token id =
      s.tokens id + Helper.token id ⟨p.id, stage⟩ := by
  have hsum := sum_map_set (f := Helper.token id) found ⟨p.id, stage⟩
  simp only [tokens, setHelper]
  omega

/-- A helper that does not take a request has no new token. -/
theorem tokens_setHelper_le {h : Nat} {p : Helper} (found : s.helpers[h]? = some p)
    {stage : HelperStage} (hstage : ∀ action, stage ≠ .dispatching action) (id : Uuid) :
    (s.setHelper h p.id stage).tokens id ≤ s.tokens id := by
  have hset := tokens_setHelper found stage id
  have hnone : Helper.token id ⟨p.id, stage⟩ = 0 := by
    cases stage with
    | dispatching action => exact absurd rfl (hstage action)
    | reading | removing | responding | writing | syncing | chowning | settling | exited => rfl
  omega

/-- The request has not been created. -/
def Unborn (s : Mailbox) (id : Uuid) : Prop := ∀ c, s.calls id = some c → c.stage = .creating

theorem Unborn.of_setCall {id id' : Uuid} {call : AdminCall} (hcall : call.stage ≠ .creating)
    (h : Unborn (s.setCall id' call) id) : id ≠ id' ∧ Unborn s id := by
  have hne : id ≠ id' := by
    rintro rfl
    exact hcall (h call (s.setCall_self id call))
  exact ⟨hne, fun c hc => h c ((s.setCall_ne hne call).trans hc)⟩

theorem Advance.stage_ne {id : Uuid} {stage stage' : CallStage}
    (h : Advance user s id stage stage') : stage' ≠ .creating := by
  intro hstage
  subst hstage
  cases h

/-- What was not created after a step was not created before it. -/
theorem Move.unborn (h : Move user s a s') {id : Uuid} (hu : Unborn s' id) : Unborn s id := by
  cases h with
  | @request id' action fresh =>
      intro c hc
      by_cases hid : id = id'
      · subst hid
        rw [fresh] at hc
        cases hc
      · exact hu c ((s.setCall_ne hid _).trans hc)
  | create _ _ _ | write _ _ | elevate _ _ =>
      exact (hu.of_setCall (fun hq => by cases hq)).2
  | advance _ advances => exact (hu.of_setCall advances.stage_ne).2
  | settle _ _ | clean _ _ =>
      have hbefore := (hu.of_setCall (fun hq => by cases hq)).2
      split at hbefore
      · exact hbefore
      · exact hbefore
  | start | read _ _ | remove _ _ _ | dispatch _ _ | answer _ _ | fill _ _ | chown _ _
  | proceed _ _ | tamper | forge => exact hu

/-- Only creating the request makes a token. -/
theorem Move.tokens_le (h : Move user s a s') (ha : a.honest = true) (id : Uuid) :
    s'.tokens id ≤ s.tokens id ∨
      Unborn s id ∧ ¬ Unborn s' id ∧ s'.tokens id = s.tokens id + 1 := by
  cases h with
  | request _ => exact .inl (Nat.le_refl _)
  | @create id' c found stage free =>
      have hset := tokens_setRequest s id' (some ⟨.regular, 0o600, user, .error cutOff⟩) id
      rw [tokens_setCall]
      by_cases hid : id = id'
      · subst hid
        refine .inr ⟨?_, fun hu => (hu.of_setCall (fun hq => by cases hq)).1 rfl, ?_⟩
        · intro c' hc'
          rw [found] at hc'
          obtain rfl := Option.some.inj hc'
          exact stage
        · simp only [if_true, free, Option.toList_none, List.length_nil, Option.toList_some,
            List.length_singleton] at hset
          omega
      · simp only [if_neg hid] at hset
        exact .inl (by omega)
  | @write id' c found stage =>
      left
      have hset := tokens_setRequest s id'
        ((s.requests id').map fun f => { f with body := .ok ⟨id', c.action⟩ }) id
      rw [tokens_setCall]
      rw [Option.toList_map, List.length_map] at hset
      exact Nat.le_of_eq (Nat.add_right_cancel hset)
  | advance _ _ => exact .inl (Nat.le_refl _)
  | elevate _ _ =>
      left
      rw [tokens_setCall, tokens_spawn]
  | @settle id' c response done found stage =>
      left
      rw [tokens_setCall]
      split
      · exact Nat.le_refl _
      · exact Nat.le_refl _
  | @clean id' c e done found stage =>
      left
      rw [tokens_setCall]
      split
      · have hset := tokens_setRequest s id' none id
        rw [Option.toList_none, List.length_nil, ite_self] at hset
        omega
      · exact Nat.le_refl _
  | start =>
      left
      rw [tokens_spawn]
  | read found reads =>
      left
      exact tokens_setHelper_le found (fun action hq => by cases hq) id
  | @remove h p action f found stage there =>
      left
      have hset := tokens_setRequest s p.id none id
      have hhelper := tokens_setHelper (s := s.setRequest p.id none) found (.dispatching action) id
      have hbefore : p.token id = 0 := by
        rw [Helper.token, stage]
      simp only [there, Option.toList_some, List.length_singleton, Option.toList_none,
        List.length_nil, ite_self] at hset
      rw [hbefore, Helper.token] at hhelper
      by_cases hid : id = p.id
      · simp only [hid, if_true] at hset hhelper ⊢
        omega
      · simp only [if_neg hid, if_neg (Ne.symm hid)] at hset hhelper
        omega
  | @dispatch h p action ok message found stage =>
      left
      have hhelper := tokens_setHelper (s := s.execute ⟨p.id, action, ok, message⟩) found
        (.responding ⟨p.id, ok, message⟩) id
      have hexecute : (s.execute ⟨p.id, action, ok, message⟩).tokens id =
          s.tokens id + (if p.id = id then 1 else 0) := by
        simp only [tokens, execute, List.countP_append, List.countP_singleton, decide_eq_true_eq]
        omega
      have hbefore : p.token id = if p.id = id then 1 else 0 := by
        rw [Helper.token, stage]
      rw [hbefore, hexecute] at hhelper
      simp only [Helper.token] at hhelper
      omega
  | answer found _ | fill found _ | chown found _ =>
      left
      exact tokens_setHelper_le (s := s.setResponse _ _) found (fun action hq => by cases hq) id
  | proceed found proceeds =>
      left
      refine tokens_setHelper_le found (fun action hq => ?_) id
      rcases proceeds with rfl | ⟨ok, rfl⟩
      · cases hq
      · cases hq
  | tamper => cases ha
  | forge => cases ha

/-- A request has one token at most, and none before it is created. -/
structure Once (s : Mailbox) : Prop where
  tokens_le_one : ∀ id, s.tokens id ≤ 1
  unborn : ∀ id, Unborn s id → s.tokens id = 0

theorem Move.once (h : Move user s a s') (ha : a.honest = true) (ho : Once s) : Once s' where
  tokens_le_one id := by
    rcases h.tokens_le ha id with hle | ⟨hu, -, hone⟩
    · exact Nat.le_trans hle (ho.tokens_le_one id)
    · rw [hone, ho.unborn id hu]
  unborn id hu' := by
    have hzero := ho.unborn id (h.unborn hu')
    rcases h.tokens_le ha id with hle | ⟨-, hborn, -⟩
    · omega
    · exact absurd hu' hborn

/-- The states of a mailbox whose files are left alone. -/
abbrev Safe (user : Nat) : Mailbox → Prop :=
  (machine user).ReachBy fun _ a => a.honest = true

theorem Safe.once (h : Safe user s) : Once s := by
  refine Machine.ReachBy.invariant (P := Once) ?_ ?_ h
  · exact ⟨fun id => Nat.zero_le 1, fun id _ => rfl⟩
  · intro s a s' ho ha hs
    exact (step_move hs).once ha ho

/-! ## The right response -/

/-- The response came of an execution. -/
def Came (s : Mailbox) (id : Uuid) (r : AdminResponse) : Prop :=
  ∃ e ∈ s.executed, e.id = id ∧ e.response = r

/-- There is a call for the action. -/
def Asked (s : Mailbox) (id : Uuid) (action : AdminAction) : Prop :=
  ∃ c, s.calls id = some c ∧ c.action = action

/-- What a helper has in hand was asked for, or came of an execution. -/
def Backed (s : Mailbox) (p : Helper) : Prop :=
  match p.stage with
  | .removing action | .dispatching action => Asked s p.id action
  | .responding r | .writing r => Came s p.id r
  | .reading | .syncing | .chowning | .settling | .exited _ => True

/-- What a call knows of its response came of an execution. -/
def CallOk (s : Mailbox) (id : Uuid) : CallStage → Prop
  | .removing (.ok r) => Came s id r
  | .cleaning e => e.code ≠ "admin_failed".toList
  | .returned (.ok r) => Came s id r ∧ r.ok = true
  | .returned (.error e) => e.code = "admin_failed".toList → Came s id ⟨id, false, e.message⟩
  | .creating | .writing | .syncing | .elevating | .waiting _ | .reading | .removing (.error _)
  | .gone => True

/-- What holds while the files are left alone. -/
structure Inv (s : Mailbox) : Prop where
  requests : ∀ id f, s.requests id = some f → ∀ r, f.body = .ok r →
    r.id = id ∧ Asked s id r.action
  responses : ∀ id f, s.responses id = some f → ∀ r, f.body = .ok r → Came s id r
  helpers : ∀ p ∈ s.helpers, Backed s p
  executed : ∀ e ∈ s.executed, Asked s e.id e.action
  calls : ∀ id c, s.calls id = some c → CallOk s id c.stage

/-- Calls and executions are not forgotten. -/
structure Grows (s s' : Mailbox) : Prop where
  asked : ∀ id action, Asked s id action → Asked s' id action
  executed : s.executed ⊆ s'.executed

theorem Grows.came (h : Grows s s') {id : Uuid} {r : AdminResponse} (hr : Came s id r) :
    Came s' id r := by
  obtain ⟨e, he, hid⟩ := hr
  exact ⟨e, h.executed he, hid⟩

theorem Grows.backed (h : Grows s s') {p : Helper} (hp : Backed s p) : Backed s' p := by
  unfold Backed at hp ⊢
  cases hstage : p.stage with
  | removing action | dispatching action =>
      rw [hstage] at hp
      exact h.asked _ _ hp
  | responding r | writing r =>
      rw [hstage] at hp
      exact h.came hp
  | reading | syncing | chowning | settling | exited => trivial

theorem Grows.callOk (h : Grows s s') {id : Uuid} {stage : CallStage} (hc : CallOk s id stage) :
    CallOk s' id stage := by
  cases stage with
  | removing response =>
      cases response with
      | ok r => exact h.came hc
      | error e => trivial
  | returned result =>
      cases result with
      | ok r => exact ⟨h.came hc.1, hc.2⟩
      | error e => exact fun hcode => h.came (hc hcode)
  | cleaning e => exact hc
  | creating | writing | syncing | elevating | waiting | reading | gone => trivial

theorem grows_setCall {id : Uuid} {c : AdminCall} (found : s.calls id = some c)
    (stage : CallStage) : Grows s (s.setCall id ⟨c.action, stage⟩) := by
  refine ⟨?_, fun _ h => h⟩
  rintro id' action ⟨c', hc', haction⟩
  by_cases hid : id' = id
  · subst hid
    rw [found] at hc'
    obtain rfl := Option.some.inj hc'
    exact ⟨_, s.setCall_self id' _, haction⟩
  · exact ⟨c', (s.setCall_ne hid _).trans hc', haction⟩

/-- The invariant goes over to a state with the same files and helpers. -/
theorem Inv.grow (hi : Inv s) (h : Grows s s') (hrequests : s'.requests = s.requests)
    (hresponses : s'.responses = s.responses) (hhelpers : s'.helpers = s.helpers)
    (hexecuted : ∀ e ∈ s'.executed, e ∉ s.executed → Asked s' e.id e.action)
    (hcalls : ∀ id c, s'.calls id = some c → s.calls id = some c ∨ CallOk s' id c.stage) :
    Inv s' where
  requests id f hf r hr := by
    rw [hrequests] at hf
    obtain ⟨hid, hasked⟩ := hi.requests id f hf r hr
    exact ⟨hid, h.asked _ _ hasked⟩
  responses id f hf r hr := by
    rw [hresponses] at hf
    exact h.came (hi.responses id f hf r hr)
  helpers p hp := by
    rw [hhelpers] at hp
    exact h.backed (hi.helpers p hp)
  executed e he := by
    by_cases hold : e ∈ s.executed
    · exact h.asked _ _ (hi.executed e hold)
    · exact hexecuted e he hold
  calls id c hc := by
    rcases hcalls id c hc with hold | hok
    · exact h.callOk (hi.calls id c hold)
    · exact hok

theorem Inv.setCall (hi : Inv s) {id : Uuid} {c : AdminCall} (found : s.calls id = some c)
    {stage : CallStage} (hok : CallOk s id stage) : Inv (s.setCall id ⟨c.action, stage⟩) := by
  refine hi.grow (grows_setCall found stage) rfl rfl rfl (fun e he hnew => absurd he hnew) ?_
  intro id' c' hc'
  by_cases hid : id' = id
  · subst hid
    rw [setCall_self] at hc'
    obtain rfl := Option.some.inj hc'
    exact .inr hok
  · exact .inl ((s.setCall_ne hid _).symm.trans hc')

theorem Inv.request (hi : Inv s) {id : Uuid} (fresh : s.calls id = none) (action : AdminAction) :
    Inv (s.setCall id ⟨action, .creating⟩) := by
  refine hi.grow ⟨?_, fun _ h => h⟩ rfl rfl rfl (fun e he hnew => absurd he hnew) ?_
  · rintro id' action' ⟨c, hc, haction⟩
    refine ⟨c, (s.setCall_ne ?_ _).trans hc, haction⟩
    rintro rfl
    rw [fresh] at hc
    cases hc
  · intro id' c' hc'
    by_cases hid : id' = id
    · subst hid
      rw [setCall_self] at hc'
      obtain rfl := Option.some.inj hc'
      exact .inr trivial
    · exact .inl ((s.setCall_ne hid _).symm.trans hc')

theorem Inv.execute (hi : Inv s) {e : Execution} (hasked : Asked s e.id e.action) :
    Inv (s.execute e) := by
  refine hi.grow ⟨fun _ _ h => h, List.subset_append_left _ _⟩ rfl rfl rfl ?_
    (fun id c hc => .inl hc)
  intro e' he' hnew
  rcases List.mem_append.mp he' with hold | hlast
  · exact absurd hold hnew
  · rw [List.mem_singleton.mp hlast]
    exact hasked

theorem Inv.setRequest (hi : Inv s) (id : Uuid) {file : Option (MessageFile AdminRequest)}
    (hfile : ∀ f, file = some f → ∀ r, f.body = .ok r → r.id = id ∧ Asked s id r.action) :
    Inv (s.setRequest id file) := by
  refine { hi with requests := ?_ }
  intro id' f hf
  by_cases hid : id' = id
  · subst hid
    exact hfile f ((s.setRequest_self id' file).symm.trans hf)
  · exact hi.requests id' f ((s.setRequest_ne hid file).symm.trans hf)

theorem Inv.setResponse (hi : Inv s) (id : Uuid) {file : Option (MessageFile AdminResponse)}
    (hfile : ∀ f, file = some f → ∀ r, f.body = .ok r → Came s id r) :
    Inv (s.setResponse id file) := by
  refine { hi with responses := ?_ }
  intro id' f hf
  by_cases hid : id' = id
  · subst hid
    exact hfile f ((s.setResponse_self id' file).symm.trans hf)
  · exact hi.responses id' f ((s.setResponse_ne hid file).symm.trans hf)

theorem Inv.setHelper (hi : Inv s) (h : Nat) {id : Uuid} {stage : HelperStage}
    (hbacked : Backed s ⟨id, stage⟩) : Inv (s.setHelper h id stage) := by
  refine { hi with helpers := ?_ }
  intro p hp
  rcases List.mem_or_eq_of_mem_set hp with hp | rfl
  · exact hi.helpers p hp
  · exact hbacked

theorem Inv.spawn (hi : Inv s) (id : Uuid) : Inv (s.spawn id) := by
  refine { hi with helpers := ?_ }
  intro p hp
  rcases List.mem_append.mp hp with hp | hp
  · exact hi.helpers p hp
  · rw [List.mem_singleton.mp hp]
    trivial

/-- What a call returns follows from what it has read. -/
theorem callResult_ok {id : Uuid} {response : Except AdminError AdminResponse}
    (hok : CallOk s id (.removing response)) : CallOk s id (.returned (callResult response)) := by
  cases response with
  | error e =>
      exact fun hcode => absurd hcode
        (by decide : "admin_error".toList ≠ "admin_failed".toList)
  | ok r =>
      rw [callResult]
      split
      · next hr => exact ⟨hok, hr⟩
      · next hr =>
          intro _
          obtain ⟨e, he, heid, hresponse⟩ := hok
          refine ⟨e, he, heid, hresponse.trans ?_⟩
          obtain rfl : r.id = id := by rw [← hresponse, ← heid, Execution.response]
          rw [← Bool.eq_false_iff.mpr hr]
          rfl

theorem Advance.callOk (hi : Inv s) {id : Uuid} {stage stage' : CallStage}
    (h : Advance user s id stage stage') : CallOk s id stage' := by
  cases h with
  | failed e =>
      exact fun hcode => absurd hcode
        (by decide : "admin_error".toList ≠ "admin_failed".toList)
  | abandoned other => exact other
  | heard =>
      cases hread : readResponse user id (s.responses id) with
      | error e => trivial
      | ok r =>
          obtain ⟨-, f, hf, -, hbody⟩ := readMessage_ok hread
          exact hi.responses id f hf r hbody
  | synced | woken | quit => trivial

theorem Backed.of_found (hi : Inv s) {h : Nat} {p : Helper} (found : s.helpers[h]? = some p)
    {stage : HelperStage} (hstage : p.stage = stage) : Backed s ⟨p.id, stage⟩ := by
  have hp := hi.helpers p (List.mem_of_getElem? found)
  obtain ⟨id, stage'⟩ := p
  obtain rfl := hstage
  exact hp

/-- The invariant is kept while the files are left alone. -/
theorem Move.inv (h : Move user s a s') (ha : a.honest = true) (hi : Inv s) : Inv s' := by
  cases h with
  | request fresh => exact hi.request fresh _
  | @create id c found stage free =>
      refine Inv.setCall (s := s.setRequest id _) (hi.setRequest id ?_) found trivial
      rintro f hf r hr
      obtain rfl := Option.some.inj hf
      cases hr
  | @write id c found stage =>
      refine Inv.setCall (s := s.setRequest id _) (hi.setRequest id ?_) found trivial
      rintro f hf r hr
      obtain ⟨f0, -, rfl⟩ := Option.map_eq_some_iff.mp hf
      cases hr
      exact ⟨rfl, c, found, rfl⟩
  | advance found advances => exact hi.setCall found (advances.callOk hi)
  | @elevate id c found stage => exact (hi.spawn id).setCall found trivial
  | @settle id c response done found stage =>
      have hok : CallOk s id (.returned (callResult response)) :=
        callResult_ok (stage ▸ hi.calls id c found)
      cases done with
      | false => exact hi.setCall found hok
      | true =>
          exact Inv.setCall (s := s.setResponse id none)
            (hi.setResponse id fun f hf => by cases hf) found hok
  | @clean id c e done found stage =>
      have hcode : CallOk s id (.cleaning e) := stage ▸ hi.calls id c found
      have hok : CallOk s id (.returned (.error e)) := fun hfailed => absurd hfailed hcode
      cases done with
      | false => exact hi.setCall found hok
      | true =>
          exact Inv.setCall (s := s.setRequest id none)
            (hi.setRequest id fun f hf => by cases hf) found hok
  | start => exact hi.spawn _
  | @read h p request found reads =>
      obtain ⟨hid, f, hf, -, hbody⟩ := readMessage_ok reads
      exact hi.setHelper h (hi.requests p.id f hf request hbody).2
  | @remove h p action f found stage there =>
      have hasked : Backed s ⟨p.id, .removing action⟩ := .of_found hi found stage
      exact Inv.setHelper (s := s.setRequest p.id none)
        (hi.setRequest p.id fun f hf => by cases hf) h hasked
  | @dispatch h p action ok message found stage =>
      have hasked : Backed s ⟨p.id, .dispatching action⟩ := .of_found hi found stage
      refine Inv.setHelper
        (hi.execute (e := ⟨p.id, action, ok, message⟩) hasked) h ?_
      exact ⟨⟨p.id, action, ok, message⟩, List.mem_append_right _ List.mem_cons_self, rfl, rfl⟩
  | @answer h p response found stage =>
      have hcame : Backed s ⟨p.id, .responding response⟩ := .of_found hi found stage
      refine Inv.setHelper (s := s.setResponse p.id _) (hi.setResponse p.id ?_) h hcame
      rintro f hf r hr
      obtain rfl := Option.some.inj hf
      cases hr
  | @fill h p response found stage =>
      have hcame : Backed s ⟨p.id, .writing response⟩ := .of_found hi found stage
      refine Inv.setHelper (s := s.setResponse p.id _) (hi.setResponse p.id ?_) h trivial
      rintro f hf r hr
      obtain ⟨f0, -, rfl⟩ := Option.map_eq_some_iff.mp hf
      cases hr
      exact hcame
  | @chown h p found stage =>
      refine Inv.setHelper (s := s.setResponse p.id _) (hi.setResponse p.id ?_) h trivial
      rintro f hf r hr
      obtain ⟨f0, hf0, rfl⟩ := Option.map_eq_some_iff.mp hf
      exact hi.responses p.id f0 hf0 r hr
  | @proceed h p a stage found proceeds =>
      refine hi.setHelper h ?_
      rcases proceeds with rfl | ⟨ok, rfl⟩
      · trivial
      · trivial
  | tamper => cases ha
  | forge => cases ha

theorem inv_new : Inv new where
  requests id f hf := by cases hf
  responses id f hf := by cases hf
  helpers p hp := absurd hp List.not_mem_nil
  executed e he := absurd he List.not_mem_nil
  calls id c hc := by cases hc

theorem Safe.inv (h : Safe user s) : Inv s := by
  refine Machine.ReachBy.invariant (P := Inv) ?_ ?_ h
  · exact inv_new
  · intro s a s' hi ha hs
    exact (step_move hs).inv ha hi

def done (s : Mailbox) (id : Uuid) : List Execution := s.executed.filter (fun e => e.id = id)

theorem Safe.done_length_le (h : Safe user s) (id : Uuid) : (s.done id).length ≤ 1 := by
  have hone := h.once.tokens_le_one id
  rw [done, ← List.countP_eq_length_filter]
  simp only [tokens] at hone
  omega

theorem Safe.done_eq (h : Safe user s) {e : Execution} (he : e ∈ s.executed) :
    s.done e.id = [e] := by
  have hmem : e ∈ s.done e.id := List.mem_filter.mpr ⟨he, decide_eq_true rfl⟩
  obtain ⟨x, hx⟩ := List.length_eq_one_iff.mp
    (Nat.le_antisymm (h.done_length_le e.id) (List.length_pos_of_mem hmem))
  rw [hx] at hmem ⊢
  rw [List.mem_singleton.mp hmem]

/-- A request is done at most once, however many helpers are started for it,
whatever fails and whoever is killed, and it is what a call has asked for. -/
theorem request_done_at_most_once (h : Safe user s) (id : Uuid) :
    s.done id = [] ∨ ∃ c ok message, s.calls id = some c ∧
      s.done id = [⟨id, c.action, ok, message⟩] := by
  cases hdone : s.done id with
  | nil => exact .inl rfl
  | cons e rest =>
      right
      have hmem : e ∈ s.done id := hdone ▸ List.mem_cons_self
      obtain ⟨he, hid⟩ := List.mem_filter.mp hmem
      obtain rfl : e.id = id := of_decide_eq_true hid
      obtain ⟨c, hc, haction⟩ := h.inv.executed e he
      refine ⟨c, e.ok, e.message, hc, ?_⟩
      rw [← hdone, h.done_eq he, haction]

/-- A call of the GUI, while a second helper is started by hand.  Both helpers
read the request, and one of them finds it gone. -/
def roundTrip : List Act :=
  [.request 7 .restart, .call 7 (.create none), .start 7, .call 7 (.write none),
    .helper 0 .read, .call 7 (.sync none), .call 7 (.elevate none), .helper 1 .read,
    .helper 1 (.remove none), .helper 0 (.remove none),
    .helper 1 (.dispatch true "restarted".toList), .helper 1 (.create none),
    .helper 1 (.write none), .helper 1 (.sync none), .helper 1 (.chown none),
    .helper 1 (.sync none), .call 7 .wait, .call 7 .read, .call 7 (.remove true)]

theorem roundTrip_runs :
    ∃ s, (machine 1000).run new roundTrip = some s ∧
      s.calls 7 = some ⟨.restart, .returned (.ok ⟨7, true, "restarted".toList⟩)⟩ ∧
      s.executed = [⟨7, .restart, true, "restarted".toList⟩] := by
  have hrun : ((machine 1000).run new roundTrip).map (fun s => (s.calls 7, s.executed)) =
      some (some ⟨.restart, .returned (.ok ⟨7, true, "restarted".toList⟩)⟩,
        [⟨7, .restart, true, "restarted".toList⟩]) := by
    decide +kernel
  obtain ⟨s, hs, hseen⟩ := Option.map_eq_some_iff.mp hrun
  exact ⟨s, hs, Prod.mk.inj hseen⟩

theorem roundTrip_safe : ∃ s, Safe 1000 s ∧
    s.calls 7 = some ⟨.restart, .returned (.ok ⟨7, true, "restarted".toList⟩)⟩ ∧
    s.executed = [⟨7, .restart, true, "restarted".toList⟩] := by
  obtain ⟨s, hs, hseen⟩ := roundTrip_runs
  have hhonest : ∀ a ∈ roundTrip, a.honest = true := by decide
  exact ⟨s, Machine.ReachBy.run .init (fun a ha _ => hhonest a ha) hs, hseen⟩

theorem request_done_at_most_once_sample :
    ∃ s, Safe 1000 s ∧ s.done 7 ≠ [] ∧
      (s.done 7 = [] ∨ ∃ c ok message, s.calls 7 = some c ∧
        s.done 7 = [⟨7, c.action, ok, message⟩]) := by
  obtain ⟨s, hs, -, hexecuted⟩ := roundTrip_safe
  refine ⟨s, hs, ?_, request_done_at_most_once hs 7⟩
  rw [done, hexecuted]
  decide

/-- What a call gives as the answer of the helper is what came of its own
request.  A response is that of an execution that went well, and the error
`admin_failed` that of an execution that did not. -/
theorem returned_response_genuine (h : Safe user s) {id : Uuid} {c : AdminCall}
    (hc : s.calls id = some c) :
    (∀ r, c.stage = .returned (.ok r) →
        r.id = id ∧ r.ok = true ∧ s.done id = [⟨id, c.action, true, r.message⟩]) ∧
      ∀ e, c.stage = .returned (.error e) → e.code = "admin_failed".toList →
        s.done id = [⟨id, c.action, false, e.message⟩] := by
  have hcame : ∀ r, Came s id r → r.id = id ∧ s.done id = [⟨id, c.action, r.ok, r.message⟩] := by
    rintro r ⟨e, he, rfl, rfl⟩
    obtain ⟨c', hc', haction⟩ := h.inv.executed e he
    rw [hc] at hc'
    obtain rfl := Option.some.inj hc'
    exact ⟨rfl, haction ▸ h.done_eq he⟩
  have hok := h.inv.calls id c hc
  constructor
  · intro r hr
    rw [hr] at hok
    obtain ⟨hid, hdone⟩ := hcame r hok.1
    exact ⟨hid, hok.2, hok.2 ▸ hdone⟩
  · intro e he hcode
    rw [he] at hok
    exact (hcame _ (hok hcode)).2

theorem returned_response_genuine_sample :
    ∃ s, Safe 1000 s ∧ s.done 7 = [⟨7, .restart, true, "restarted".toList⟩] := by
  obtain ⟨s, hs, hcall, -⟩ := roundTrip_safe
  exact ⟨s, hs, ((returned_response_genuine hs hcall).1 _ rfl).2.2⟩

/-- What is cancelled stays cancelled.  Once the request of a call is gone, no
helper has it and it has not been done, it is never done. -/
theorem cancelled_request_never_done (h : Safe user s) {id : Uuid} {c : AdminCall}
    (hc : s.calls id = some c) (hstage : c.stage ≠ .creating) (hfile : s.requests id = none)
    (hhelpers : ∀ p ∈ s.helpers, p.id = id → ∀ action, p.stage ≠ .dispatching action)
    (hdone : s.done id = []) {as : List Act} (has : ∀ a ∈ as, a.honest = true)
    (hrun : (machine user).run s as = some s') : s'.done id = [] := by
  have hzero : s.tokens id = 0 := by
    have hexecuted : s.executed.countP (fun e => e.id = id) = 0 := by
      rw [List.countP_eq_length_filter, ← done, hdone, List.length_nil]
    have htokens : (s.helpers.map (Helper.token id)).sum = 0 := by
      refine List.sum_eq_zero fun n hn => ?_
      obtain ⟨p, hp, rfl⟩ := List.mem_map.mp hn
      unfold Helper.token
      split
      · next action hp' =>
          exact if_neg fun hid => hhelpers p hp hid action hp'
      · rfl
    rw [tokens, hfile, htokens, hexecuted, Option.toList_none, List.length_nil]
  have hborn : ¬ Unborn s id := fun hu => hstage (hu c hc)
  have hstep : ∀ s a s', Safe user s → (¬ Unborn s id ∧ s.tokens id = 0) →
      (machine user).step s a = some s' →
      (¬ Unborn s' id ∧ s'.tokens id = 0) ∨ a.honest = false := by
    rintro s a s' - ⟨hborn, hzero⟩ hs
    cases ha : a.honest with
    | false => exact .inr rfl
    | true =>
        left
        have hmove := step_move hs
        refine ⟨fun hu => hborn (hmove.unborn hu), ?_⟩
        rcases hmove.tokens_le ha id with hle | ⟨hu, -⟩
        · omega
        · exact absurd hu hborn
  rcases Machine.RunBy.unless hstep (Machine.runBy_of_run (fun a ha _ => has a ha) hrun) h
    ⟨hborn, hzero⟩ with ⟨-, hzero'⟩ | ⟨a, ha, hdishonest⟩
  · rw [tokens] at hzero'
    rw [done, ← List.length_eq_zero_iff, ← List.countP_eq_length_filter]
    omega
  · rw [has a ha] at hdishonest
    cases hdishonest

def cancelling : List Act :=
  [.request 7 .restart, .call 7 (.create none), .call 7 (.write none), .call 7 (.sync none),
    .call 7 (.elevate none), .helper 0 .kill, .call 7 .wait, .call 7 (.remove true)]

theorem cancelling_honest : ∀ a ∈ cancelling, a.honest = true := by
  decide

/-- A helper that is started later for the request finds nothing. -/
theorem cancelled_request_never_done_sample :
    ∃ s s', Safe 1000 s ∧ (machine 1000).run s [.start 7, .helper 1 .read] = some s' ∧
      s'.done 7 = [] := by
  have hrun : ((machine 1000).run new cancelling).bind (fun s =>
      ((machine 1000).run s [.start 7, .helper 1 .read]).map fun _ =>
        (s.calls 7, s.requests 7, s.helpers, s.done 7)) =
      some (some ⟨.restart, .returned (.error elevationCancelled)⟩, none,
        [⟨7, .exited false⟩], []) := by
    decide +kernel
  obtain ⟨s, hs, hlater⟩ := Option.bind_eq_some_iff.mp hrun
  obtain ⟨s', hs', hseen⟩ := Option.map_eq_some_iff.mp hlater
  simp only [Prod.mk.injEq] at hseen
  obtain ⟨hcalls, hrequests, hhelpers, hdone⟩ := hseen
  have hsafe : Safe 1000 s := Machine.ReachBy.run .init (fun a ha _ => cancelling_honest a ha) hs
  refine ⟨s, s', hsafe, hs', ?_⟩
  refine cancelled_request_never_done hsafe hcalls (fun hq => by cases hq) hrequests ?_ hdone
    (by decide : ∀ a ∈ [Act.start 7, .helper 1 .read], a.honest = true) hs'
  rw [hhelpers]
  intro p hp _ action hq
  rw [List.mem_singleton.mp hp] at hq
  cases hq

end Mailbox

end DnsRelay.Admin
