import DnsRelay.Relay.Admission

/-!
# What the server does with every datagram

Over a run of any length, with any clients, clock, rules and handler, every
datagram received is in exactly one place.  It is in a batch, in the backlog,
with the worker, in a task, or dropped for a reason that held at the time.

Permits are neither made nor lost, so the number of datagrams the server holds
is bounded.  The backlog is served in order.  Once nothing arrives any more, the
server comes to rest after a bounded number of steps with nothing left in hand.
-/

namespace DnsRelay

open Lib

def Arrival.origin (d : Arrival) : Listener × SocketAddr := (d.listener, d.srcAddr)

def Sent.origin (r : Sent) : Listener × SocketAddr := (r.listener, r.destAddr)

namespace Admission

variable {Key : Type} {A : ChaCha20Poly1305 Key} {keys : List Key} {metrics : Bool}
  {ruleTrie : DomainTrie} {s s' : Admission Key} {a : Act}

def samplePeer : SocketAddr := .v4 ⟨192, 0, 2, 1⟩ 5353

def sampleMachine : Machine (Admission Bool) Act := machine markedCipher [true] true .new

/-- A plain query is answered, and an obfuscated one is no query. -/
def sampleActs : List Act :=
  [.receive .plain [([0], samplePeer)], .dispatch .plain, .receive .obfs [([], samplePeer)],
    .dispatch .obfs, .finish 0 (some [1]) shortDraw]

theorem sample_runs : ∃ s, sampleMachine.run (new true .new) sampleActs = some s ∧
    s.sent = [⟨.plain, samplePeer, [1]⟩] ∧
      s.dropped = [(⟨.obfs, [], samplePeer⟩, .undecodable)] :=
  ⟨_, rfl, rfl, rfl⟩

def sampleQuery : List Act := [.receive .plain [([0], samplePeer)], .dispatch .plain]

/-- All permits are in use when two more queries come in, and the worker waits with
the first of them. -/
def sampleBusy : List Act :=
  (List.replicate 512 sampleQuery).flatten ++
    [.receive .plain [([1], samplePeer), ([2], samplePeer)], .dispatch .plain, .tick 5,
      .dispatch .plain, .dequeue]

def sampleServed : List Act :=
  [.finish 0 none shortDraw, .launch, .dequeue, .finish 7 none shortDraw, .launch]

def sampleLoad (free running : Nat) : Admission Bool :=
  { (new true .new : Admission Bool) with
    resolveSem := .new free
    tasks := List.replicate running ⟨⟨.plain, [0], samplePeer⟩, none, [0], .new, none, true⟩
    totalReq := some (UInt64.ofNat running) }

theorem sampleLoad_query (free running : Nat) :
    sampleMachine.run (sampleLoad (free + 1) running) sampleQuery =
      some (sampleLoad free (running + 1)) := by
  have hbatch : (fun _ => []) = Function.update (Function.update (fun _ => []) Listener.plain
      (arrivals .plain [([0], samplePeer)])) .plain [] := by
    rw [Function.update_idem, Function.update_eq_self]
  rw [sampleLoad.eq_def free, List.replicate_succ', UInt64.ofNat_add, new, hbatch]
  rfl

theorem sampleLoad_queries (free running n : Nat) :
    sampleMachine.run (sampleLoad (free + n) running) (List.replicate n sampleQuery).flatten =
      some (sampleLoad free (running + n)) := by
  induction n generalizing running with
  | zero => rfl
  | succ n ih =>
      rw [List.replicate_succ, List.flatten_cons, Machine.run_append]
      refine Option.bind_eq_some_iff.mpr ⟨_, sampleLoad_query (free + n) running, ?_⟩
      rw [ih, Nat.add_right_comm, Nat.add_assoc]

theorem sample_busy : ∃ s s', sampleMachine.run (new true .new) sampleBusy = some s ∧
    s.resolveSem.waiting = [⟨⟨.plain, [1], samplePeer⟩, 0⟩] ∧
    sampleMachine.run s sampleServed = some s' ∧
    s'.tasks.filterMap QueryTask.backlogged =
      [⟨⟨.plain, [1], samplePeer⟩, 0⟩, ⟨⟨.plain, [2], samplePeer⟩, 5⟩] := by
  have hrun : ((sampleMachine.run (new true .new) sampleBusy).bind fun s =>
      (sampleMachine.run s sampleServed).map fun s' =>
        (s.resolveSem.waiting, s'.tasks.filterMap QueryTask.backlogged)) =
      some ([⟨⟨.plain, [1], samplePeer⟩, 0⟩],
        [⟨⟨.plain, [1], samplePeer⟩, 0⟩, ⟨⟨.plain, [2], samplePeer⟩, 5⟩]) := by
    have hload : sampleMachine.run (new true .new) (List.replicate 512 sampleQuery).flatten =
        some (sampleLoad 0 512) := sampleLoad_queries 0 0 512
    rw [sampleBusy, Machine.run_append, hload]
    decide +kernel
  obtain ⟨s, hs, hserved⟩ := Option.bind_eq_some_iff.mp hrun
  obtain ⟨s', hs', heq⟩ := Option.map_eq_some_iff.mp hserved
  exact ⟨s, s', hs, (Prod.mk.inj heq).1, hs', (Prod.mk.inj heq).2⟩

/-! ## Accounts -/

def receivedBy (as : List Act) : List Arrival := as.flatMap Act.received

theorem receivedBy_cons (a : Act) (as : List Act) :
    receivedBy (a :: as) = a.received ++ receivedBy as :=
  List.flatMap_cons

theorem run_whereabouts {as : List Act}
    (h : (machine A keys metrics ruleTrie).run s as = some s') :
    s'.whereabouts = s.whereabouts + receivedBy as := by
  induction as generalizing s with
  | nil =>
      cases h
      exact (add_zero _).symm
  | cons a as ih =>
      obtain ⟨s1, hs, hr⟩ := Option.bind_eq_some_iff.mp h
      have hone := (step_move hs).whereabouts_eq
      rw [ih hr, hone, receivedBy_cons, ← Multiset.coe_add, add_assoc]

theorem Move.totalReq_eq (h : Move A keys s a s') :
    s'.totalReq = s.totalReq.map (· + UInt64.ofNat a.received.length) := by
  have hsame : s.totalReq = s.totalReq.map (· + UInt64.ofNat 0) := by
    cases s.totalReq with
    | none => rfl
    | some n => exact congrArg some (UInt64.add_zero n).symm
  cases h with
  | receive idle size => rw [Act.received, arrivals, List.length_map]
  | tick | reload | start _ _ _ | queue _ _ | refuse _ _ | expire _ _ _ | hold _ _ | launch _
  | finish _ _ => exact hsame

theorem run_totalReq {as : List Act} {n : UInt64}
    (h : (machine A keys metrics ruleTrie).run s as = some s') (hn : s.totalReq = some n) :
    s'.totalReq = some (n + UInt64.ofNat (receivedBy as).length) := by
  induction as generalizing s n with
  | nil =>
      cases h
      rw [hn]
      exact congrArg some (UInt64.add_zero n).symm
  | cons a as ih =>
      obtain ⟨s1, hs, hr⟩ := Option.bind_eq_some_iff.mp h
      have hone := (step_move hs).totalReq_eq
      rw [hn, Option.map_some] at hone
      rw [ih hr hone, receivedBy_cons, List.length_append, UInt64.ofNat_add, UInt64.add_assoc]

theorem run_new_whereabouts {as : List Act}
    (h : (machine A keys metrics ruleTrie).run (new metrics ruleTrie) as = some s) :
    s.whereabouts = receivedBy as := by
  rw [run_whereabouts h]
  exact zero_add _

/-- Every datagram received is in exactly one place, and the counter of
requests has counted it. -/
theorem every_arrival_accounted {as : List Act}
    (h : (machine A keys metrics ruleTrie).run (new metrics ruleTrie) as = some s) :
    s.whereabouts = receivedBy as ∧
      (metrics = true → s.totalReq = some (UInt64.ofNat (receivedBy as).length)) := by
  constructor
  · exact run_new_whereabouts h
  · rintro rfl
    rw [run_totalReq h rfl, UInt64.zero_add]

theorem every_arrival_accounted_sample :
    ∃ s, sampleMachine.run (new true .new) sampleActs = some s ∧
      s.whereabouts = ↑[⟨Listener.plain, [0], samplePeer⟩, (⟨.obfs, [], samplePeer⟩ : Arrival)] ∧
      s.totalReq = some 2 := by
  obtain ⟨s, hs, _⟩ := sample_runs
  have haccounted := every_arrival_accounted hs
  exact ⟨s, hs, haccounted.1, haccounted.2 rfl⟩

/-! ## Bounds and order -/

def held (s : Admission Key) : Nat :=
  (s.batch .plain).length + (s.batch .obfs).length + s.backlog.items.length +
    s.resolveSem.pending.length + s.running

theorem reach_permits (h : (machine A keys metrics ruleTrie).Reach s) :
    s.resolveSem.unused + s.running = resolveSemaphore := by
  refine Machine.ReachBy.invariant (P := fun s : Admission Key =>
    s.resolveSem.unused + s.running = resolveSemaphore) ?_ ?_ h
  · rfl
  · intro s a s' hs _ hstep
    rw [(step_move hstep).permits_eq, hs]

theorem reach_worker (h : (machine A keys metrics ruleTrie).Reach s) :
    s.resolveSem.pending.length ≤ 1 := by
  refine Machine.ReachBy.invariant (P := fun s : Admission Key =>
    s.resolveSem.pending.length ≤ 1) ?_ ?_ h
  · exact Nat.zero_le 1
  · exact fun s a s' hs _ hstep => (step_move hstep).worker hs

theorem reach_batches (h : (machine A keys metrics ruleTrie).Reach s) :
    ∀ l, (s.batch l).length ≤ l.batchMax := by
  refine Machine.ReachBy.invariant (P := fun s : Admission Key =>
    ∀ l, (s.batch l).length ≤ l.batchMax) ?_ ?_ h
  · exact fun l => Nat.zero_le l.batchMax
  · exact fun s a s' hs _ hstep => (step_move hstep).batches hs

/-- At most 512 queries are handled at a time and at most 1857 datagrams are
held.  The worker is kept waiting only while all permits are in use. -/
theorem admission_bounded (h : (machine A keys metrics ruleTrie).Reach s) :
    s.running ≤ 512 ∧ s.held ≤ 1857 ∧ (s.resolveSem.waiting ≠ [] → s.running = 512) := by
  have hpermits := reach_permits h
  have hworker := reach_worker h
  have hplain : (s.batch .plain).length ≤ 256 := reach_batches h .plain
  have hobfs : (s.batch .obfs).length ≤ 64 := reach_batches h .obfs
  have hbacklog : s.backlog.items.length ≤ 1024 := s.backlog.bounded
  rw [resolveSemaphore] at hpermits
  refine ⟨by omega, ?_, ?_⟩
  · rw [held]
    omega
  · intro hwaiting
    have hfree : s.resolveSem.free = 0 := s.resolveSem.fair.resolve_left hwaiting
    have hassigned : s.resolveSem.assigned.length = 0 := by
      have := List.length_pos_iff.mpr hwaiting
      rw [Semaphore.pending, List.length_append] at hworker
      omega
    rw [Semaphore.unused] at hpermits
    omega

theorem admission_bounded_sample : ∃ s, sampleMachine.run (new true .new) sampleBusy = some s ∧
    s.resolveSem.waiting.length = 1 ∧ s.held ≤ 1857 ∧ s.running = 512 := by
  obtain ⟨s, -, hs, hwaiting, -⟩ := sample_busy
  have hbounded := admission_bounded (Machine.reach_of_run hs)
  refine ⟨s, hs, ?_, hbounded.2.1, hbounded.2.2 ?_⟩
  · rw [hwaiting, List.length_singleton]
  · rw [hwaiting]
    exact List.cons_ne_nil _ _

/-- When each query of the backlog was queued. -/
theorem Move.queued_times (h : Move A keys s a s')
    (hs : s.queued.Pairwise (·.enqueuedAt ≤ ·.enqueuedAt) ∧ ∀ b ∈ s.queued, b.enqueuedAt ≤ s.now) :
    s'.queued.Pairwise (·.enqueuedAt ≤ ·.enqueuedAt) ∧ ∀ b ∈ s'.queued, b.enqueuedAt ≤ s'.now := by
  cases h with
  | reload | receive _ _ | start _ _ _ | refuse _ _ | expire _ _ _ | hold _ _ | launch _
  | finish _ _ => exact hs
  | tick => exact ⟨hs.1, fun b hb => Nat.le_trans (hs.2 b hb) (Nat.le_add_right _ _)⟩
  | queue next taken =>
      refine ⟨List.pairwise_append.mpr ⟨hs.1, List.pairwise_singleton _ _, ?_⟩, ?_⟩
      · intro b hb c hc
        rw [List.mem_singleton.mp hc]
        exact hs.2 b hb
      · intro b hb
        rcases List.mem_append.mp hb with hb | hb
        · exact hs.2 b hb
        · rw [List.mem_singleton.mp hb]

theorem reach_queued_times (h : (machine A keys metrics ruleTrie).Reach s) :
    s.queued.Pairwise (·.enqueuedAt ≤ ·.enqueuedAt) ∧
      ∀ b ∈ s.queued, b.enqueuedAt ≤ s.now := by
  refine Machine.ReachBy.invariant (P := fun s : Admission Key =>
    s.queued.Pairwise (·.enqueuedAt ≤ ·.enqueuedAt) ∧ ∀ b ∈ s.queued, b.enqueuedAt ≤ s.now) ?_ ?_ h
  · exact ⟨List.Pairwise.nil, fun b hb => absurd hb List.not_mem_nil⟩
  · exact fun s a s' hs _ hstep => (step_move hstep).queued_times hs

/-- The backlog is served first come first served.  The queries that have got a
task, the one with the worker and those in the backlog are, in this order, a
part of the queries that were queued, which are in order of time. -/
theorem backlog_in_order (h : (machine A keys metrics ruleTrie).Reach s) :
    (s.tasks.filterMap QueryTask.backlogged ++
        (s.resolveSem.pending ++ s.backlog.items)).Sublist s.queued ∧
      s.queued.Pairwise (·.enqueuedAt ≤ ·.enqueuedAt) := by
  constructor
  · refine Machine.ReachBy.invariant (P := fun s : Admission Key => s.served.Sublist s.queued)
      ?_ ?_ h
    · exact List.Sublist.refl []
    · exact fun s a s' hs _ hstep => (step_move hstep).ordered hs
  · exact (reach_queued_times h).1

theorem backlog_in_order_sample :
    ∃ s, sampleMachine.run (new true .new) (sampleBusy ++ sampleServed) = some s ∧
      [⟨⟨.plain, [1], samplePeer⟩, 0⟩, ⟨⟨.plain, [2], samplePeer⟩, 5⟩].Sublist s.queued ∧
        s.queued.Pairwise (·.enqueuedAt ≤ ·.enqueuedAt) := by
  obtain ⟨s, s', hs, -, hs', hserved⟩ := sample_busy
  have hrun : sampleMachine.run (new true .new) (sampleBusy ++ sampleServed) = some s' := by
    rw [Machine.run_append, hs]
    exact hs'
  obtain ⟨hordered, htimes⟩ := backlog_in_order (Machine.reach_of_run hrun)
  rw [hserved] at hordered
  exact ⟨s', hrun, (List.sublist_append_left _ _).trans hordered, htimes⟩

/-! ## Drops -/

/-- A task was given what its listener reads in the datagram. -/
def Genuine (A : ChaCha20Poly1305 Key) (keys : List Key) (t : QueryTask Key) : Prop :=
  Reads A keys t.arrival t.arrival.listener t.key t.payload

/-- Every datagram bears the name of the listener that has it.  The backlog has
plain ones only, and every task was given what its listener reads. -/
structure Labelled (A : ChaCha20Poly1305 Key) (keys : List Key) (s : Admission Key) : Prop where
  batches : ∀ l, ∀ d ∈ s.batch l, d.listener = l
  backlog : ∀ b ∈ s.resolveSem.pending ++ s.backlog.items, b.arrival.listener = .plain
  tasks : ∀ t ∈ s.tasks, Genuine A keys t

theorem labelled_rest {batch : Listener → List Arrival} {l : Listener} {d : Arrival}
    {rest : List Arrival} (h : ∀ l, ∀ d ∈ batch l, d.listener = l) (next : batch l = d :: rest) :
    d.listener = l ∧ ∀ l', ∀ d ∈ Function.update batch l rest l', d.listener = l' := by
  have hl := h l
  rw [next] at hl
  refine ⟨hl d List.mem_cons_self, ?_⟩
  intro l' d' hd'
  rw [Function.update_apply] at hd'
  split at hd'
  · next heq => exact heq ▸ hl d' (List.mem_cons_of_mem d hd')
  · exact h l' d' hd'

theorem labelled_arrivals {batch : Listener → List Arrival} {l : Listener}
    (h : ∀ l, ∀ d ∈ batch l, d.listener = l) (datagrams : List (Bytes × SocketAddr)) :
    ∀ l', ∀ d ∈ Function.update batch l (arrivals l datagrams) l', d.listener = l' := by
  intro l' d hd
  rw [Function.update_apply] at hd
  split at hd
  · next heq =>
      obtain ⟨_, _, rfl⟩ := List.mem_map.mp hd
      exact heq.symm
  · exact h l' d hd

theorem Move.labelled (h : Move A keys s a s') (hs : Labelled A keys s) : Labelled A keys s' := by
  obtain ⟨batches, backlog, tasks⟩ := hs
  cases h with
  | tick | reload => exact ⟨batches, backlog, tasks⟩
  | receive idle size => exact ⟨labelled_arrivals batches _, backlog, tasks⟩
  | @start l d rest key payload permit next reads acquired =>
      obtain ⟨hd, hrest⟩ := labelled_rest batches next
      refine ⟨hrest, ?_, List.forall_mem_append.mpr ⟨tasks, List.forall_mem_singleton.mpr ?_⟩⟩
      · show ∀ b ∈ permit.pending ++ s.backlog.items, _
        rw [(Semaphore.tryAcquire_spec acquired).2]
        exact backlog
      · rw [Genuine, hd]
        exact reads
  | queue next taken =>
      obtain ⟨hd, hrest⟩ := labelled_rest batches next
      refine ⟨hrest, ?_, tasks⟩
      intro b hb
      rw [Channel.trySend_spec taken, ← List.append_assoc] at hb
      rcases List.mem_append.mp hb with hb | hb
      · exact backlog b hb
      · rw [List.mem_singleton.mp hb]
        exact hd
  | refuse next refuses => exact ⟨(labelled_rest batches next).2, backlog, tasks⟩
  | expire idle taken old =>
      refine ⟨batches, ?_, tasks⟩
      intro b hb
      rw [Channel.recv_spec taken] at backlog
      exact backlog b (((List.sublist_cons_self _ _).append_left _).subset hb)
  | @hold b' backlog' idle taken =>
      refine ⟨batches, ?_, tasks⟩
      rw [Channel.recv_spec taken] at backlog
      show ∀ b ∈ (s.resolveSem.acquire b').pending ++ backlog'.items, _
      rw [(s.resolveSem.acquire_spec b').2, List.append_assoc]
      exact backlog
  | @launch b permit claimed =>
      rw [(Semaphore.claim_spec claimed).2] at backlog
      have hb : b.arrival.listener = .plain := backlog b List.mem_cons_self
      refine ⟨batches, fun b' hb' => backlog b' (List.mem_cons_of_mem b hb'), ?_⟩
      refine List.forall_mem_append.mpr ⟨tasks, List.forall_mem_singleton.mpr ?_⟩
      rw [Genuine, hb]
      rfl
  | @finish resp draw before after t found running =>
      refine ⟨batches, ?_, ?_⟩
      · show ∀ b ∈ s.resolveSem.release.pending ++ s.backlog.items, _
        rw [s.resolveSem.release_spec.2]
        exact backlog
      · rw [found] at tasks
        obtain ⟨hbefore, htask⟩ := List.forall_mem_append.mp tasks
        obtain ⟨ht, hafter⟩ := List.forall_mem_cons.mp htask
        exact List.forall_mem_append.mpr ⟨hbefore, List.forall_mem_cons.mpr ⟨ht, hafter⟩⟩

theorem reach_labelled (h : (machine A keys metrics ruleTrie).Reach s) : Labelled A keys s := by
  refine Machine.ReachBy.invariant (P := Labelled A keys) ?_ ?_ h
  · exact ⟨fun l d hd => absurd hd List.not_mem_nil, fun b hb => absurd hb List.not_mem_nil,
      fun t ht => absurd ht List.not_mem_nil⟩
  · exact fun s a s' hs _ hstep => (step_move hstep).labelled hs

def ended (s : Admission Key) : List (QueryTask Key) := s.tasks.filter fun t => !t.running

/-- The task of a plain query has no key and the bytes of the datagram. -/
theorem Genuine.plain {t : QueryTask Key} (h : Genuine A keys t)
    (hplain : t.arrival.listener = .plain) : t.key = none ∧ t.payload = t.arrival.payload := by
  rw [Genuine, hplain] at h
  cases hkey : t.key with
  | none =>
      rw [hkey] at h
      exact ⟨rfl, h⟩
  | some key =>
      rw [hkey] at h
      exact h.elim

/-- The task of an obfuscated query found its key in the datagram. -/
theorem Genuine.obfs {t : QueryTask Key} (h : Genuine A keys t)
    (hobfs : t.arrival.listener = .obfs) :
    ∃ key, t.key = some key ∧ findKey A keys t.arrival.payload = some (key, t.payload) := by
  rw [Genuine, hobfs] at h
  cases hkey : t.key with
  | none =>
      rw [hkey] at h
      exact h.elim
  | some key =>
      rw [hkey] at h
      exact ⟨key, rfl, h⟩

/-! ## Rest -/

/-- The steps of the server itself: they wait for nobody. -/
def Act.internal : Act → Bool
  | .dispatch _ | .dequeue | .launch | .finish _ _ _ => true
  | .tick _ | .reload _ | .receive _ _ => false

/-- The steps that are left, at most: a datagram is dispatched, dequeued and
launched, and its task ends. -/
def weight (s : Admission Key) : Nat :=
  4 * (inHand s.batch).card + 3 * s.backlog.items.length + 2 * s.resolveSem.pending.length +
    s.running

theorem inHand_card_cons {batch : Listener → List Arrival} {l : Listener} {d : Arrival}
    {rest : List Arrival} (next : batch l = d :: rest) :
    (inHand batch).card = 1 + (inHand (Function.update batch l rest)).card := by
  rw [inHand_cons next, Multiset.card_add, Multiset.card_singleton]

theorem Move.weight_lt (h : Move A keys s a s') (ha : a.internal = true) :
    s'.weight < s.weight := by
  cases h with
  | tick | reload | receive _ _ => cases ha
  | @start l d rest key payload permit next reads acquired =>
      have hcard := inHand_card_cons next
      rw [weight, weight, running_spawn]
      show 4 * (inHand (Function.update s.batch l rest)).card + 3 * s.backlog.items.length +
        2 * permit.pending.length + (s.running + 1) < _
      rw [(Semaphore.tryAcquire_spec acquired).2]
      omega
  | @queue d rest backlog next taken =>
      have hcard := inHand_card_cons next
      show 4 * (inHand (Function.update s.batch .plain rest)).card + 3 * backlog.items.length +
        2 * s.resolveSem.pending.length + s.running < s.weight
      rw [Channel.trySend_spec taken, List.length_append, List.length_singleton, weight]
      omega
  | @refuse l d rest why next refuses =>
      have hcard := inHand_card_cons next
      show 4 * (inHand (Function.update s.batch l rest)).card + 3 * s.backlog.items.length +
        2 * s.resolveSem.pending.length + s.running < s.weight
      rw [weight]
      omega
  | @expire b backlog idle taken old =>
      show 4 * (inHand s.batch).card + 3 * backlog.items.length +
        2 * s.resolveSem.pending.length + s.running < s.weight
      rw [weight, Channel.recv_spec taken, List.length_cons]
      omega
  | @hold b backlog idle taken =>
      show 4 * (inHand s.batch).card + 3 * backlog.items.length +
        2 * (s.resolveSem.acquire b).pending.length + s.running < s.weight
      rw [weight, Channel.recv_spec taken, (s.resolveSem.acquire_spec b).2, List.length_append,
        List.length_singleton, List.length_cons]
      omega
  | @launch b permit claimed =>
      rw [weight, weight, running_spawn, (Semaphore.claim_spec claimed).2, List.length_cons]
      show 4 * (inHand s.batch).card + 3 * s.backlog.items.length + 2 * permit.pending.length +
        (s.running + 1) < _
      omega
  | @finish resp draw before after t found hrunning =>
      have hlt : (before ++ { t with running := false } :: after).countP QueryTask.running <
          s.tasks.countP QueryTask.running := by
        rw [found]
        simp only [List.countP_append, List.countP_cons, hrunning, if_true, Bool.false_eq_true,
          if_false]
        omega
      show 4 * (inHand s.batch).card + 3 * s.backlog.items.length +
        2 * s.resolveSem.release.pending.length +
          (before ++ { t with running := false } :: after).countP QueryTask.running < s.weight
      rw [weight, s.resolveSem.release_spec.2, running]
      omega

theorem weight_le (s : Admission Key) : s.weight ≤ 4 * s.held := by
  have hcard : (inHand s.batch).card = (s.batch .plain).length + (s.batch .obfs).length := by
    rw [inHand, Multiset.card_add, Multiset.coe_card, Multiset.coe_card]
  rw [weight, held, hcard]
  omega

/-- As long as something is held, some step of the server itself is enabled. -/
theorem step_enabled (hpermits : s.resolveSem.unused + s.running = resolveSemaphore)
    (hheld : s.held ≠ 0) : ∃ a, Act.internal a = true ∧ step A keys s a ≠ none := by
  by_cases hrunning : s.running = 0
  · have hunused : s.resolveSem.unused ≠ 0 := by
      rw [resolveSemaphore] at hpermits
      omega
    by_cases hpending : s.resolveSem.pending = []
    · by_cases hitems : s.backlog.items = []
      · have hbatch : ∃ l d rest, s.batch l = d :: rest := by
          cases hplain : s.batch .plain with
          | cons d rest => exact ⟨.plain, d, rest, hplain⟩
          | nil =>
              cases hobfs : s.batch .obfs with
              | cons d rest => exact ⟨.obfs, d, rest, hobfs⟩
              | nil =>
                  rw [held, hplain, hobfs, hitems, hpending, hrunning] at hheld
                  exact absurd rfl hheld
        obtain ⟨l, d, rest, hnext⟩ := hbatch
        refine ⟨.dispatch l, rfl, ?_⟩
        rw [step, hnext]
        exact Option.some_ne_none _
      · obtain ⟨b, backlog, htaken⟩ := Channel.recv_isSome hitems
        refine ⟨.dequeue, rfl, ?_⟩
        rw [step, if_pos hpending, htaken]
        exact Option.some_ne_none _
    · obtain ⟨b, permit, hclaimed⟩ := Semaphore.claim_isSome hunused hpending
      refine ⟨.launch, rfl, ?_⟩
      rw [step, hclaimed]
      exact Option.some_ne_none _
  · obtain ⟨t, ht, hrun⟩ := List.countP_pos_iff.mp (Nat.pos_of_ne_zero hrunning)
    obtain ⟨i, hi⟩ := List.getElem?_of_mem ht
    refine ⟨.finish i none shortDraw, rfl, ?_⟩
    simp only [step, hi, hrun, if_true]
    exact Option.some_ne_none _

theorem receivedBy_internal {as : List Act} (h : ∀ a ∈ as, Act.internal a = true) :
    receivedBy as = [] := by
  rw [receivedBy, List.flatMap_eq_nil_iff]
  intro a ha
  have hint := h a ha
  cases a with
  | tick | reload | receive => cases hint
  | dispatch | dequeue | launch | finish => rfl

theorem free_of_held (hpermits : s.resolveSem.unused + s.running = resolveSemaphore)
    (h : s.held = 0) : s.resolveSem.free = 512 := by
  rw [held, Semaphore.pending, List.length_append] at h
  rw [Semaphore.unused, resolveSemaphore] at hpermits
  omega

/-- At rest every datagram is in a task that has ended or among the dropped
ones. -/
theorem whereabouts_of_held (h : s.held = 0) :
    s.whereabouts = ↑(s.ended.map QueryTask.arrival ++ s.dropped.map Prod.fst) := by
  rw [held] at h
  have hplain : s.batch .plain = [] := List.eq_nil_of_length_eq_zero (by omega)
  have hobfs : s.batch .obfs = [] := List.eq_nil_of_length_eq_zero (by omega)
  have hitems : s.backlog.items = [] := List.eq_nil_of_length_eq_zero (by omega)
  have hpending : s.resolveSem.pending = [] := List.eq_nil_of_length_eq_zero (by omega)
  have hrunning : s.running = 0 := by omega
  have hended : s.ended = s.tasks := by
    rw [ended, List.filter_eq_self]
    intro t ht
    rw [running, List.countP_eq_zero] at hrunning
    rw [Bool.not_eq_true', Bool.eq_false_iff]
    exact hrunning t ht
  rw [whereabouts, inHand, hplain, hobfs, hitems, hpending, hended, ← Multiset.coe_add]
  simp

/-- The server comes to rest.  Left to itself it makes at most four steps for
every datagram it holds.  When it can make no more, it holds none, all permits are
free, and each datagram it knew of has had its task or was dropped. -/
theorem server_comes_to_rest {as : List Act} (hreach : (machine A keys metrics ruleTrie).Reach s)
    (hint : ∀ a ∈ as, Act.internal a = true)
    (hrun : (machine A keys metrics ruleTrie).run s as = some s') :
    as.length ≤ 4 * s.held ∧
      ((∀ a, Act.internal a = true → step A keys s' a = none) →
        s'.held = 0 ∧ s'.resolveSem.free = 512 ∧
          s.whereabouts = ↑(s'.ended.map QueryTask.arrival ++ s'.dropped.map Prod.fst)) := by
  constructor
  · have hlen := Machine.Reach.run_length_le (P := fun a => Act.internal a = true)
      (μ := fun s : Admission Key => s.weight)
      (fun s a s' _ ha hs => (step_move hs).weight_lt ha) hreach hint hrun
    have hle := s.weight_le
    omega
  · intro hstuck
    have hheld : s'.held = 0 := by
      by_contra hheld
      obtain ⟨a, ha, henabled⟩ := @step_enabled Key A keys s'
        (reach_permits (hreach.run hrun)) hheld
      exact henabled (hstuck a ha)
    refine ⟨hheld, free_of_held (reach_permits (hreach.run hrun)) hheld, ?_⟩
    have hsame := run_whereabouts hrun
    rw [receivedBy_internal hint, Multiset.coe_nil, add_zero] at hsame
    rw [← hsame, whereabouts_of_held hheld]

/-- Two queries have come in, and a datagram that is no query. -/
def sampleReceived : List Act :=
  [.receive .plain [([0], samplePeer), ([1], samplePeer)], .receive .obfs [([], samplePeer)]]

def sampleRest : List Act :=
  [.dispatch .plain, .dispatch .obfs, .finish 0 none shortDraw, .dispatch .plain,
    .finish 1 (some [2]) shortDraw]

theorem server_comes_to_rest_sample :
    ∃ s s', sampleMachine.run (new true .new) sampleReceived = some s ∧ s.held = 3 ∧
      sampleMachine.run s sampleRest = some s' ∧ sampleRest.length ≤ 4 * s.held ∧
      s'.held = 0 ∧ s'.resolveSem.free = 512 ∧
        s.whereabouts = ↑(s'.ended.map QueryTask.arrival ++ s'.dropped.map Prod.fst) := by
  have hrun : ∃ s s', sampleMachine.run (new true .new) sampleReceived = some s ∧ s.held = 3 ∧
      sampleMachine.run s sampleRest = some s' ∧
      ∀ a, Act.internal a = true → step markedCipher [true] s' a = none := by
    refine ⟨_, _, rfl, rfl, rfl, fun a ha => ?_⟩
    cases a with
    | tick | reload | receive => cases ha
    | dispatch l => cases l <;> rfl
    | dequeue | launch => rfl
    | finish i resp draw =>
        match i with
        | 0 | 1 | _ + 2 => rfl
  obtain ⟨s, s', hs, hheld, hs', hstuck⟩ := hrun
  have hrest := server_comes_to_rest (Machine.reach_of_run hs) (by decide) hs'
  exact ⟨s, s', hs, hheld, hs', hrest.1, hrest.2 hstuck⟩

end Admission

end DnsRelay
