import DnsRelay.Lib.Machine
import DnsRelay.Lib.Semaphore
import DnsRelay.Proxy.ObfsHop
import DnsRelay.Relay.Transport
import DnsRelay.Shared.DomainTrie
import Mathlib.Algebra.Order.Group.Multiset
import Mathlib.Tactic.Abel

/-!
# Admission of queries

`run_server` receives datagrams in batches and handles each one in a task of
its own.  A task holds a permit of one semaphore.  Without a permit a datagram
goes to the backlog, and if that is full it is dropped.  One worker empties the
backlog.  It drops what has waited too long and waits for a permit with the
rest.  `run_obfs_listener` shares the permits and has no backlog.

`Admission` is the state of the two listeners, the worker and the tasks.  What
a task does with its query is the business of the handler, so a task may end at
any time with any reply.  The clock and the rules may change between any two
steps.

`whereabouts` collects every datagram the server knows of.  A step adds to it
what the step receives and moves the rest around.
-/

namespace DnsRelay

open Lib

/-- `RESOLVE_SEMAPHORE`. -/
def resolveSemaphore : Nat := 512

/-- `BACKLOG_CAPACITY`. -/
def backlogCapacity : Nat := 1024

/-- `MAX_BACKLOG_AGE_MS`. -/
def maxBacklogAge : Nat := fromMillis 800

inductive Listener where
  | plain
  | obfs
deriving DecidableEq, Repr

/-- `RECV_BATCH_MAX` and `OBFS_RECV_BATCH_MAX`. -/
def Listener.batchMax : Listener → Nat
  | .plain => 256
  | .obfs => 64

def Listener.bufSize : Listener → Nat
  | .plain => payloadBufSize
  | .obfs => obfsPayloadBufSize

structure Arrival where
  listener : Listener
  payload : Bytes
  srcAddr : SocketAddr
deriving DecidableEq

structure Backlogged where
  arrival : Arrival
  enqueuedAt : Nat
deriving DecidableEq

inductive Drop where
  | undecodable
  | busy
  | full
  | stale
deriving DecidableEq, Repr

/-- A task that was spawned for a query. -/
structure QueryTask (Key : Type) where
  arrival : Arrival
  key : Option Key
  payload : Bytes
  ruleTrie : DomainTrie
  /-- When the query was queued, if it was. -/
  enqueuedAt : Option Nat
  /-- It has not ended and holds its permit. -/
  running : Bool

/-- The entry of the backlog that a task is for. -/
def QueryTask.backlogged {Key : Type} (t : QueryTask Key) : Option Backlogged :=
  t.enqueuedAt.map (⟨t.arrival, ·⟩)

structure Sent where
  listener : Listener
  destAddr : SocketAddr
  datagram : Bytes
deriving DecidableEq

/-- The state of the listeners, the worker and the tasks. -/
structure Admission (Key : Type) where
  now : Nat
  ruleTrie : DomainTrie
  /-- What is left of the batch of each listener. -/
  batch : Listener → List Arrival
  backlog : Channel Backlogged backlogCapacity
  resolveSem : Semaphore Backlogged
  tasks : List (QueryTask Key)
  /-- `total_req`, when metrics are on. -/
  totalReq : Option UInt64
  /-- Everything the backlog has taken so far, in order. -/
  queued : List Backlogged
  dropped : List (Arrival × Drop)
  sent : List Sent

namespace Admission

variable {Key : Type}

def new (metrics : Bool) (ruleTrie : DomainTrie) : Admission Key where
  now := 0
  ruleTrie := ruleTrie
  batch _ := []
  backlog := .new _ _
  resolveSem := .new resolveSemaphore
  tasks := []
  totalReq := if metrics then some 0 else none
  queued := []
  dropped := []
  sent := []

/-! ## Steps -/

def drop (s : Admission Key) (d : Arrival) (why : Drop) : Admission Key :=
  { s with dropped := s.dropped ++ [(d, why)] }

/-- `tokio::spawn`, with the permit in the task. -/
def spawn (s : Admission Key) (d : Arrival) (key : Option Key) (payload : Bytes)
    (enqueuedAt : Option Nat) : Admission Key :=
  { s with tasks := s.tasks ++ [⟨d, key, payload, s.ruleTrie, enqueuedAt, true⟩] }

def dispatchPlain (s : Admission Key) (d : Arrival) : Admission Key :=
  match s.resolveSem.tryAcquire with
  | some permit => { s with resolveSem := permit }.spawn d none d.payload none
  | none =>
      match s.backlog.trySend ⟨d, s.now⟩ with
      | some backlog => { s with backlog := backlog, queued := s.queued ++ [⟨d, s.now⟩] }
      | none => s.drop d .full

def dispatchObfs (A : ChaCha20Poly1305 Key) (keys : List Key) (s : Admission Key) (d : Arrival) :
    Admission Key :=
  match findKey A keys d.payload with
  | none => s.drop d .undecodable
  | some (key, query) =>
      match s.resolveSem.tryAcquire with
      | some permit => { s with resolveSem := permit }.spawn d (some key) query none
      | none => s.drop d .busy

def dispatch (A : ChaCha20Poly1305 Key) (keys : List Key) (s : Admission Key) (d : Arrival) :
    Listener → Admission Key
  | .plain => s.dispatchPlain d
  | .obfs => s.dispatchObfs A keys d

/-- What the worker does with the next entry of the backlog. -/
def dequeued (s : Admission Key) (b : Backlogged) : Admission Key :=
  if s.now - b.enqueuedAt > maxBacklogAge then s.drop b.arrival .stale
  else { s with resolveSem := s.resolveSem.acquire b }

/-- What a task sends for a reply of the handler. -/
def reply (A : ChaCha20Poly1305 Key) (t : QueryTask Key) (resp : Bytes) (draw : Draw) : Sent where
  listener := t.arrival.listener
  destAddr := t.arrival.srcAddr
  datagram :=
    match t.key with
    | some key => ObfsKey.encode A key resp draw
    | none => resp

inductive Act where
  | tick (n : Nat)
  | reload (ruleTrie : DomainTrie)
  | receive (l : Listener) (datagrams : List (Bytes × SocketAddr))
  | dispatch (l : Listener)
  | dequeue
  | launch
  | finish (i : Nat) (resp : Option Bytes) (draw : Draw)

def arrivals (l : Listener) (datagrams : List (Bytes × SocketAddr)) : List Arrival :=
  datagrams.map fun d => ⟨l, recv l.bufSize d.1, d.2⟩

def Act.received : Act → List Arrival
  | .receive l datagrams => arrivals l datagrams
  | .tick _ | .reload _ | .dispatch _ | .dequeue | .launch | .finish _ _ _ => []

def step (A : ChaCha20Poly1305 Key) (keys : List Key) (s : Admission Key) :
    Act → Option (Admission Key)
  | .tick n => some { s with now := s.now + n }
  | .reload ruleTrie => some { s with ruleTrie := ruleTrie }
  | .receive l datagrams =>
      -- without keys there is no second listener
      if s.batch l = [] ∧ datagrams ≠ [] ∧ datagrams.length ≤ l.batchMax ∧
          (l = .obfs → keys ≠ []) then
        some { s with
          batch := Function.update s.batch l (arrivals l datagrams)
          totalReq := s.totalReq.map (· + UInt64.ofNat datagrams.length) }
      else none
  | .dispatch l =>
      match s.batch l with
      | [] => none
      | d :: rest =>
          some (dispatch A keys { s with batch := Function.update s.batch l rest } d l)
  | .dequeue =>
      if s.resolveSem.pending = [] then
        s.backlog.recv.map fun (b, backlog) => { s with backlog := backlog }.dequeued b
      else none
  | .launch =>
      s.resolveSem.claim.map fun (b, permit) =>
        { s with resolveSem := permit }.spawn b.arrival none b.arrival.payload (some b.enqueuedAt)
  | .finish i resp draw =>
      match s.tasks[i]? with
      | none => none
      | some t =>
          if t.running then
            some { s with
              tasks := s.tasks.set i { t with running := false }
              resolveSem := s.resolveSem.release
              sent := s.sent ++ (resp.map (reply A t · draw)).toList }
          else none

/-- The server with any clients, any clock and any handler. -/
def machine (A : ChaCha20Poly1305 Key) (keys : List Key) (metrics : Bool) (ruleTrie : DomainTrie) :
    Machine (Admission Key) Act where
  init := new metrics ruleTrie
  step := step A keys

/-! ## What a step can do -/

/-- A listener may give up a datagram for this reason. -/
def Refuses (A : ChaCha20Poly1305 Key) (keys : List Key) (s : Admission Key) (d : Arrival) :
    Listener → Drop → Prop
  | .obfs, .undecodable => findKey A keys d.payload = none
  | .obfs, .busy => s.resolveSem.free = 0
  | .plain, .full => s.resolveSem.free = 0 ∧ s.backlog.items.length = backlogCapacity
  | _, _ => False

/-- What a listener makes of a datagram. -/
def Reads (A : ChaCha20Poly1305 Key) (keys : List Key) (d : Arrival) :
    Listener → Option Key → Bytes → Prop
  | .plain, none, payload => payload = d.payload
  | .obfs, some key, payload => findKey A keys d.payload = some (key, payload)
  | _, _, _ => False

/-- The steps by their effect, with what each one finds. -/
inductive Move (A : ChaCha20Poly1305 Key) (keys : List Key) (s : Admission Key) :
    Act → Admission Key → Prop where
  | tick {n : Nat} : Move A keys s (.tick n) { s with now := s.now + n }
  | reload {ruleTrie : DomainTrie} :
      Move A keys s (.reload ruleTrie) { s with ruleTrie := ruleTrie }
  | receive {l : Listener} {datagrams : List (Bytes × SocketAddr)} (idle : s.batch l = [])
      (size : datagrams.length ≤ l.batchMax) :
      Move A keys s (.receive l datagrams)
        { s with
          batch := Function.update s.batch l (arrivals l datagrams)
          totalReq := s.totalReq.map (· + UInt64.ofNat datagrams.length) }
  | start {l : Listener} {d : Arrival} {rest : List Arrival} {key : Option Key} {payload : Bytes}
      {permit : Semaphore Backlogged} (next : s.batch l = d :: rest)
      (reads : Reads A keys d l key payload) (acquired : s.resolveSem.tryAcquire = some permit) :
      Move A keys s (.dispatch l)
        ({ s with batch := Function.update s.batch l rest, resolveSem := permit }.spawn d key
          payload none)
  | queue {d : Arrival} {rest : List Arrival} {backlog : Channel Backlogged backlogCapacity}
      (next : s.batch .plain = d :: rest) (taken : s.backlog.trySend ⟨d, s.now⟩ = some backlog) :
      Move A keys s (.dispatch .plain)
        { s with
          batch := Function.update s.batch .plain rest
          backlog := backlog
          queued := s.queued ++ [⟨d, s.now⟩] }
  | refuse {l : Listener} {d : Arrival} {rest : List Arrival} {why : Drop}
      (next : s.batch l = d :: rest) (refuses : Refuses A keys s d l why) :
      Move A keys s (.dispatch l)
        ({ s with batch := Function.update s.batch l rest }.drop d why)
  | expire {b : Backlogged} {backlog : Channel Backlogged backlogCapacity}
      (idle : s.resolveSem.pending = []) (taken : s.backlog.recv = some (b, backlog))
      (old : maxBacklogAge < s.now - b.enqueuedAt) :
      Move A keys s .dequeue ({ s with backlog := backlog }.drop b.arrival .stale)
  | hold {b : Backlogged} {backlog : Channel Backlogged backlogCapacity}
      (idle : s.resolveSem.pending = []) (taken : s.backlog.recv = some (b, backlog)) :
      Move A keys s .dequeue { s with backlog := backlog, resolveSem := s.resolveSem.acquire b }
  | launch {b : Backlogged} {permit : Semaphore Backlogged}
      (claimed : s.resolveSem.claim = some (b, permit)) :
      Move A keys s .launch
        ({ s with resolveSem := permit }.spawn b.arrival none b.arrival.payload
          (some b.enqueuedAt))
  | finish {resp : Option Bytes} {draw : Draw} {before after : List (QueryTask Key)}
      {t : QueryTask Key} (found : s.tasks = before ++ t :: after) (running : t.running = true) :
      Move A keys s (.finish before.length resp draw)
        { s with
          tasks := before ++ { t with running := false } :: after
          resolveSem := s.resolveSem.release
          sent := s.sent ++ (resp.map (reply A t · draw)).toList }

section Runs

variable {A : ChaCha20Poly1305 Key} {keys : List Key} {s s' : Admission Key} {a : Act}

theorem dispatch_move {l : Listener} {d : Arrival} {rest : List Arrival}
    (next : s.batch l = d :: rest) :
    Move A keys s (.dispatch l)
      (dispatch A keys { s with batch := Function.update s.batch l rest } d l) := by
  cases l with
  | plain =>
      simp only [dispatch, dispatchPlain]
      cases hsem : s.resolveSem.tryAcquire with
      | some permit => exact .start next rfl hsem
      | none =>
          simp only
          cases hsend : s.backlog.trySend ⟨d, s.now⟩ with
          | some backlog => exact .queue next hsend
          | none =>
              exact .refuse next
                ⟨Semaphore.tryAcquire_eq_none.mp hsem, Channel.trySend_eq_none.mp hsend⟩
  | obfs =>
      simp only [dispatch, dispatchObfs]
      cases hkey : findKey A keys d.payload with
      | none => exact .refuse next hkey
      | some found =>
          obtain ⟨key, query⟩ := found
          simp only
          cases hsem : s.resolveSem.tryAcquire with
          | some permit => exact .start next hkey hsem
          | none => exact .refuse next (Semaphore.tryAcquire_eq_none.mp hsem)

/-- Every step is one of the moves. -/
theorem step_move (h : step A keys s a = some s') : Move A keys s a s' := by
  cases a with
  | tick n =>
      cases h
      exact .tick
  | reload ruleTrie =>
      cases h
      exact .reload
  | receive l datagrams =>
      simp only [step] at h
      split at h
      · next hbatch =>
          cases h
          exact .receive hbatch.1 hbatch.2.2.1
      · cases h
  | dispatch l =>
      simp only [step] at h
      split at h
      · cases h
      · next d rest next =>
          cases h
          exact dispatch_move next
  | dequeue =>
      simp only [step] at h
      split at h
      · next hidle =>
          obtain ⟨⟨b, backlog⟩, htaken, rfl⟩ := Option.map_eq_some_iff.mp h
          simp only [dequeued]
          split
          · next hold => exact .expire hidle htaken hold
          · exact .hold hidle htaken
      · cases h
  | launch =>
      obtain ⟨⟨b, permit⟩, hclaimed, rfl⟩ := Option.map_eq_some_iff.mp h
      exact .launch hclaimed
  | finish i resp draw =>
      simp only [step] at h
      split at h
      · cases h
      · next t hfound =>
          split at h
          · next hrunning =>
              cases h
              obtain ⟨before, after, htasks, rfl, hset⟩ := set_split hfound
              rw [hset]
              exact .finish htasks hrunning
          · cases h

/-! ## Where everything is -/

def inHand (batch : Listener → List Arrival) : Multiset Arrival := ↑(batch .plain) + ↑(batch .obfs)

/-- Every datagram the server knows of: in a batch, in the backlog, with the
worker, in a task that runs or has ended, or dropped. -/
def whereabouts (s : Admission Key) : Multiset Arrival :=
  inHand s.batch + ↑(s.backlog.items.map Backlogged.arrival) +
    ↑(s.resolveSem.pending.map Backlogged.arrival) + ↑(s.tasks.map QueryTask.arrival) +
      ↑(s.dropped.map Prod.fst)

theorem inHand_cons {batch : Listener → List Arrival} {l : Listener} {d : Arrival}
    {rest : List Arrival} (next : batch l = d :: rest) :
    inHand batch = {d} + inHand (Function.update batch l rest) := by
  cases l with
  | plain =>
      show (batch .plain : Multiset Arrival) + batch .obfs = {d} + (rest + batch .obfs)
      rw [next, ← Multiset.cons_coe, ← Multiset.singleton_add, add_assoc]
  | obfs =>
      show (batch .plain : Multiset Arrival) + batch .obfs = {d} + (batch .plain + rest)
      rw [next, ← Multiset.cons_coe, ← Multiset.singleton_add, add_left_comm]

theorem inHand_nil {batch : Listener → List Arrival} {l : Listener} (idle : batch l = [])
    (new : List Arrival) : inHand (Function.update batch l new) = inHand batch + new := by
  cases l with
  | plain =>
      show (new : Multiset Arrival) + batch .obfs = batch .plain + batch .obfs + new
      rw [idle, Multiset.coe_nil, zero_add, add_comm]
  | obfs =>
      show (batch .plain : Multiset Arrival) + new = batch .plain + batch .obfs + new
      rw [idle, Multiset.coe_nil, add_zero]

/-- A step adds what it receives and loses nothing. -/
theorem Move.whereabouts_eq (h : Move A keys s a s') :
    s'.whereabouts = s.whereabouts + a.received := by
  cases h with
  | tick => exact (add_zero _).symm
  | reload => exact (add_zero _).symm
  | @receive l datagrams idle size =>
      simp only [whereabouts, Act.received, inHand_nil idle]
      abel
  | start next reads acquired =>
      have hpending := (Semaphore.tryAcquire_spec acquired).2
      simp only [whereabouts, spawn, Act.received, hpending, inHand_cons next, List.map_append,
        List.map_cons, List.map_nil, ← Multiset.coe_add, ← Multiset.cons_coe,
        ← Multiset.singleton_add, Multiset.coe_nil, add_zero]
      abel
  | queue next taken =>
      have hitems := Channel.trySend_spec taken
      simp only [whereabouts, Act.received, hitems, inHand_cons next, List.map_append,
        List.map_cons, List.map_nil, ← Multiset.coe_add, ← Multiset.cons_coe,
        ← Multiset.singleton_add, Multiset.coe_nil, add_zero]
      abel
  | refuse next refuses =>
      simp only [whereabouts, drop, Act.received, inHand_cons next, List.map_append,
        List.map_cons, List.map_nil, ← Multiset.coe_add, ← Multiset.cons_coe,
        ← Multiset.singleton_add, Multiset.coe_nil, add_zero]
      abel
  | expire idle taken old =>
      have hitems := Channel.recv_spec taken
      simp only [whereabouts, drop, Act.received, hitems, List.map_append, List.map_cons,
        List.map_nil, ← Multiset.coe_add, ← Multiset.cons_coe,
        ← Multiset.singleton_add, Multiset.coe_nil, add_zero]
      abel
  | @hold b backlog idle taken =>
      have hitems := Channel.recv_spec taken
      have hpending := (s.resolveSem.acquire_spec b).2
      simp only [whereabouts, Act.received, hitems, hpending, List.map_append, List.map_cons,
        List.map_nil, ← Multiset.coe_add, ← Multiset.cons_coe,
        ← Multiset.singleton_add, Multiset.coe_nil, add_zero]
      abel
  | launch claimed =>
      have hpending := (Semaphore.claim_spec claimed).2
      simp only [whereabouts, spawn, Act.received, hpending, List.map_append, List.map_cons,
        List.map_nil, ← Multiset.coe_add, ← Multiset.cons_coe,
        ← Multiset.singleton_add, Multiset.coe_nil, add_zero]
      abel
  | finish found running =>
      have hpending := s.resolveSem.release_spec.2
      simp only [whereabouts, Act.received, hpending, found, List.map_append, List.map_cons,
        Multiset.coe_nil, add_zero]

/-! ## What holds in every state -/

def running (s : Admission Key) : Nat := s.tasks.countP QueryTask.running

/-- The queries of the backlog that have got a task, the one the worker has and
those still in the backlog. -/
def served (s : Admission Key) : List Backlogged :=
  s.tasks.filterMap QueryTask.backlogged ++ (s.resolveSem.pending ++ s.backlog.items)

/-- A batch that gets shorter stays short enough. -/
theorem batches_update {batch : Listener → List Arrival} {l : Listener} {new : List Arrival}
    (h : ∀ l, (batch l).length ≤ l.batchMax) (hnew : new.length ≤ l.batchMax) (l' : Listener) :
    (Function.update batch l new l').length ≤ l'.batchMax := by
  rw [Function.update_apply]
  split
  · next heq => exact heq ▸ hnew
  · exact h l'

theorem batches_rest {batch : Listener → List Arrival} {l : Listener} {d : Arrival}
    {rest : List Arrival} (h : ∀ l, (batch l).length ≤ l.batchMax) (next : batch l = d :: rest)
    (l' : Listener) : (Function.update batch l rest l').length ≤ l'.batchMax := by
  refine batches_update h ?_ l'
  have hl := h l
  rw [next, List.length_cons] at hl
  omega

theorem running_spawn (s : Admission Key) (d : Arrival) (key : Option Key) (payload : Bytes)
    (enqueuedAt : Option Nat) :
    (s.spawn d key payload enqueuedAt).running = s.running + 1 := by
  simp only [running, spawn, List.countP_append, List.countP_singleton, if_true]

theorem Move.permits_eq (h : Move A keys s a s') :
    s'.resolveSem.unused + s'.running = s.resolveSem.unused + s.running := by
  cases h with
  | tick | reload | receive _ _ | queue _ _ | refuse _ _ | expire _ _ _ => rfl
  | @start l d rest key payload permit next reads acquired =>
      have hunused := (Semaphore.tryAcquire_spec acquired).1
      rw [running_spawn]
      show permit.unused + (s.running + 1) = _
      omega
  | @hold b backlog idle taken =>
      show (s.resolveSem.acquire b).unused + s.running = _
      rw [(s.resolveSem.acquire_spec b).1]
  | @launch b permit claimed =>
      have hunused := (Semaphore.claim_spec claimed).1
      rw [running_spawn]
      show permit.unused + (s.running + 1) = _
      omega
  | finish found hrunning =>
      simp only [running, found, s.resolveSem.release_spec.1, List.countP_append, List.countP_cons,
        hrunning, if_true, Bool.false_eq_true, if_false]
      omega

/-- The worker takes an entry only when it has none. -/
theorem Move.worker (h : Move A keys s a s') (hs : s.resolveSem.pending.length ≤ 1) :
    s'.resolveSem.pending.length ≤ 1 := by
  cases h with
  | tick | reload | receive _ _ | queue _ _ | refuse _ _ | expire _ _ _ => exact hs
  | start next reads acquired => exact (Semaphore.tryAcquire_spec acquired).2 ▸ hs
  | @hold b backlog idle taken =>
      show (s.resolveSem.acquire b).pending.length ≤ 1
      rw [(s.resolveSem.acquire_spec b).2, idle]
      exact Nat.le_refl 1
  | launch claimed =>
      rw [(Semaphore.claim_spec claimed).2, List.length_cons] at hs
      exact Nat.le_of_succ_le hs
  | finish found running =>
      show s.resolveSem.release.pending.length ≤ 1
      rw [s.resolveSem.release_spec.2]
      exact hs

theorem Move.batches (h : Move A keys s a s') (hs : ∀ l, (s.batch l).length ≤ l.batchMax) :
    ∀ l, (s'.batch l).length ≤ l.batchMax := by
  cases h with
  | tick | reload | expire _ _ _ | hold _ _ | launch _ | finish _ _ => exact hs
  | @receive l datagrams idle size =>
      refine batches_update hs ?_
      rw [arrivals, List.length_map]
      exact size
  | start next _ _ => exact batches_rest hs next
  | queue next _ => exact batches_rest hs next
  | refuse next _ => exact batches_rest hs next

/-- A query is queued last and leaves the backlog first. -/
theorem Move.ordered (h : Move A keys s a s') (hs : s.served.Sublist s.queued) :
    s'.served.Sublist s'.queued := by
  cases h with
  | tick | reload | receive _ _ | refuse _ _ => exact hs
  | start next reads acquired =>
      simp only [served, spawn, List.filterMap_append, (Semaphore.tryAcquire_spec acquired).2]
      rw [served] at hs
      rw [show List.filterMap QueryTask.backlogged [_] = [] from rfl, List.append_nil]
      exact hs
  | queue next taken =>
      simp only [served, Channel.trySend_spec taken]
      rw [← List.append_assoc, ← List.append_assoc]
      rw [served, ← List.append_assoc] at hs
      exact hs.append (List.Sublist.refl _)
  | expire idle taken old =>
      rw [served, Channel.recv_spec taken] at hs
      exact ((((List.sublist_cons_self _ _).append_left _).append_left _).trans hs)
  | @hold b backlog idle taken =>
      rw [served, Channel.recv_spec taken] at hs
      simp only [served, (s.resolveSem.acquire_spec b).2, List.append_assoc,
        List.singleton_append]
      exact hs
  | launch claimed =>
      rw [served, (Semaphore.claim_spec claimed).2] at hs
      simp only [served, spawn, List.filterMap_append]
      rw [show List.filterMap QueryTask.backlogged [_] = [_] from rfl, List.append_assoc]
      exact hs
  | finish found running =>
      rw [served, found] at hs
      simp only [served, s.resolveSem.release_spec.2]
      rw [List.filterMap_append, List.filterMap_cons] at hs ⊢
      exact hs

end Runs

end Admission

end DnsRelay
