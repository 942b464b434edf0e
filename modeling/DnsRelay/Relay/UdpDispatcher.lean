import DnsRelay.Lib.Addr
import DnsRelay.Lib.Bytes
import DnsRelay.Lib.Machine

/-!
# The UDP dispatcher

All plain UDP queries share one socket.  `resolve` takes a free identifier,
enters itself in the pending map under it and waits on a oneshot channel.  The
receiver task takes the entry of a reply out of the map and sends the reply on
the entry's channel.  A guard removes the entry of a call when the call ends,
whether it returns, fails or is dropped.

Calls are numbered in the order of their registration and datagrams in the
order of their arrival.  Each use of the lock is one step.  Between the step
that takes an entry and the one that sends on its channel, and between the
arrival of the reply and the drop of the guard, others may run.

Registration looks for a free identifier from the counter on.  With all 65536
taken it does not return, and the step is not enabled.
-/

namespace DnsRelay

open Lib

/-! ## State -/

/-- A datagram that the receiver task was given. -/
structure Datagram where
  number : Nat
  packet : Bytes
  source : SocketAddr
deriving DecidableEq, Repr

/-- `PendingUdp`.  The call stands for the sending half of its channel. -/
structure PendingUdp where
  upstream : SocketAddr
  call : Nat
deriving DecidableEq, Repr

inductive CallStage where
  | sending
  | waiting
  /-- Ended with an error, with the guard still there. -/
  | failed
  /-- Dropped, with the guard still there. -/
  | cancelled
  /-- Ended with a reply, with the guard still there. -/
  | returned
  | closed
deriving DecidableEq, Repr

/-- A call of `resolve`. -/
structure UdpCall where
  id : UInt16
  upstream : SocketAddr
  payload : Bytes
  sent : Option Bytes
  slot : Option Datagram
  stage : CallStage
deriving DecidableEq, Repr

/-- The call still owns the receiving half of its channel. -/
def UdpCall.listening (call : UdpCall) : Bool :=
  match call.stage with
  | .sending | .waiting => true
  | .failed | .cancelled | .returned | .closed => false

def UdpCall.guarded (call : UdpCall) : Bool := call.stage != .closed

/-- A call that has ended with a reply. -/
structure Completion where
  call : Nat
  reply : Datagram
deriving DecidableEq, Repr

/-- `UdpDispatcher`, with its calls and what they returned. -/
structure UdpDispatcher where
  pending : UInt16 → Option PendingUdp
  nextId : UInt16
  calls : Nat → Option UdpCall
  nextCall : Nat
  /-- What the receiver task has taken and not sent on. -/
  receiver : Option (PendingUdp × Datagram)
  nextDatagram : Nat
  completions : List Completion

namespace UdpDispatcher

/-- `UdpDispatcher::new`. -/
def new : UdpDispatcher where
  pending _ := none
  nextId := 0
  calls _ := none
  nextCall := 0
  receiver := none
  nextDatagram := 0
  completions := []

/-! ## Operations -/

def packetId (packet : Bytes) : UInt16 := UInt16.ofNat (u16At packet 0)

/-- The query as it is sent: the payload under the identifier of the call. -/
def queryFor (id : UInt16) (payload : Bytes) : Bytes := overwrite payload 0 (toBe16 id.toNat)

/-- The loop that takes an identifier, for so many attempts: the identifier and
the counter after it. -/
def allocate (pending : UInt16 → Option PendingUdp) : Nat → UInt16 → Option (UInt16 × UInt16)
  | 0, _ => none
  | attempts + 1, next =>
      if (pending next).isSome then allocate pending attempts (next + 1)
      else some (next, next + 1)

def setCall (s : UdpDispatcher) (i : Nat) (call : UdpCall) : UdpDispatcher :=
  { s with calls := Function.update s.calls i (some call) }

def remove (s : UdpDispatcher) (id : UInt16) : UdpDispatcher :=
  { s with pending := Function.update s.pending id none }

def record (s : UdpDispatcher) (i : Nat) (d : Datagram) : UdpDispatcher :=
  { s with completions := s.completions ++ [⟨i, d⟩] }

/-- The start of `resolve`, up to the guard. -/
def register (s : UdpDispatcher) (upstream : SocketAddr) (payload : Bytes) :
    Option UdpDispatcher :=
  match allocate s.pending 65536 s.nextId with
  | none => none
  | some (id, next) =>
      some { s with
        pending := Function.update s.pending id (some ⟨upstream, s.nextCall⟩)
        nextId := next
        calls := Function.update s.calls s.nextCall
          (some ⟨id, upstream, payload, none, none, .sending⟩)
        nextCall := s.nextCall + 1 }

/-- The part of `dispatch_reply` under the lock. -/
def dispatchReply (s : UdpDispatcher) (packet : Bytes) (source : SocketAddr) : UdpDispatcher :=
  let ignored := { s with nextDatagram := s.nextDatagram + 1 }
  if packet.length < 2 then ignored
  else
    match s.pending (packetId packet) with
    | none => ignored
    | some entry =>
        if entry.upstream = source then
          { ignored with receiver := some (entry, ⟨s.nextDatagram, packet, source⟩) }.remove
            (packetId packet)
        else ignored

/-- The send on the channel, which is lost when nobody listens. -/
def deliver (s : UdpDispatcher) (entry : PendingUdp) (d : Datagram) : UdpDispatcher :=
  let idle := { s with receiver := none }
  match s.calls entry.call with
  | none => idle
  | some call =>
      if call.listening then idle.setCall entry.call { call with slot := some d } else idle

/-- The sending half of the channel of a call is gone. -/
def senderGone (s : UdpDispatcher) (i : Nat) (call : UdpCall) : Bool :=
  (s.pending call.id).map PendingUdp.call != some i &&
    s.receiver.map (fun r => r.1.call) != some i

/-! ## Steps -/

inductive Act where
  | register (upstream : SocketAddr) (payload : Bytes)
  | send (i : Nat)
  | sendFails (i : Nat)
  | dispatch (packet : Bytes) (source : SocketAddr)
  | deliver
  | receive (i : Nat)
  | receiveFails (i : Nat)
  | cancel (i : Nat)
  | dropGuard (i : Nat)
deriving DecidableEq, Repr

def step (s : UdpDispatcher) : Act → Option UdpDispatcher
  | .register upstream payload => s.register upstream payload
  | .send i =>
      match s.calls i with
      | some call =>
          if call.stage = .sending then
            if call.payload.length < 2 then some (s.setCall i { call with stage := .failed })
            else some (s.setCall i { call with
              stage := .waiting
              sent := some (queryFor call.id call.payload) })
          else none
      | none => none
  | .sendFails i =>
      match s.calls i with
      | some call =>
          if call.stage = .sending then some (s.setCall i { call with stage := .failed }) else none
      | none => none
  | .dispatch packet source =>
      if s.receiver.isSome then none else some (s.dispatchReply packet source)
  | .deliver =>
      match s.receiver with
      | some (entry, d) => some (s.deliver entry d)
      | none => none
  | .receive i =>
      match s.calls i with
      | some call =>
          match call.slot with
          | some d =>
              if call.stage = .waiting then
                some ((s.record i d).setCall i { call with stage := .returned })
              else none
          | none => none
      | none => none
  | .receiveFails i =>
      match s.calls i with
      | some call =>
          if call.stage = .waiting ∧ call.slot = none ∧ s.senderGone i call = true then
            some (s.setCall i { call with stage := .failed })
          else none
      | none => none
  | .cancel i =>
      match s.calls i with
      | some call =>
          if call.listening then some (s.setCall i { call with stage := .cancelled }) else none
      | none => none
  | .dropGuard i =>
      match s.calls i with
      | some call =>
          if !call.listening && call.guarded then
            some ((s.setCall i { call with stage := .closed }).remove call.id)
          else none
      | none => none

def machine : Machine UdpDispatcher Act where
  init := new
  step := step

/-! ## What a step can do -/

/-- A call that listens goes on, fails or is dropped. -/
structure Advances (call call' : UdpCall) : Prop where
  listening : call.listening = true
  id : call'.id = call.id
  upstream : call'.upstream = call.upstream
  slot : call'.slot = call.slot
  guarded : call'.guarded = true
  sent : call'.stage = .waiting → call'.sent = some (queryFor call'.id call'.payload)

inductive Move (s : UdpDispatcher) : Act → UdpDispatcher → Prop where
  | register {upstream : SocketAddr} {payload : Bytes} {id next : UInt16}
      (alloc : allocate s.pending 65536 s.nextId = some (id, next)) :
      Move s (.register upstream payload) { s with
        pending := Function.update s.pending id (some ⟨upstream, s.nextCall⟩)
        nextId := next
        calls := Function.update s.calls s.nextCall
          (some ⟨id, upstream, payload, none, none, .sending⟩)
        nextCall := s.nextCall + 1 }
  | advance {a : Act} {i : Nat} {call call' : UdpCall} (found : s.calls i = some call)
      (advances : Advances call call') : Move s a (s.setCall i call')
  | ignore {packet : Bytes} {source : SocketAddr} :
      Move s (.dispatch packet source) { s with nextDatagram := s.nextDatagram + 1 }
  | take {packet : Bytes} {entry : PendingUdp} (long : 2 ≤ packet.length)
      (found : s.pending (packetId packet) = some entry) :
      Move s (.dispatch packet entry.upstream)
        ({ s with
          nextDatagram := s.nextDatagram + 1
          receiver := some (entry, ⟨s.nextDatagram, packet, entry.upstream⟩) }.remove
            (packetId packet))
  | lose : Move s .deliver { s with receiver := none }
  | hand {entry : PendingUdp} {d : Datagram} {call : UdpCall}
      (taken : s.receiver = some (entry, d)) (found : s.calls entry.call = some call) :
      Move s .deliver
        ({ s with receiver := none }.setCall entry.call { call with slot := some d })
  | receive {i : Nat} {call : UdpCall} {d : Datagram} (found : s.calls i = some call)
      (slot : call.slot = some d) (waiting : call.stage = .waiting) :
      Move s (.receive i) ((s.record i d).setCall i { call with stage := .returned })
  | close {i : Nat} {call : UdpCall} (found : s.calls i = some call)
      (guarded : call.guarded = true) :
      Move s (.dropGuard i) ((s.remove call.id).setCall i { call with stage := .closed })

theorem dispatchReply_move (s : UdpDispatcher) (packet : Bytes) (source : SocketAddr) :
    Move s (.dispatch packet source) (s.dispatchReply packet source) := by
  rw [dispatchReply]
  by_cases hlen : packet.length < 2
  · rw [if_pos hlen]
    exact .ignore
  · rw [if_neg hlen]
    cases hp : s.pending (packetId packet) with
    | none => exact .ignore
    | some entry =>
        by_cases hup : entry.upstream = source
        · subst hup
          simp only [if_true]
          exact .take (Nat.le_of_not_lt hlen) hp
        · simp only [if_neg hup]
          exact .ignore

theorem deliver_move {s : UdpDispatcher} {entry : PendingUdp} {d : Datagram}
    (h : s.receiver = some (entry, d)) : Move s .deliver (s.deliver entry d) := by
  rw [deliver]
  cases hc : s.calls entry.call with
  | none => exact .lose
  | some call =>
      by_cases hl : call.listening = true
      · simp only [if_pos hl]
        exact .hand h hc
      · simp only [if_neg hl]
        exact .lose

/-- Every step is one of the moves. -/
theorem step_move {s s' : UdpDispatcher} {a : Act} (h : step s a = some s') : Move s a s' := by
  cases a with
  | register upstream payload =>
      simp only [step, register] at h
      split at h
      · cases h
      next id next halloc =>
        cases h
        exact .register halloc
  | send i =>
      simp only [step] at h
      split at h
      next call hc =>
        split at h
        next hs =>
          split at h
          · cases h
            exact .advance hc ⟨by rw [UdpCall.listening, hs], rfl, rfl, rfl, rfl, nofun⟩
          · cases h
            exact .advance hc ⟨by rw [UdpCall.listening, hs], rfl, rfl, rfl, rfl, fun _ => rfl⟩
        · cases h
      · cases h
  | sendFails i =>
      simp only [step] at h
      split at h
      next call hc =>
        split at h
        next hs =>
          cases h
          exact .advance hc ⟨by rw [UdpCall.listening, hs], rfl, rfl, rfl, rfl, nofun⟩
        · cases h
      · cases h
  | dispatch packet source =>
      simp only [step] at h
      split at h
      · cases h
      · cases h
        exact dispatchReply_move s packet source
  | deliver =>
      simp only [step] at h
      split at h
      next entry d hr =>
        cases h
        exact deliver_move hr
      · cases h
  | receive i =>
      simp only [step] at h
      split at h
      next call hc =>
        split at h
        next d hd =>
          split at h
          next hw =>
            cases h
            exact .receive hc hd hw
          · cases h
        · cases h
      · cases h
  | receiveFails i =>
      simp only [step] at h
      split at h
      next call hc =>
        split at h
        next hs =>
          cases h
          exact .advance hc ⟨by rw [UdpCall.listening, hs.1], rfl, rfl, rfl, rfl, nofun⟩
        · cases h
      · cases h
  | cancel i =>
      simp only [step] at h
      split at h
      next call hc =>
        split at h
        next hl =>
          cases h
          exact .advance hc ⟨hl, rfl, rfl, rfl, rfl, nofun⟩
        · cases h
      · cases h
  | dropGuard i =>
      simp only [step] at h
      split at h
      next call hc =>
        split at h
        next hl =>
          cases h
          rw [Bool.and_eq_true, Bool.not_eq_true'] at hl
          exact .close hc hl.2
        · cases h
      · cases h

end UdpDispatcher

end DnsRelay
