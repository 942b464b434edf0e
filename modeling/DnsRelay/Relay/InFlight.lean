import DnsRelay.Lib.Machine
import DnsRelay.Lib.Watch
import DnsRelay.Shared.CacheKey

/-!
# Queries in flight

Concurrent queries with one cache key share one upstream query.  The first
caller of `join` leads, later ones follow and wait on a watch channel for what
the leader publishes.

Every operation on the shared map is one step under its lock.  Publishing is
two steps, the send on the channel and then the removal of the map entry.
Dropping a leader also removes its entry first and gives up its sender after.
`Act` has all steps of all parties, so that a run is an interleaving.

`Move` lists the steps by their effect.  Every proof about runs goes by cases
on it.
-/

namespace DnsRelay

open Lib

/-! ## State -/

inductive LeaderStage where
  | held
  /-- `publish` has sent and not yet removed the entry. -/
  | sent
  /-- The entry is removed and the sender not yet dropped. -/
  | unlinked
deriving DecidableEq, Repr

structure FlightLeader where
  key : CacheKey
  stage : LeaderStage
deriving DecidableEq, Repr

/-- How far `wait` has come in a follower. -/
inductive FollowerStage where
  | borrow
  | changed
  /-- `wait` has returned. -/
  | done (r : Option Bytes)
  | cancelled
deriving DecidableEq, Repr

structure FlightFollower where
  /-- The flight whose channel it listens to. -/
  flight : Nat
  /-- The version its receiver has seen. -/
  seen : Nat
  stage : FollowerStage
deriving DecidableEq, Repr

def FlightFollower.live (x : FlightFollower) : Bool :=
  match x.stage with
  | .borrow | .changed => true
  | .done _ | .cancelled => false

/-- `InFlightQueries`, with the handles it has given out.  Flights are numbered
in the order of their leaders. -/
structure InFlightQueries where
  /-- The map.  An entry owns a sender of the channel of its flight. -/
  entries : CacheKey → Option Nat
  chans : Nat → Watch (Option Bytes)
  leaders : Nat → Option FlightLeader
  /-- What each leader was told to publish. -/
  published : Nat → Option Bytes
  nextFlight : Nat
  followers : List FlightFollower

/-- What `join` hands out. -/
inductive Flight where
  | leader (l : Nat)
  /-- The caller follows, under this position in the list of followers. -/
  | follower (f : Nat)
deriving DecidableEq, Repr

namespace InFlightQueries

/-- `InFlightQueries::new`. -/
def new : InFlightQueries where
  entries _ := none
  chans _ := ⟨none, 0, 0, 0⟩
  leaders _ := none
  published _ := none
  nextFlight := 0
  followers := []

/-! ## Operations -/

/-- Apply a channel operation to the channel of one flight. -/
def onChan (s : InFlightQueries) (l : Nat) (f : Watch (Option Bytes) → Watch (Option Bytes)) :
    InFlightQueries :=
  { s with chans := Function.update s.chans l (f (s.chans l)) }

def setFollower (s : InFlightQueries) (f : Nat) (x : FlightFollower) : InFlightQueries :=
  { s with followers := s.followers.set f x }

def setLeader (s : InFlightQueries) (l : Nat) (ld : Option FlightLeader) : InFlightQueries :=
  { s with leaders := Function.update s.leaders l ld }

/-- Remove an entry from the map, and with it the sender it owns. -/
def removeEntry (s : InFlightQueries) (k : CacheKey) : InFlightQueries :=
  match s.entries k with
  | none => s
  | some l => { s.onChan l Watch.dropSender with entries := Function.update s.entries k none }

/-- `InFlightQueries::join`. -/
def join (s : InFlightQueries) (k : CacheKey) : InFlightQueries × Flight :=
  match s.entries k with
  | some l =>
      ({ s.onChan l Watch.subscribe with
          followers := s.followers ++ [⟨l, (s.chans l).version, .borrow⟩] },
        .follower s.followers.length)
  | none =>
      -- the receiver of the new channel is dropped at once
      ({ s with
          entries := Function.update s.entries k (some s.nextFlight)
          chans := Function.update s.chans s.nextFlight
            (Watch.channel none).dropReceiver.cloneSender
          leaders := Function.update s.leaders s.nextFlight (some ⟨k, .held⟩)
          nextFlight := s.nextFlight + 1 },
        .leader s.nextFlight)

/-- The send of `FlightLeader::publish`. -/
def publishSend (s : InFlightQueries) (l : Nat) (packet : Bytes) : Option InFlightQueries :=
  match s.leaders l with
  | some ⟨k, .held⟩ =>
      some { (s.onChan l (·.send (some packet))).setLeader l (some ⟨k, .sent⟩) with
        published := Function.update s.published l (some packet) }
  | _ => none

/-- The removal of `FlightLeader::publish`. -/
def publishRemove (s : InFlightQueries) (l : Nat) : Option InFlightQueries :=
  match s.leaders l with
  | some ⟨k, .sent⟩ => some ((s.removeEntry k).setLeader l (some ⟨k, .unlinked⟩))
  | _ => none

/-- `FlightLeader::drop` of a leader that has not published. -/
def dropRemove (s : InFlightQueries) (l : Nat) : Option InFlightQueries :=
  match s.leaders l with
  | some ⟨k, .held⟩ => some ((s.removeEntry k).setLeader l (some ⟨k, .unlinked⟩))
  | _ => none

/-- The end of a leader, when its sender is dropped. -/
def dropFields (s : InFlightQueries) (l : Nat) : Option InFlightQueries :=
  match s.leaders l with
  | some ⟨_, .unlinked⟩ => some ((s.onChan l Watch.dropSender).setLeader l none)
  | _ => none

def endFollower (s : InFlightQueries) (f : Nat) (x : FlightFollower) (stage : FollowerStage) :
    InFlightQueries :=
  (s.onChan x.flight Watch.dropReceiver).setFollower f { x with stage := stage }

/-- `borrow_and_update` in `FlightFollower::wait`. -/
def borrow (s : InFlightQueries) (f : Nat) : Option InFlightQueries :=
  match s.followers[f]? with
  | some ⟨l, seen, .borrow⟩ =>
      match (s.chans l).value with
      | some packet => some (s.endFollower f ⟨l, seen, .borrow⟩ (.done (some packet)))
      | none => some (s.setFollower f ⟨l, (s.chans l).version, .changed⟩)
  | _ => none

/-- `changed` in `FlightFollower::wait`. -/
def changed (s : InFlightQueries) (f : Nat) : Option InFlightQueries :=
  match s.followers[f]? with
  | some ⟨l, seen, .changed⟩ =>
      match (s.chans l).changed seen with
      | .ready => some (s.setFollower f ⟨l, (s.chans l).version, .borrow⟩)
      | .closed => some (s.endFollower f ⟨l, seen, .changed⟩ (.done none))
      | .pending => none
  | _ => none

def cancel (s : InFlightQueries) (f : Nat) : Option InFlightQueries :=
  match s.followers[f]? with
  | some x => if x.live then some (s.endFollower f x .cancelled) else none
  | none => none

/-! ## The machine -/

inductive Act where
  | join (k : CacheKey)
  | publishSend (l : Nat) (packet : Bytes)
  | publishRemove (l : Nat)
  | dropRemove (l : Nat)
  | dropFields (l : Nat)
  | borrow (f : Nat)
  | changed (f : Nat)
  | cancel (f : Nat)
deriving DecidableEq, Repr

def step (s : InFlightQueries) : Act → Option InFlightQueries
  | .join k => some (s.join k).1
  | .publishSend l packet => s.publishSend l packet
  | .publishRemove l => s.publishRemove l
  | .dropRemove l => s.dropRemove l
  | .dropFields l => s.dropFields l
  | .borrow f => s.borrow f
  | .changed f => s.changed f
  | .cancel f => s.cancel f

def machine : Machine InFlightQueries Act := ⟨new, step⟩

/-! ## What a step does -/

/-- The steps by their effect, with what each one finds. -/
inductive Move (s : InFlightQueries) : Act → InFlightQueries → Prop where
  | lead {k : CacheKey} :
      s.entries k = none →
      Move s (.join k) (s.join k).1
  | follow {k : CacheKey} {l : Nat} :
      s.entries k = some l →
      Move s (.join k) { s.onChan l Watch.subscribe with
        followers := s.followers ++ [⟨l, (s.chans l).version, .borrow⟩] }
  | send {l : Nat} {k : CacheKey} {packet : Bytes} :
      s.leaders l = some ⟨k, .held⟩ →
      Move s (.publishSend l packet)
        { (s.onChan l (·.send (some packet))).setLeader l (some ⟨k, .sent⟩) with
          published := Function.update s.published l (some packet) }
  | unlink {a : Act} {l : Nat} {k : CacheKey} {stage : LeaderStage} :
      s.leaders l = some ⟨k, stage⟩ →
      stage ≠ .unlinked →
      Move s a ((s.removeEntry k).setLeader l (some ⟨k, .unlinked⟩))
  | close {l : Nat} {k : CacheKey} :
      s.leaders l = some ⟨k, .unlinked⟩ →
      Move s (.dropFields l) ((s.onChan l Watch.dropSender).setLeader l none)
  | take {f l seen : Nat} {packet : Bytes} :
      s.followers[f]? = some ⟨l, seen, .borrow⟩ →
      (s.chans l).value = some packet →
      Move s (.borrow f) (s.endFollower f ⟨l, seen, .borrow⟩ (.done (some packet)))
  | sleep {f l seen : Nat} :
      s.followers[f]? = some ⟨l, seen, .borrow⟩ →
      (s.chans l).value = none →
      Move s (.borrow f) (s.setFollower f ⟨l, (s.chans l).version, .changed⟩)
  | wake {f l seen : Nat} :
      s.followers[f]? = some ⟨l, seen, .changed⟩ →
      (s.chans l).changed seen = .ready →
      Move s (.changed f) (s.setFollower f ⟨l, (s.chans l).version, .borrow⟩)
  | giveUp {f l seen : Nat} :
      s.followers[f]? = some ⟨l, seen, .changed⟩ →
      (s.chans l).changed seen = .closed →
      Move s (.changed f) (s.endFollower f ⟨l, seen, .changed⟩ (.done none))
  | cancel {f : Nat} {x : FlightFollower} :
      s.followers[f]? = some x →
      x.live = true →
      Move s (.cancel f) (s.endFollower f x .cancelled)

theorem step_move {s s' : InFlightQueries} {a : Act} (h : s.step a = some s') : Move s a s' := by
  cases a with
  | join k =>
      obtain rfl := Option.some.inj h
      cases hk : s.entries k with
      | none => exact .lead hk
      | some l =>
          rw [join, hk]
          exact .follow hk
  | publishSend l packet =>
      simp only [step, publishSend] at h
      split at h
      · next k hl =>
          obtain rfl := Option.some.inj h
          exact .send hl
      · cases h
  | publishRemove l =>
      simp only [step, publishRemove] at h
      split at h
      · next k hl =>
          obtain rfl := Option.some.inj h
          exact .unlink hl nofun
      · cases h
  | dropRemove l =>
      simp only [step, dropRemove] at h
      split at h
      · next k hl =>
          obtain rfl := Option.some.inj h
          exact .unlink hl nofun
      · cases h
  | dropFields l =>
      simp only [step, dropFields] at h
      split at h
      · next k hl =>
          obtain rfl := Option.some.inj h
          exact .close hl
      · cases h
  | borrow f =>
      simp only [step, borrow] at h
      split at h
      · next l seen hf =>
          split at h
          · next packet hv =>
              obtain rfl := Option.some.inj h
              exact .take hf hv
          · next hv =>
              obtain rfl := Option.some.inj h
              exact .sleep hf hv
      · cases h
  | changed f =>
      simp only [step, changed] at h
      split at h
      · next l seen hf =>
          split at h
          · next hc =>
              obtain rfl := Option.some.inj h
              exact .wake hf hc
          · next hc =>
              obtain rfl := Option.some.inj h
              exact .giveUp hf hc
          · cases h
      · cases h
  | cancel f =>
      simp only [step, cancel] at h
      split at h
      · next x hf =>
          split at h
          · next hlive =>
              obtain rfl := Option.some.inj h
              exact .cancel hf hlive
          · cases h
      · cases h

end InFlightQueries

end DnsRelay
