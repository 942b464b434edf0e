import DnsRelay.Lib.Machine
import DnsRelay.Relay.Resolver

/-!
# Asking the upstream

`resolveTransport` asks a relay when relays are enabled, and otherwise the
resolvers of the picker.  A reply counts only when `isUsableResponse` accepts
it.  In secure mode this includes the test for a sinkhole.

With two candidates the second one is asked when the first has failed or is
late.  `Hedge` is the point that `resolve_candidates` has reached, and
`hedgeMachine` moves it when an attempt finishes or a timer fires.  The events
carry the time since the start and what the network replied, so their order is
any order.  `Hedge.Move` lists what an event can do at each point.
-/

namespace DnsRelay

open Lib

/-! ## The acceptance test -/

/-- `is_usable_response`. -/
def isUsableResponse (packet : Bytes) (rejectUnspecified : Bool) : Bool :=
  if packet.length < 12 then false
  else
    let flags := u16At packet 2
    let rcode := flags &&& 0x000F
    decide (flags &&& 0x8000 ≠ 0) && decide (flags &&& 0x0200 = 0) && decide (rcode ≠ 2) &&
      decide (rcode ≠ 5) && (!rejectUnspecified || !responseHasOnlyUnspecifiedAddresses packet)

/-- In secure mode an accepted packet is no sinkhole. -/
theorem specified_of_usable {packet : Bytes} (h : isUsableResponse packet true = true) :
    responseHasOnlyUnspecifiedAddresses packet = false := by
  rw [isUsableResponse] at h
  split at h
  · cases h
  · simp only [Bool.and_eq_true, Bool.not_true, Bool.false_or, Bool.not_eq_true'] at h
    exact h.2

/-! ## Hedging -/

/-- `RESOLVE_TIMEOUT`. -/
def resolveTimeout : Nat := fromSecs 2

/-- `Duration::from_millis`. -/
def fromMillis (n : Nat) : Nat := n * 1000000

/-- `hedge_delay`. -/
def hedgeDelay (rtt : Nat) : Nat := min (max (rtt * 2) (fromMillis 25)) (fromMillis 250)

/-- What both attempts of `resolve_candidates` share. -/
structure Lookup where
  payload : Bytes
  subnet : Option Ipv4Subnet
  primary : Resolver
  rejectUnspecified : Bool
deriving DecidableEq, Repr

/-- `resolve_candidate`, for what the upstream replies. -/
def resolveCandidate (lookup : Lookup) (resolver : Str) (reply : Except Error Bytes) :
    Except Error Bytes :=
  match resolveFromUpstreamInner lookup.payload resolver lookup.subnet true with
  | .error e => .error e
  | .ok _ =>
      match reply with
      | .error e => .error e
      | .ok packet =>
          if isUsableResponse packet lookup.rejectUnspecified then .ok packet
          else .error (.other ("resolver ".toList ++ resolver ++
            " returned an unusable DNS response".toList))

theorem usable_of_resolveCandidate {lookup : Lookup} {resolver : Str}
    {reply : Except Error Bytes} {packet : Bytes}
    (h : resolveCandidate lookup resolver reply = .ok packet) :
    isUsableResponse packet lookup.rejectUnspecified = true := by
  unfold resolveCandidate at h
  split at h
  · cases h
  · split at h
    · cases h
    · split at h
      next huse =>
        cases h
        exact huse
      · cases h

/-- The points at which `resolve_candidates` waits. -/
inductive Hedge where
  | alone
  /-- For the first attempt or the timer. -/
  | first (secondary : Resolver)
  /-- For the second attempt, begun when the first had failed. -/
  | fallback (secondary : Resolver)
  | both (secondary : Resolver)
  /-- For the second attempt, after the first has failed beside it. -/
  | secondaryLeft (secondary : Resolver)
  /-- For the first attempt, after the second has failed beside it. -/
  | primaryLeft
  | finished (result : Except Error Bytes)

inductive HedgeEvent where
  | primary (reply : Except Error Bytes)
  | secondary (reply : Except Error Bytes)
  | hedge
  | deadline

namespace Hedge

/-- A success ends the lookup, and after a failure it goes on. -/
def orElse (result : Except Error Bytes) (next : Hedge) : Hedge :=
  match result with
  | .ok packet => .finished (.ok packet)
  | .error _ => next

def step (lookup : Lookup) (point : Hedge) : Nat × HedgeEvent → Option Hedge
  | (_, .primary reply) =>
      let result := resolveCandidate lookup lookup.primary.addr reply
      match point with
      | .alone | .primaryLeft => some (.finished result)
      | .first secondary => some (orElse result (.fallback secondary))
      | .both secondary => some (orElse result (.secondaryLeft secondary))
      | .fallback _ | .secondaryLeft _ | .finished _ => none
  | (_, .secondary reply) =>
      match point with
      | .fallback secondary | .secondaryLeft secondary =>
          some (.finished (resolveCandidate lookup secondary.addr reply))
      | .both secondary => some (orElse (resolveCandidate lookup secondary.addr reply) .primaryLeft)
      | .alone | .first _ | .primaryLeft | .finished _ => none
  | (elapsed, .hedge) =>
      match point with
      | .first secondary =>
          if hedgeDelay lookup.primary.latency ≤ elapsed then some (.both secondary) else none
      | _ => none
  | (elapsed, .deadline) =>
      match point with
      | .finished _ => none
      | _ => if resolveTimeout ≤ elapsed then some (.finished (.error .resolveTimeout)) else none

end Hedge

/-- `resolve_candidates` under the deadline. -/
def hedgeMachine (lookup : Lookup) (secondary : Option Resolver) :
    Machine Hedge (Nat × HedgeEvent) where
  init := match secondary with
    | none => .alone
    | some secondary => .first secondary
  step := Hedge.step lookup

namespace Hedge

/-- What an event does at a point. -/
inductive Move (lookup : Lookup) : Hedge → Nat × HedgeEvent → Hedge → Prop where
  | alone {elapsed : Nat} {reply : Except Error Bytes} :
      Move lookup .alone (elapsed, .primary reply)
        (.finished (resolveCandidate lookup lookup.primary.addr reply))
  | primaryLast {elapsed : Nat} {reply : Except Error Bytes} :
      Move lookup .primaryLeft (elapsed, .primary reply)
        (.finished (resolveCandidate lookup lookup.primary.addr reply))
  | first {elapsed : Nat} {reply : Except Error Bytes} {secondary : Resolver} :
      Move lookup (.first secondary) (elapsed, .primary reply)
        (orElse (resolveCandidate lookup lookup.primary.addr reply) (.fallback secondary))
  | primary {elapsed : Nat} {reply : Except Error Bytes} {secondary : Resolver} :
      Move lookup (.both secondary) (elapsed, .primary reply)
        (orElse (resolveCandidate lookup lookup.primary.addr reply) (.secondaryLeft secondary))
  | secondary {elapsed : Nat} {reply : Except Error Bytes} {secondary : Resolver} :
      Move lookup (.both secondary) (elapsed, .secondary reply)
        (orElse (resolveCandidate lookup secondary.addr reply) .primaryLeft)
  | fallback {elapsed : Nat} {reply : Except Error Bytes} {secondary : Resolver} :
      Move lookup (.fallback secondary) (elapsed, .secondary reply)
        (.finished (resolveCandidate lookup secondary.addr reply))
  | secondaryLast {elapsed : Nat} {reply : Except Error Bytes} {secondary : Resolver} :
      Move lookup (.secondaryLeft secondary) (elapsed, .secondary reply)
        (.finished (resolveCandidate lookup secondary.addr reply))
  | hedge {elapsed : Nat} {secondary : Resolver} :
      hedgeDelay lookup.primary.latency ≤ elapsed →
      Move lookup (.first secondary) (elapsed, .hedge) (.both secondary)
  | deadline {elapsed : Nat} {point : Hedge} :
      (∀ result, point ≠ .finished result) → resolveTimeout ≤ elapsed →
      Move lookup point (elapsed, .deadline) (.finished (.error .resolveTimeout))

theorem move_of_step {lookup : Lookup} {point point' : Hedge} {event : Nat × HedgeEvent}
    (h : step lookup point event = some point') : Move lookup point event point' := by
  obtain ⟨elapsed, event⟩ := event
  cases event with
  | primary reply =>
      cases point with
      | alone => cases h; exact .alone
      | primaryLeft => cases h; exact .primaryLast
      | first secondary => cases h; exact .first
      | both secondary => cases h; exact .primary
      | fallback secondary | secondaryLeft secondary | finished result => cases h
  | secondary reply =>
      cases point with
      | fallback secondary => cases h; exact .fallback
      | secondaryLeft secondary => cases h; exact .secondaryLast
      | both secondary => cases h; exact .secondary
      | alone | first secondary | primaryLeft | finished result => cases h
  | hedge =>
      simp only [step] at h
      split at h
      · split at h
        · next hdelay =>
            cases h
            exact .hedge hdelay
        · cases h
      · cases h
  | deadline =>
      simp only [step] at h
      split at h
      · cases h
      · next hrunning =>
          split at h
          · next htime =>
              cases h
              exact .deadline hrunning htime
          · cases h

/-- A lookup that has ended well has a packet that passes the test. -/
def Usable (rejectUnspecified : Bool) (point : Hedge) : Prop :=
  ∀ packet, point = .finished (.ok packet) → isUsableResponse packet rejectUnspecified = true

theorem usable_finished {lookup : Lookup} {resolver : Str} {reply : Except Error Bytes} :
    Usable lookup.rejectUnspecified (.finished (resolveCandidate lookup resolver reply)) := by
  intro packet h
  injection h with h
  exact usable_of_resolveCandidate h

theorem usable_orElse {lookup : Lookup} {resolver : Str} {reply : Except Error Bytes}
    {next : Hedge} (hnext : Usable lookup.rejectUnspecified next) :
    Usable lookup.rejectUnspecified (orElse (resolveCandidate lookup resolver reply) next) := by
  unfold orElse
  split
  next packet hr =>
    rw [← hr]
    exact usable_finished
  · exact hnext

theorem usable_step {lookup : Lookup} {point point' : Hedge} {event : Nat × HedgeEvent}
    (h : step lookup point event = some point') : Usable lookup.rejectUnspecified point' := by
  cases move_of_step h with
  | alone | primaryLast | fallback | secondaryLast => exact usable_finished
  | first | primary | secondary =>
      refine usable_orElse fun packet h => ?_
      cases h
  | hedge | deadline =>
      intro packet h
      cases h

theorem usable_reach {lookup : Lookup} {secondary : Option Resolver} {point : Hedge}
    (h : (hedgeMachine lookup secondary).Reach point) :
    Usable lookup.rejectUnspecified point := by
  refine Machine.ReachBy.invariant (P := Usable lookup.rejectUnspecified) ?_ ?_ h
  · cases secondary with
    | none => nofun
    | some r => nofun
  · intro s a s' _ _ hs
    exact usable_step hs

end Hedge

/-- `resolve_packet_for_subnet`.  There is no result while it still waits. -/
def ResolverPicker.resolvePacketForSubnet (S : UnstableSort) (picker : ResolverPicker)
    (payload : Bytes) (subnet : Option Ipv4Subnet) (preferDoh : Bool)
    (events : List (Nat × HedgeEvent)) : Option (Except Error Bytes) :=
  match picker.candidates S preferDoh with
  | [] => some (.error .noHealthyResolvers)
  | primary :: rest =>
      let M := hedgeMachine ⟨payload, subnet, primary, picker.secureOnly⟩ rest.head?
      match M.run M.init events with
      | some (.finished result) => some result
      | _ => none

theorem ResolverPicker.resolvePacket_usable {S : UnstableSort} {picker : ResolverPicker}
    {payload : Bytes} {subnet : Option Ipv4Subnet} {preferDoh : Bool}
    {events : List (Nat × HedgeEvent)} {packet : Bytes}
    (h : picker.resolvePacketForSubnet S payload subnet preferDoh events = some (.ok packet)) :
    isUsableResponse packet picker.secureOnly = true := by
  rw [resolvePacketForSubnet] at h
  split at h
  · cases h
  · simp only at h
    split at h
    next result hrun =>
      cases h
      exact Hedge.usable_reach (Machine.reach_of_run hrun) packet rfl
    · cases h

/-! ## Relays and resolvers -/

/-- What the network does during one lookup. -/
structure Network where
  /-- What a relay replies to a query for a domain, unless its time is up. -/
  relay : Str → Bytes → Option (Except Error Bytes)
  events : List (Nat × HedgeEvent)

/-- `resolve_transport`. -/
def resolveTransport (S : UnstableSort) (domain : Str) (payload : Bytes)
    (effectiveSubnet : Option Ipv4Subnet) (preferDoh : Bool) (picker : ResolverPicker)
    (relayed : Bool) (net : Network) : Option (Except Error Bytes) :=
  if relayed then
    match setEcsIpv4Subnet payload effectiveSubnet with
    | none => some (.error (.other "failed to add ECS to relay query".toList))
    | some payload =>
        match net.relay domain payload with
        | none => some (.error .resolveTimeout)
        | some (.error e) => some (.error e)
        | some (.ok reply) =>
            if isUsableResponse reply picker.secureOnly then some (.ok reply)
            else some (.error (.other "relay returned an unusable DNS response".toList))
  else picker.resolvePacketForSubnet S payload effectiveSubnet preferDoh net.events

/-- Both ways only return what passes the test. -/
theorem resolveTransport_usable {S : UnstableSort} {domain : Str} {payload : Bytes}
    {subnet : Option Ipv4Subnet} {preferDoh relayed : Bool} {picker : ResolverPicker}
    {net : Network} {packet : Bytes}
    (h : resolveTransport S domain payload subnet preferDoh picker relayed net =
      some (.ok packet)) : isUsableResponse packet picker.secureOnly = true := by
  cases relayed with
  | false => exact ResolverPicker.resolvePacket_usable h
  | true =>
      simp only [resolveTransport, if_true] at h
      cases hecs : setEcsIpv4Subnet payload subnet with
      | none =>
          rw [hecs] at h
          cases h
      | some sent =>
          simp only [hecs] at h
          split at h
          · cases h
          · cases h
          · split at h
            next huse =>
              cases h
              exact huse
            · cases h

end DnsRelay
