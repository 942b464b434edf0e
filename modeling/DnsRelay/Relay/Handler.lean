import DnsRelay.Relay.InFlightInvariant
import DnsRelay.Relay.Transport
import DnsRelay.Shared.DomainTrie
import DnsRelay.Shared.Subnet

/-!
# Handling queries

`resolve_query` answers a query from the rules, from the cache, from a query
in flight or from the upstream.  `Handler` is the state that all calls share,
with the calls themselves, and `Handler.machine` is their interleaving.

A call runs by itself between two uses of shared state, and each use of shared
state is one step.  What an upstream does during a lookup touches nothing that
is shared, so a lookup with the store that follows it is one step.  The times
of the clock and the replies of the network are part of the actions.

Every reply carries where it came from.  A follower's reply has the origin of
what its leader published.
-/

namespace DnsRelay

open Lib

/-- The counters of `MetricWrapper` that are raised for a query. -/
inductive Counter where
  | resolvedCount
  | failedCount
  | timeoutCount
  | redirectCount
  | dropCount
  | cachedCount
deriving DecidableEq, Repr

/-! ## Calls -/

/-- `HandleQueryParams`: the parts that differ between calls. -/
structure Query where
  payload : Bytes
  srcAddr : SocketAddr
  ruleTrie : DomainTrie

/-- `req_txid`. -/
def Query.reqTxid (q : Query) : UInt8 × UInt8 := (byteAt q.payload 0, byteAt q.payload 1)

inductive Source where
  | drop
  | redirect
  | servfail
  | fresh
  | stale
  | upstream
deriving DecidableEq, Repr

def Source.crafted : Source → Bool
  | .drop | .redirect | .servfail => true
  | .fresh | .stale | .upstream => false

structure Reply where
  packet : Bytes
  source : Source
deriving DecidableEq, Repr

def Reply.withTxid (reply : Reply) (txid : UInt8 × UInt8) : Reply :=
  { reply with packet := DnsRelay.withTxid reply.packet txid }

/-- What a call knows once no rule has answered it. -/
structure Keyed where
  domain : Str
  effectiveSubnet : Option Ipv4Subnet
  key : CacheKey
deriving DecidableEq, Repr

inductive Stage where
  | keyed (k : Keyed)
  | missed (k : Keyed)
  | following (f : Nat)
  | resolving (l : Nat) (k : Keyed)
  | publishing (l : Nat) (reply : Reply)
  /-- In `publish`, after the send. -/
  | sent (l : Nat) (reply : Reply)
  | done (reply : Option Reply)
  | cancelled
deriving DecidableEq, Repr

/-- A call of `resolve_query`. -/
structure Call where
  query : Query
  stage : Stage

/-! ## Rules and keys -/

/-- `RelayPicker`: the networks it knows.  Its instances are part of the
network. -/
structure RelayPicker where
  configuredSubnet : Option Ipv4Subnet
  discoveredSubnet : Option Ipv4Subnet
deriving DecidableEq, Repr

/-- `RelayPicker::effective_subnet`. -/
def RelayPicker.effectiveSubnet (picker : RelayPicker) (clientAddr : SocketAddr) :
    Option Ipv4Subnet :=
  effectiveIpv4Subnet picker.configuredSubnet clientAddr picker.discoveredSubnet

def subnetOf (relayPicker : Option RelayPicker) (srcAddr : SocketAddr) : Option Ipv4Subnet :=
  match relayPicker with
  | some picker => picker.effectiveSubnet srcAddr
  | none => publicIpv4Subnet srcAddr

/-- `resolve_query` up to the cache: the rules, then the key. -/
def openQuery (U : CaseTable) (relayPicker : Option RelayPicker) (q : Query) : Stage :=
  if q.payload.length < 12 then .done none
  else
    match parseDomain U q.payload 12 with
    | none => .done none
    | some (domain, qnameEnd) =>
        match checkRules U domain q.ruleTrie with
        | .drop => .done ((craftNxdomainResponse q.payload).map (⟨·, .drop⟩))
        | .redirect ips =>
            .done ((craftRedirectResponse q.payload qnameEnd ips).map (⟨·, .redirect⟩))
        | .none =>
            let effectiveSubnet := subnetOf relayPicker q.srcAddr
            match cacheKeyFromQueryForSubnet U q.payload effectiveSubnet with
            | none => .done none
            | some key => .keyed ⟨domain, effectiveSubnet, key⟩

/-- A call is refused, answered by a rule, or let in with a key. -/
theorem openQuery_cases (U : CaseTable) (relayPicker : Option RelayPicker) (q : Query) :
    openQuery U relayPicker q = .done none ∨
      (∃ packet, craftNxdomainResponse q.payload = some packet ∧
        openQuery U relayPicker q = .done (some ⟨packet, .drop⟩)) ∨
      (∃ qnameEnd ips packet, craftRedirectResponse q.payload qnameEnd ips = some packet ∧
        openQuery U relayPicker q = .done (some ⟨packet, .redirect⟩)) ∨
      ∃ k, 12 ≤ q.payload.length ∧ openQuery U relayPicker q = .keyed k := by
  rw [openQuery]
  split
  · exact .inl rfl
  next h12 =>
    split
    · exact .inl rfl
    next domain qnameEnd _ =>
      split
      · cases hcraft : craftNxdomainResponse q.payload with
        | none => exact .inl rfl
        | some packet => exact .inr (.inl ⟨packet, rfl, rfl⟩)
      next ips _ =>
        cases hcraft : craftRedirectResponse q.payload qnameEnd ips with
        | none => exact .inl rfl
        | some packet => exact .inr (.inr (.inl ⟨qnameEnd, ips, packet, hcraft, rfl⟩))
      · simp only
        split
        · exact .inl rfl
        · exact .inr (.inr (.inr ⟨_, Nat.le_of_not_lt h12, rfl⟩))

/-! ## The shared state -/

/-- What the calls share, and the calls. -/
structure Handler (M : EvictingMap CacheKey CacheEntry) where
  cache : M.State
  flights : InFlightQueries
  /-- Where the packet that a flight has published comes from. -/
  origins : Nat → Source
  relayPicker : Option RelayPicker
  /-- The discovered network has changed and the cache is not cleared yet. -/
  clearing : Bool
  calls : List Call

/-- The steps that a leader or a follower makes by itself: the end of
`publish`, the end of a drop, and the loop of `wait`. -/
def InFlightQueries.Act.ofHandle : InFlightQueries.Act → Bool
  | .publishRemove _ | .dropFields _ | .borrow _ | .changed _ => true
  | .join _ | .publishSend _ _ | .dropRemove _ | .cancel _ => false

theorem InFlightQueries.Act.releases_of_ofHandle {a : InFlightQueries.Act}
    (h : a.ofHandle = true) : a.releases = none := by
  cases a with
  | publishRemove _ | dropFields _ | borrow _ | changed _ => rfl
  | join _ | publishSend _ _ | dropRemove _ | cancel _ => cases h

namespace Handler

section Steps

variable (U : CaseTable) (S : UnstableSort) (M : EvictingMap CacheKey CacheEntry)

def new (relayPicker : Option RelayPicker) : Handler M where
  cache := M.empty
  flights := .new
  origins _ := .upstream
  relayPicker := relayPicker
  clearing := false
  calls := []

variable {M}

def setStage (s : Handler M) (i : Nat) (q : Query) (stage : Stage) : Handler M :=
  { s with calls := s.calls.set i ⟨q, stage⟩ }

def looked (q : Query) (k : Keyed) : Option Bytes → Stage
  | some cached => .done (some (Reply.withTxid ⟨cached, .fresh⟩ q.reqTxid))
  | none => .missed k

/-- The end of `join`. -/
def joined (k : Keyed) : Flight → Stage
  | .leader l => .resolving l k
  | .follower f => .following f

/-- The response of a leader: what the upstream sent, which is stored, or what
is left in the cache, or SERVFAIL. -/
def respond (cache : M.State) (now : Nat) (q : Query) (k : Keyed) :
    Except Error Bytes → M.State × Option Reply
  | .ok reply => (cacheStore M cache now k.key reply, some ⟨reply, .upstream⟩)
  | .error _ =>
      let looked := cacheLookupStale M cache now k.key
      (looked.1, match looked.2 with
        | some packet => some ⟨packet, .stale⟩
        | none => (craftServfailResponse q.payload).map (⟨·, .servfail⟩))

inductive Act where
  | query (q : Query)
  | lookup (i : Nat) (now : Nat)
  | join (i : Nat)
  | resolve (i : Nat) (now : Nat) (healthy : List Resolver) (preferDoh : Bool) (net : Network)
  | send (i : Nat)
  /-- A leader returns from `publish` and replies. -/
  | finish (i : Nat)
  | answer (i : Nat)
  | cancel (i : Nat)
  | flight (a : InFlightQueries.Act)
  | discover (subnet : Option Ipv4Subnet)
  | clear

/-- `replace_discovered_subnet`, up to the clear. -/
def replaceDiscoveredSubnet (s : Handler M) (subnet : Option Ipv4Subnet) : Option (Handler M) :=
  match s.relayPicker, s.clearing with
  | some picker, false =>
      if picker.discoveredSubnet = subnet then some s
      else some { s with
        relayPicker := some { picker with discoveredSubnet := subnet }
        clearing := true }
  | _, _ => none

/-- What a leader does with its response: publish it, or give up. -/
def conclude (s : Handler M) (i : Nat) (q : Query) (l : Nat) (k : Keyed) (now : Nat)
    (result : Except Error Bytes) : Option (Handler M) :=
  let response := respond s.cache now q k result
  let s := { s with cache := response.1 }
  match response.2 with
  | some reply => some (s.setStage i q (.publishing l (reply.withTxid (0, 0))))
  | none =>
      (s.flights.dropRemove l).map fun flights => { s with flights }.setStage i q (.done none)

def step (secureOnly : Bool) (s : Handler M) : Act → Option (Handler M)
  | .query q => some { s with calls := s.calls ++ [⟨q, openQuery U s.relayPicker q⟩] }
  | .lookup i now =>
      match s.calls[i]? with
      | some ⟨q, .keyed k⟩ =>
          let looked := cacheLookup M s.cache now k.key
          some ({ s with cache := looked.1 }.setStage i q (Handler.looked q k looked.2))
      | _ => none
  | .join i =>
      match s.calls[i]? with
      | some ⟨q, .missed k⟩ =>
          let joined := s.flights.join k.key
          some ({ s with flights := joined.1 }.setStage i q (Handler.joined k joined.2))
      | _ => none
  | .resolve i now healthy preferDoh net =>
      match s.calls[i]? with
      | some ⟨q, .resolving l k⟩ =>
          (resolveTransport S k.domain q.payload k.effectiveSubnet preferDoh
            ⟨healthy, secureOnly⟩ s.relayPicker.isSome net).bind (s.conclude i q l k now)
      | _ => none
  | .send i =>
      match s.calls[i]? with
      | some ⟨q, .publishing l reply⟩ =>
          (s.flights.publishSend l reply.packet).map fun flights =>
            { s with
              flights := flights
              origins := Function.update s.origins l reply.source }.setStage i q (.sent l reply)
      | _ => none
  | .finish i =>
      match s.calls[i]? with
      | some ⟨q, .sent l reply⟩ =>
          if s.flights.leaders l = none then
            some (s.setStage i q (.done (some (reply.withTxid q.reqTxid))))
          else none
      | _ => none
  | .answer i =>
      match s.calls[i]? with
      | some ⟨q, .following f⟩ =>
          match s.flights.followers[f]? with
          | some ⟨l, _, .done packet⟩ =>
              some (s.setStage i q (.done (packet.map fun packet =>
                Reply.withTxid ⟨packet, s.origins l⟩ q.reqTxid)))
          | _ => none
      | _ => none
  | .cancel i =>
      match s.calls[i]? with
      | some ⟨q, .following f⟩ =>
          (s.flights.cancel f).map fun flights => { s with flights }.setStage i q .cancelled
      | some ⟨q, .resolving l _⟩ =>
          (s.flights.dropRemove l).map fun flights => { s with flights }.setStage i q .cancelled
      | _ => none
  | .flight a =>
      if a.ofHandle then (s.flights.step a).map fun flights => { s with flights } else none
  | .discover subnet => s.replaceDiscoveredSubnet subnet
  | .clear =>
      if s.clearing then some { s with cache := M.clear s.cache, clearing := false } else none

/-- The handler with any clients, any network and any clock. -/
def machine (M : EvictingMap CacheKey CacheEntry) (secureOnly : Bool)
    (relayPicker : Option RelayPicker) : Machine (Handler M) Act where
  init := new M relayPicker
  step := step U S secureOnly

end Steps

/-! ## What a step can do -/

section Moves

variable {U : CaseTable} {S : UnstableSort} {M : EvictingMap CacheKey CacheEntry}
  {secureOnly : Bool} {s s' : Handler M}

/-- The steps by their effect, with what each one finds. -/
inductive Move (U : CaseTable) (S : UnstableSort) (secureOnly : Bool) (s : Handler M) :
    Act → Handler M → Prop where
  | query {q : Query} :
      Move U S secureOnly s (.query q)
        { s with calls := s.calls ++ [⟨q, openQuery U s.relayPicker q⟩] }
  | lookup {i now : Nat} {q : Query} {k : Keyed} (found : s.calls[i]? = some ⟨q, .keyed k⟩) :
      Move U S secureOnly s (.lookup i now)
        ({ s with cache := (cacheLookup M s.cache now k.key).1 }.setStage i q
          (looked q k (cacheLookup M s.cache now k.key).2))
  | join {i : Nat} {q : Query} {k : Keyed} (found : s.calls[i]? = some ⟨q, .missed k⟩) :
      Move U S secureOnly s (.join i)
        ({ s with flights := (s.flights.join k.key).1 }.setStage i q
          (joined k (s.flights.join k.key).2))
  | respond {i now : Nat} {healthy : List Resolver} {preferDoh : Bool} {net : Network} {q : Query}
      {l : Nat} {k : Keyed} {result : Except Error Bytes} {reply : Reply}
      (found : s.calls[i]? = some ⟨q, .resolving l k⟩)
      (resolved : resolveTransport S k.domain q.payload k.effectiveSubnet preferDoh
        ⟨healthy, secureOnly⟩ s.relayPicker.isSome net = some result)
      (response : (Handler.respond s.cache now q k result).2 = some reply) :
      Move U S secureOnly s (.resolve i now healthy preferDoh net)
        ({ s with cache := (Handler.respond s.cache now q k result).1 }.setStage i q
          (.publishing l (reply.withTxid (0, 0))))
  | giveUp {i now : Nat} {healthy : List Resolver} {preferDoh : Bool} {net : Network} {q : Query}
      {l : Nat} {k : Keyed} {result : Except Error Bytes} {flights : InFlightQueries}
      (found : s.calls[i]? = some ⟨q, .resolving l k⟩)
      (resolved : resolveTransport S k.domain q.payload k.effectiveSubnet preferDoh
        ⟨healthy, secureOnly⟩ s.relayPicker.isSome net = some result)
      (response : (Handler.respond s.cache now q k result).2 = none)
      (dropped : s.flights.step (.dropRemove l) = some flights) :
      Move U S secureOnly s (.resolve i now healthy preferDoh net)
        ({ s with
          cache := (Handler.respond s.cache now q k result).1
          flights := flights }.setStage i q (.done none))
  | send {i : Nat} {q : Query} {l : Nat} {reply : Reply} {flights : InFlightQueries}
      (found : s.calls[i]? = some ⟨q, .publishing l reply⟩)
      (published : s.flights.step (.publishSend l reply.packet) = some flights) :
      Move U S secureOnly s (.send i)
        ({ s with
          flights := flights
          origins := Function.update s.origins l reply.source }.setStage i q (.sent l reply))
  | finish {i : Nat} {q : Query} {l : Nat} {reply : Reply}
      (found : s.calls[i]? = some ⟨q, .sent l reply⟩) (gone : s.flights.leaders l = none) :
      Move U S secureOnly s (.finish i)
        (s.setStage i q (.done (some (reply.withTxid q.reqTxid))))
  | answer {i : Nat} {q : Query} {f l seen : Nat} {packet : Option Bytes}
      (found : s.calls[i]? = some ⟨q, .following f⟩)
      (returned : s.flights.followers[f]? = some ⟨l, seen, .done packet⟩) :
      Move U S secureOnly s (.answer i)
        (s.setStage i q (.done (packet.map fun packet =>
          Reply.withTxid ⟨packet, s.origins l⟩ q.reqTxid)))
  | cancel {i : Nat} {q : Query} {stage : Stage} {a : InFlightQueries.Act}
      {flights : InFlightQueries} (found : s.calls[i]? = some ⟨q, stage⟩)
      (dropped : s.flights.step a = some flights) (drops : ∀ l packet, a ≠ .publishSend l packet) :
      Move U S secureOnly s (.cancel i) ({ s with flights }.setStage i q .cancelled)
  | flight {a : InFlightQueries.Act} {flights : InFlightQueries} (own : a.ofHandle = true)
      (moved : s.flights.step a = some flights) :
      Move U S secureOnly s (.flight a) { s with flights }
  | rediscover {subnet : Option Ipv4Subnet} : Move U S secureOnly s (.discover subnet) s
  | discover {subnet : Option Ipv4Subnet} {picker : RelayPicker}
      (relayed : s.relayPicker = some picker) :
      Move U S secureOnly s (.discover subnet)
        { s with
          relayPicker := some { picker with discoveredSubnet := subnet }
          clearing := true }
  | clear : Move U S secureOnly s .clear { s with cache := M.clear s.cache, clearing := false }

theorem conclude_move {i now : Nat} {healthy : List Resolver} {preferDoh : Bool} {net : Network}
    {q : Query} {l : Nat} {k : Keyed} {result : Except Error Bytes}
    (found : s.calls[i]? = some ⟨q, .resolving l k⟩)
    (resolved : resolveTransport S k.domain q.payload k.effectiveSubnet preferDoh
      ⟨healthy, secureOnly⟩ s.relayPicker.isSome net = some result)
    (h : s.conclude i q l k now result = some s') :
    Move U S secureOnly s (.resolve i now healthy preferDoh net) s' := by
  simp only [conclude] at h
  cases hr : (Handler.respond s.cache now q k result).2 with
  | some reply =>
      simp only [hr] at h
      cases h
      exact .respond found resolved hr
  | none =>
      simp only [hr] at h
      obtain ⟨flights, hdrop, rfl⟩ := Option.map_eq_some_iff.mp h
      exact .giveUp found resolved hr hdrop

/-- Every step is one of the moves. -/
theorem step_move {a : Act} (h : step U S secureOnly s a = some s') :
    Move U S secureOnly s a s' := by
  cases a with
  | query q =>
      cases h
      exact .query
  | lookup i now =>
      simp only [step] at h
      split at h
      next q k hc =>
        cases h
        exact .lookup hc
      · cases h
  | join i =>
      simp only [step] at h
      split at h
      next q k hc =>
        cases h
        exact .join hc
      · cases h
  | resolve i now healthy preferDoh net =>
      simp only [step] at h
      split at h
      next q l k hc =>
        obtain ⟨result, hresult, hs⟩ := Option.bind_eq_some_iff.mp h
        exact conclude_move hc hresult hs
      · cases h
  | send i =>
      simp only [step] at h
      split at h
      next q l reply hc =>
        obtain ⟨flights, hsent, rfl⟩ := Option.map_eq_some_iff.mp h
        exact .send hc hsent
      · cases h
  | finish i =>
      simp only [step] at h
      split at h
      next q l reply hc =>
        split at h
        next hgone =>
          cases h
          exact .finish hc hgone
        · cases h
      · cases h
  | answer i =>
      simp only [step] at h
      split at h
      next q f hc =>
        split at h
        next l seen packet hf =>
          cases h
          exact .answer hc hf
        · cases h
      · cases h
  | cancel i =>
      simp only [step] at h
      split at h
      next q f hc =>
        obtain ⟨flights, hdrop, rfl⟩ := Option.map_eq_some_iff.mp h
        exact .cancel (a := .cancel f) hc hdrop nofun
      next q l k hc =>
        obtain ⟨flights, hdrop, rfl⟩ := Option.map_eq_some_iff.mp h
        exact .cancel (a := .dropRemove l) hc hdrop nofun
      · cases h
  | flight a =>
      simp only [step] at h
      split at h
      next hown =>
        obtain ⟨flights, hmoved, rfl⟩ := Option.map_eq_some_iff.mp h
        exact .flight hown hmoved
      · cases h
  | discover subnet =>
      simp only [step, replaceDiscoveredSubnet] at h
      split at h
      next picker hp hidle =>
        split at h
        · cases h
          exact .rediscover
        · cases h
          exact .discover hp
      · cases h
  | clear =>
      simp only [step] at h
      split at h
      · cases h
        exact .clear
      · cases h

/-- What a dropped call does to its handle. -/
theorem cancel_cases {i : Nat} (h : step U S secureOnly s (.cancel i) = some s') :
    ∃ q stage flights, s.calls[i]? = some ⟨q, stage⟩ ∧
      s' = { s with flights }.setStage i q .cancelled ∧
      ((∃ f, stage = .following f ∧ s.flights.step (.cancel f) = some flights) ∨
        ∃ l k, stage = .resolving l k ∧ s.flights.step (.dropRemove l) = some flights) := by
  simp only [step] at h
  split at h
  next q f hc =>
    obtain ⟨flights, hdrop, rfl⟩ := Option.map_eq_some_iff.mp h
    exact ⟨q, _, flights, hc, rfl, .inl ⟨f, rfl, hdrop⟩⟩
  next q l k hc =>
    obtain ⟨flights, hdrop, rfl⟩ := Option.map_eq_some_iff.mp h
    exact ⟨q, _, flights, hc, rfl, .inr ⟨l, k, rfl, hdrop⟩⟩
  · cases h

end Moves

end Handler

end DnsRelay
