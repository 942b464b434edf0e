import DnsRelay.Relay.Handler

/-!
# Where packets come from

The flights of a handler are a run of the machine of flights, and its cache is
a run of cache operations that stores only what the transport has accepted.
So the results about flights and about the cache hold of the handler.

`Inv` follows every packet from there.  What is published and what is replied
was made here, or it is a packet that the transport has accepted, with another
identifier and lower times to live.  In secure mode such a packet is no
sinkhole, whatever happens to it on the way.
-/

namespace DnsRelay

open Lib

namespace Handler

/-! ## Origins -/

def queries {M : EvictingMap CacheKey CacheEntry} (s : Handler M) : List Query :=
  s.calls.map Call.query

/-- A packet that the transport has accepted, rewritten. -/
def Accepted (secureOnly : Bool) (packet : Bytes) : Prop :=
  ∃ received, isUsableResponse received secureOnly = true ∧ Rewritten received packet

/-- A SERVFAIL reply to one of the queries, up to its identifier. -/
def Servfail (queries : List Query) (packet : Bytes) : Prop :=
  ∃ q ∈ queries, ∃ reply txid, craftServfailResponse q.payload = some reply ∧
    packet = withTxid reply txid

/-- What a flight carries under an origin. -/
def Shared (secureOnly : Bool) (queries : List Query) : Source → Bytes → Prop
  | .servfail, packet => Servfail queries packet
  | .stale, packet | .upstream, packet => Accepted secureOnly packet
  | .drop, _ | .redirect, _ | .fresh, _ => False

/-- A reply to a query that was made here. -/
def Made (queries : List Query) (q : Query) (reply : Reply) : Prop :=
  match reply.source with
  | .drop => craftNxdomainResponse q.payload = some reply.packet
  | .redirect => ∃ qnameEnd ips, craftRedirectResponse q.payload qnameEnd ips = some reply.packet
  | .servfail => Servfail queries reply.packet
  | .fresh | .stale | .upstream => False

/-- A reply to a query is what its origin says. -/
def Explained (secureOnly : Bool) (queries : List Query) (q : Query) (reply : Reply) : Prop :=
  if reply.source.crafted then Made queries q reply else Accepted secureOnly reply.packet

/-- What a call has to show for its stage. -/
def StageOk (secureOnly : Bool) (queries : List Query) (call : Call) : Prop :=
  match call.stage with
  | .publishing _ reply | .sent _ reply => Shared secureOnly queries reply.source reply.packet
  | .done (some reply) => Explained secureOnly queries call.query reply
  | .done none | .keyed _ | .missed _ | .following _ | .resolving _ _ | .cancelled => True

theorem withTxid_withTxid (p : Bytes) (a b : UInt8 × UInt8) :
    withTxid (withTxid p a) b = withTxid p b := by
  by_cases h : 2 ≤ p.length
  · obtain ⟨x, y, rest, rfl⟩ : ∃ x y rest, p = x :: y :: rest := by
      match p, h with
      | x :: y :: rest, _ => exact ⟨x, y, rest, rfl⟩
    rfl
  · rw [withTxid, if_neg (by rwa [withTxid_length]), withTxid, if_neg h, withTxid, if_neg h]

variable {secureOnly : Bool} {qs qs' : List Query}

theorem Accepted.withTxid {packet : Bytes} (h : Accepted secureOnly packet)
    (txid : UInt8 × UInt8) : Accepted secureOnly (withTxid packet txid) := by
  obtain ⟨received, huse, hr⟩ := h
  exact ⟨received, huse, hr.txid txid⟩

theorem Servfail.withTxid {packet : Bytes} (h : Servfail qs packet) (txid : UInt8 × UInt8) :
    Servfail qs (withTxid packet txid) := by
  obtain ⟨q, hq, reply, old, hcraft, rfl⟩ := h
  exact ⟨q, hq, reply, txid, hcraft, withTxid_withTxid reply old txid⟩

theorem Servfail.mono (hsub : qs ⊆ qs') {packet : Bytes} (h : Servfail qs packet) :
    Servfail qs' packet := by
  obtain ⟨q, hq, hrest⟩ := h
  exact ⟨q, hsub hq, hrest⟩

theorem Shared.withTxid {source : Source} {packet : Bytes} (h : Shared secureOnly qs source packet)
    (txid : UInt8 × UInt8) : Shared secureOnly qs source (withTxid packet txid) := by
  cases source with
  | servfail => exact Servfail.withTxid h txid
  | stale | upstream => exact Accepted.withTxid h txid
  | drop | redirect | fresh => exact h

theorem Shared.mono (hsub : qs ⊆ qs') {source : Source} {packet : Bytes}
    (h : Shared secureOnly qs source packet) : Shared secureOnly qs' source packet := by
  cases source with
  | servfail => exact Servfail.mono hsub h
  | stale | upstream | drop | redirect | fresh => exact h

theorem Shared.explained {reply : Reply} (h : Shared secureOnly qs reply.source reply.packet)
    (q : Query) : Explained secureOnly qs q reply := by
  obtain ⟨packet, source⟩ := reply
  cases source with
  | servfail | stale | upstream => exact h
  | drop | redirect | fresh => exact absurd h id

theorem Explained.mono (hsub : qs ⊆ qs') {q : Query} {reply : Reply}
    (h : Explained secureOnly qs q reply) : Explained secureOnly qs' q reply := by
  obtain ⟨packet, source⟩ := reply
  cases source with
  | servfail => exact Servfail.mono hsub h
  | drop | redirect | fresh | stale | upstream => exact h

theorem StageOk.mono (hsub : qs ⊆ qs') {call : Call} (h : StageOk secureOnly qs call) :
    StageOk secureOnly qs' call := by
  obtain ⟨q, stage⟩ := call
  cases stage with
  | publishing l reply | sent l reply => exact Shared.mono hsub h
  | done reply =>
      cases reply with
      | some reply => exact Explained.mono hsub h
      | none => trivial
  | keyed k | missed k | following f | resolving l k | cancelled => trivial

/-- A call that a rule answers has the reply that was made for it. -/
theorem openQuery_stageOk (U : CaseTable) (relayPicker : Option RelayPicker) (q : Query) :
    StageOk secureOnly qs ⟨q, openQuery U relayPicker q⟩ := by
  obtain hopen | ⟨packet, hcraft, hopen⟩ | ⟨qnameEnd, ips, packet, hcraft, hopen⟩ |
    ⟨k, -, hopen⟩ := openQuery_cases U relayPicker q
  · rw [hopen]
    trivial
  · rw [hopen]
    exact hcraft
  · rw [hopen]
    exact ⟨qnameEnd, ips, hcraft⟩
  · rw [hopen]
    trivial

/-! ## The cache -/

variable {U : CaseTable} {S : UnstableSort} {M : EvictingMap CacheKey CacheEntry}
  {s s' : Handler M}

/-- The operation stores only what the transport accepts. -/
def StoresUsable (secureOnly : Bool) : CacheOp → Prop
  | .store _ packet => isUsableResponse packet secureOnly = true
  | .lookup _ | .lookupStale _ | .clear => True

/-- The cache is the result of such operations. -/
def CacheTraced (secureOnly : Bool) (cache : M.State) : Prop :=
  ∃ ops, cache = cacheRun M ops ∧ ∀ op ∈ ops, StoresUsable secureOnly op.2

theorem CacheTraced.step {cache : M.State} (h : CacheTraced secureOnly cache)
    (op : Nat × CacheOp) (hop : StoresUsable secureOnly op.2) :
    CacheTraced secureOnly (cacheStep M cache op) := by
  obtain ⟨ops, rfl, hops⟩ := h
  refine ⟨ops ++ [op], (cacheRun_append ops op).symm, fun o ho => ?_⟩
  rcases List.mem_append.mp ho with ho | ho
  · exact hops o ho
  · rw [List.mem_singleton.mp ho]
    exact hop

theorem CacheTraced.accepted {cache : M.State} (h : CacheTraced secureOnly cache)
    {key : CacheKey} {entry : CacheEntry} (hfind : M.find cache key = some entry) :
    Accepted secureOnly entry.packet := by
  obtain ⟨ops, rfl, hops⟩ := h
  obtain ⟨t0, packet, ttl, ⟨before, after, rfl, -⟩, -, rfl⟩ := find_cacheRun hfind
  have huse := hops (t0, .store key packet) (by simp)
  exact ⟨packet, huse, Rewritten.refl.txid (0, 0)⟩

theorem Accepted.aged {entry : CacheEntry} (h : Accepted secureOnly entry.packet) {now : Nat}
    {stale : Bool} {packet : Bytes} (hage : agedPacket entry now stale = some packet) :
    Accepted secureOnly packet := by
  obtain ⟨received, huse, hr⟩ := h
  exact ⟨received, huse, hr.aged (ageResponseTtls_of_agedPacket hage)⟩

theorem CacheTraced.looked {cache : M.State} (h : CacheTraced secureOnly cache) (now : Nat)
    (q : Query) (k : Keyed) :
    StageOk secureOnly qs ⟨q, looked q k (cacheLookup M cache now k.key).2⟩ := by
  cases hl : (cacheLookup M cache now k.key).2 with
  | none => trivial
  | some cached =>
      obtain ⟨entry, hfind, -, hage⟩ := cacheLookup_eq_some.mp hl
      exact ((h.accepted hfind).aged hage).withTxid q.reqTxid

/-- The response of a leader, and the cache after it. -/
theorem CacheTraced.respond {cache : M.State} (h : CacheTraced secureOnly cache) {now : Nat}
    {q : Query} (hq : q ∈ qs) {k : Keyed} {result : Except Error Bytes}
    (hresult : ∀ packet, result = .ok packet → isUsableResponse packet secureOnly = true) :
    CacheTraced secureOnly (respond cache now q k result).1 ∧
      ∀ reply, (respond cache now q k result).2 = some reply →
        Shared secureOnly qs (reply.withTxid (0, 0)).source (reply.withTxid (0, 0)).packet := by
  cases result with
  | ok packet =>
      have huse := hresult packet rfl
      refine ⟨h.step (now, .store k.key packet) huse, fun reply hr => ?_⟩
      cases hr
      exact ⟨packet, huse, Rewritten.refl.txid (0, 0)⟩
  | error e =>
      refine ⟨h.step (now, .lookupStale k.key) trivial, fun reply hr => ?_⟩
      simp only [Handler.respond] at hr
      cases hl : (cacheLookupStale M cache now k.key).2 with
      | some packet =>
          rw [hl] at hr
          cases hr
          obtain ⟨entry, hfind, -, -, hage⟩ := cacheLookupStale_eq_some.mp hl
          exact ((h.accepted hfind).aged hage).withTxid (0, 0)
      | none =>
          rw [hl] at hr
          obtain ⟨packet, hcraft, rfl⟩ := Option.map_eq_some_iff.mp hr
          exact ⟨q, hq, packet, (0, 0), hcraft, rfl⟩

/-! ## The invariant -/

/-- What holds of the handler in every run. -/
structure Inv (secureOnly : Bool) (s : Handler M) : Prop where
  flights : InFlightQueries.machine.Reach s.flights
  cache : CacheTraced secureOnly s.cache
  published : ∀ l packet, s.flights.published l = some packet →
    Shared secureOnly s.queries (s.origins l) packet
  calls : ∀ call ∈ s.calls, StageOk secureOnly s.queries call

theorem mem_queries {i : Nat} {q : Query} {stage : Stage} (found : s.calls[i]? = some ⟨q, stage⟩) :
    q ∈ s.queries := List.mem_map_of_mem (List.mem_of_getElem? found)

theorem queries_setStage {i : Nat} {q : Query} {stage : Stage}
    (found : s.calls[i]? = some ⟨q, stage⟩) (stage' : Stage) :
    (s.setStage i q stage').queries = s.queries := by
  refine List.ext_getElem? fun j => ?_
  simp only [queries, setStage, List.getElem?_map]
  by_cases hj : i = j
  · subst hj
    rw [List.getElem?_set_self (List.getElem?_eq_some_iff.mp found).1, found]
    rfl
  · rw [List.getElem?_set_ne hj]

theorem Inv.setStage (hi : Inv secureOnly s) {i : Nat} {q : Query} {stage : Stage}
    (found : s.calls[i]? = some ⟨q, stage⟩) {stage' : Stage}
    (hok : StageOk secureOnly s.queries ⟨q, stage'⟩) :
    Inv secureOnly (s.setStage i q stage') where
  flights := hi.flights
  cache := hi.cache
  published := by
    rw [queries_setStage found]
    exact hi.published
  calls call hcall := by
    rw [queries_setStage found]
    rcases List.mem_or_eq_of_mem_set hcall with hcall | rfl
    · exact hi.calls call hcall
    · exact hok

/-- Steps of the flights that publish nothing. -/
theorem Inv.setFlights (hi : Inv secureOnly s) {a : InFlightQueries.Act}
    {flights : InFlightQueries} (hs : s.flights.step a = some flights)
    (ha : ∀ l packet, a ≠ .publishSend l packet) : Inv secureOnly { s with flights } where
  flights := hi.flights.next a hs
  cache := hi.cache
  published l packet hp := by
    have hsame : flights.published = s.flights.published := InFlightQueries.published_step hs ha
    simp only [hsame] at hp
    exact hi.published l packet hp
  calls := hi.calls

theorem Inv.setCache (hi : Inv secureOnly s) {cache : M.State}
    (hc : CacheTraced secureOnly cache) : Inv secureOnly { s with cache } :=
  { hi with cache := hc }

theorem Inv.addCall (hi : Inv secureOnly s) {call : Call}
    (hok : StageOk secureOnly (s.queries ++ [call.query]) call) :
    Inv secureOnly { s with calls := s.calls ++ [call] } := by
  have hqueries : ({ s with calls := s.calls ++ [call] } : Handler M).queries =
      s.queries ++ [call.query] := by simp [queries]
  have hsub : s.queries ⊆ s.queries ++ [call.query] := List.subset_append_left ..
  refine { hi with published := fun l packet hp => ?_, calls := fun c hc => ?_ }
  · rw [hqueries]
    exact (hi.published l packet hp).mono hsub
  · rw [hqueries]
    rcases List.mem_append.mp hc with hc | hc
    · exact (hi.calls c hc).mono hsub
    · rw [List.mem_singleton.mp hc]
      exact hok

/-- What a leader makes of its lookup. -/
theorem Inv.responded (hi : Inv secureOnly s) {i now : Nat} {healthy : List Resolver}
    {preferDoh : Bool} {net : Network} {q : Query} {l : Nat} {k : Keyed}
    {result : Except Error Bytes} (found : s.calls[i]? = some ⟨q, .resolving l k⟩)
    (resolved : resolveTransport S k.domain q.payload k.effectiveSubnet preferDoh
      ⟨healthy, secureOnly⟩ s.relayPicker.isSome net = some result) :
    Inv secureOnly { s with cache := (respond s.cache now q k result).1 } ∧
      ∀ reply, (respond s.cache now q k result).2 = some reply →
        Shared secureOnly s.queries (reply.withTxid (0, 0)).source
          (reply.withTxid (0, 0)).packet := by
  have husable : ∀ packet, result = .ok packet → isUsableResponse packet secureOnly = true := by
    rintro packet rfl
    exact resolveTransport_usable resolved
  obtain ⟨hcache, hshared⟩ := hi.cache.respond (mem_queries found) husable
  exact ⟨hi.setCache hcache, hshared⟩

theorem inv_step (hi : Inv secureOnly s) {a : Act} (h : step U S secureOnly s a = some s') :
    Inv secureOnly s' := by
  cases step_move h with
  | query => exact hi.addCall (openQuery_stageOk ..)
  | @lookup i now q k found =>
      have hcache := hi.setCache (hi.cache.step (now, .lookup k.key) trivial)
      exact hcache.setStage found (hi.cache.looked now q k)
  | @join i q k found =>
      have hflights := hi.setFlights (a := .join k.key) rfl nofun
      refine hflights.setStage found ?_
      cases (s.flights.join k.key).2 with
      | leader l => trivial
      | follower f => trivial
  | respond found resolved response =>
      obtain ⟨hresponded, hshared⟩ := hi.responded found resolved
      exact hresponded.setStage found (hshared _ response)
  | giveUp found resolved response dropped =>
      obtain ⟨hresponded, -⟩ := hi.responded found resolved
      exact (hresponded.setFlights dropped nofun).setStage found trivial
  | @send i q l reply flights found published =>
      have hshared := hi.calls _ (List.mem_of_getElem? found)
      have hsent : Inv secureOnly { s with
          flights := flights
          origins := Function.update s.origins l reply.source } := by
        refine { hi with
          flights := hi.flights.next (.publishSend l reply.packet) published
          published := fun l' packet hp => ?_ }
        have hpub := InFlightQueries.published_publishSend published
        simp only [hpub] at hp ⊢
        by_cases hl : l' = l
        · subst hl
          rw [Function.update_self] at hp ⊢
          cases hp
          exact hshared
        · rw [Function.update_of_ne hl] at hp ⊢
          exact hi.published l' packet hp
      exact hsent.setStage found hshared
  | @finish i q l reply found gone =>
      have hshared := hi.calls _ (List.mem_of_getElem? found)
      exact hi.setStage found (Shared.explained (Shared.withTxid hshared q.reqTxid) q)
  | @answer i q f l seen packet found returned =>
      refine hi.setStage found ?_
      cases packet with
      | none => trivial
      | some packet =>
          have htook := InFlightQueries.tookPublished_reach hi.flights _
            (List.mem_of_getElem? returned) packet rfl
          have hshared := (hi.published l packet htook).withTxid q.reqTxid
          exact Shared.explained hshared q
  | cancel found dropped drops => exact (hi.setFlights dropped drops).setStage found trivial
  | @flight a flights own moved =>
      refine hi.setFlights moved fun l packet ha => ?_
      rw [ha] at own
      cases own
  | rediscover => exact hi
  | discover relayed => exact { hi with }
  | clear => exact { hi with cache := hi.cache.step (0, .clear) trivial }

theorem inv_reach {relayPicker : Option RelayPicker}
    (h : (machine U S M secureOnly relayPicker).Reach s) : Inv secureOnly s := by
  refine Machine.ReachBy.invariant (P := Inv secureOnly) ?_ ?_ h
  · exact {
      flights := .init
      cache := ⟨[], rfl, nofun⟩
      published := fun l packet hp => nomatch hp
      calls := fun call hc => nomatch hc }
  · intro s a s' hi _ hs
    exact inv_step hi hs

/-! ## The sinkhole guard -/

theorem Accepted.specified {packet : Bytes} (h : Accepted true packet) :
    responseHasOnlyUnspecifiedAddresses packet = false := by
  obtain ⟨received, huse, hr⟩ := h
  rw [hr.onlyUnspecified]
  exact specified_of_usable huse

/-- In secure mode no cached packet and no reply is a sinkhole, but for the
replies that are made here.  Neither a new identifier nor ageing makes a
sinkhole of a packet. -/
theorem sinkhole_guard (U : CaseTable) (S : UnstableSort) (M : EvictingMap CacheKey CacheEntry)
    (relayPicker : Option RelayPicker) {s : Handler M}
    (h : (machine U S M true relayPicker).Reach s) :
    (∀ key entry, M.find s.cache key = some entry →
      responseHasOnlyUnspecifiedAddresses entry.packet = false) ∧
    (∀ call ∈ s.calls, ∀ reply, call.stage = .done (some reply) →
      (reply.source.crafted = true ∧ Made s.queries call.query reply) ∨
      (reply.source.crafted = false ∧
        responseHasOnlyUnspecifiedAddresses reply.packet = false)) ∧
    (∀ packet txid, responseHasOnlyUnspecifiedAddresses (withTxid packet txid) =
      responseHasOnlyUnspecifiedAddresses packet) ∧
    ∀ packet elapsed stale aged, ageResponseTtls packet elapsed stale = (aged, true) →
      responseHasOnlyUnspecifiedAddresses aged = responseHasOnlyUnspecifiedAddresses packet := by
  have hi := inv_reach h
  refine ⟨fun key entry hfind => (hi.cache.accepted hfind).specified, ?_,
    onlyUnspecified_withTxid, fun packet elapsed stale aged => onlyUnspecified_aged⟩
  intro call hcall reply hdone
  have hok := hi.calls call hcall
  rw [StageOk, hdone] at hok
  simp only [Explained] at hok
  split at hok
  next hcrafted => exact .inl ⟨hcrafted, hok⟩
  next hcrafted => exact .inr ⟨Bool.eq_false_iff.mpr hcrafted, hok.specified⟩

/-- A query for the name `a`. -/
def sampleQuery : Query := ⟨addressQuery [1, 0x61, 0], .v4 ⟨127, 0, 0, 1⟩ 53, .new⟩

/-- The first resolver answers with a sinkhole, the second with an address. -/
def sampleNetwork : Network where
  relay _ _ := none
  events := [(0, .primary (.ok (addressResponse [0, 0, 0, 0]))),
    (1, .secondary (.ok (addressResponse [192, 0, 2, 1])))]

/-- A leader, a follower and a call that finds the answer in the cache. -/
def sampleRun : List Act :=
  [.query sampleQuery, .lookup 0 0, .join 0, .query sampleQuery, .lookup 1 0, .join 1,
    .resolve 0 1 [⟨"https://a".toList, 1⟩, ⟨"https://b".toList, 2⟩] false sampleNetwork, .send 0,
    .flight (.publishRemove 0), .flight (.dropFields 0), .finish 0, .flight (.borrow 0),
    .answer 1, .query sampleQuery, .lookup 2 2]

def sampleStages : List Stage :=
  let packet := withTxid (addressResponse [192, 0, 2, 1]) (0, 0)
  [.done (some ⟨packet, .upstream⟩), .done (some ⟨packet, .upstream⟩),
    .done (some ⟨packet, .fresh⟩)]

theorem sample_reach :
    let M := EvictingMap.recent CacheKey CacheEntry (cacheCapacity - 1)
    ∃ s, (machine .ascii .insertion M true none).Reach s ∧
      s.calls.map Call.stage = sampleStages := by
  intro M
  have hrun : ((machine .ascii .insertion M true none).run (new M none) sampleRun).any
      (fun s => s.calls.map Call.stage = sampleStages) = true := by decide +kernel
  obtain ⟨s, hs, hstages⟩ := (Option.any_eq_true _ _).mp hrun
  exact ⟨s, Machine.reach_of_run hs, of_decide_eq_true hstages⟩

theorem sinkhole_guard_three_calls :
    let M := EvictingMap.recent CacheKey CacheEntry (cacheCapacity - 1)
    ∃ s, (machine .ascii .insertion M true none).Reach s ∧
      s.calls.map Call.stage = sampleStages ∧
      ∀ call ∈ s.calls, ∀ reply, call.stage = .done (some reply) →
        (reply.source.crafted = true ∧ Made s.queries call.query reply) ∨
        (reply.source.crafted = false ∧
          responseHasOnlyUnspecifiedAddresses reply.packet = false) := by
  intro M
  obtain ⟨s, hreach, hstages⟩ := sample_reach
  exact ⟨s, hreach, hstages, (sinkhole_guard .ascii .insertion M none hreach).2.1⟩

end Handler

end DnsRelay
