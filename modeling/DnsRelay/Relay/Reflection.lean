import DnsRelay.Relay.Fallback
import DnsRelay.Relay.ReplyHeader

/-!
# Replies to replies

`resolve_query` does not look at the response bit of what it handles.  A reply
that arrives as a datagram is handled like a query, by this server or by a peer
with the same code, and `Asks` says which ones are answered.

Once a call has returned it stays that way.  A call that misses the cache and
leads can always fail and reply with SERVFAIL, so what is not refused at the
door can be answered.
-/

namespace DnsRelay

open Lib

/-- The datagram has a question that the handler answers: the name is dropped,
or the question is whole and the name is not redirected to nowhere. -/
def Asks (U : CaseTable) (q : Query) : Prop :=
  ∃ domain qnameEnd, parseDomain U q.payload 12 = some (domain, qnameEnd) ∧
    (checkRules U domain q.ruleTrie = .drop ∨
      (∃ ips, checkRules U domain q.ruleTrie = .redirect ips ∧
        qnameEnd + 4 ≤ q.payload.length ∧ ips.filterMap parseIpv4Addr ≠ []) ∨
      (checkRules U domain q.ruleTrie = .none ∧ qnameEnd + 4 ≤ q.payload.length))

theorem craftRedirectResponse_eq_none {payload : Bytes} {qnameEnd : Nat} {ips : List Str}
    (h12 : 12 ≤ payload.length) : craftRedirectResponse payload qnameEnd ips = none ↔
      ¬(qnameEnd + 4 ≤ payload.length ∧ ips.filterMap parseIpv4Addr ≠ []) := by
  rw [craftRedirectResponse]
  by_cases hlen : qnameEnd + 4 ≤ payload.length
  · rw [if_neg (by omega)]
    cases hips : ips.filterMap parseIpv4Addr with
    | nil => simp
    | cons ip rest => simp [hlen]
  · rw [if_pos (by omega)]
    simp [hlen]

theorem cacheKey_eq_none {U : CaseTable} {payload : Bytes} {subnet : Option Ipv4Subnet}
    {domain : Str} {qnameEnd : Nat} (h12 : 12 ≤ payload.length)
    (hparse : parseDomain U payload 12 = some (domain, qnameEnd)) :
    cacheKeyFromQueryForSubnet U payload subnet = none ↔ ¬qnameEnd + 4 ≤ payload.length := by
  rw [cacheKeyFromQueryForSubnet, if_neg (by omega), hparse]
  by_cases hlen : payload.length < qnameEnd + 4
  · simp only [if_pos hlen]
    simp
    omega
  · simp only [if_neg hlen]
    simp
    omega

namespace Handler

variable {U : CaseTable} {S : UnstableSort} {M : EvictingMap CacheKey CacheEntry}
  {secureOnly : Bool} {s s' : Handler M}

/-- What asks nothing is refused at the door. -/
theorem openQuery_refused (relayPicker : Option RelayPicker) {q : Query}
    (h12 : 12 ≤ q.payload.length) (h : ¬Asks U q) : openQuery U relayPicker q = .done none := by
  rw [openQuery, if_neg (Nat.not_lt.mpr h12)]
  cases hparse : parseDomain U q.payload 12 with
  | none => rfl
  | some parsed =>
      obtain ⟨domain, qnameEnd⟩ := parsed
      simp only
      cases hrules : checkRules U domain q.ruleTrie with
      | drop => exact absurd ⟨domain, qnameEnd, hparse, .inl hrules⟩ h
      | redirect ips =>
          have hnone : craftRedirectResponse q.payload qnameEnd ips = none := by
            rw [craftRedirectResponse_eq_none h12]
            exact fun hips => h ⟨domain, qnameEnd, hparse, .inr (.inl ⟨ips, hrules, hips⟩)⟩
          simp only [hnone, Option.map_none]
      | none =>
          have hnone : cacheKeyFromQueryForSubnet U q.payload (subnetOf relayPicker q.srcAddr) =
              none := by
            rw [cacheKey_eq_none h12 hparse]
            exact fun hlen => h ⟨domain, qnameEnd, hparse, .inr (.inr ⟨hrules, hlen⟩)⟩
          simp only [hnone]

/-- What asks something is answered there or let in. -/
theorem openQuery_admitted (relayPicker : Option RelayPicker) {q : Query}
    (h12 : 12 ≤ q.payload.length) (h : Asks U q) :
    (∃ reply, openQuery U relayPicker q = .done (some reply)) ∨
      ∃ k, openQuery U relayPicker q = .keyed k := by
  obtain ⟨domain, qnameEnd, hparse, hrules⟩ := h
  simp only [openQuery, if_neg (Nat.not_lt.mpr h12), hparse]
  obtain hrules | ⟨ips, hrules, hips⟩ | ⟨hrules, hlen⟩ := hrules
  · cases hcraft : craftNxdomainResponse q.payload with
    | none =>
        rw [craftNxdomainResponse, craftReply, if_neg (Nat.not_lt.mpr h12)] at hcraft
        cases hcraft
    | some packet =>
        refine .inl ⟨⟨packet, .drop⟩, ?_⟩
        simp only [hrules, Option.map_some]
  · cases hcraft : craftRedirectResponse q.payload qnameEnd ips with
    | none => exact absurd hips ((craftRedirectResponse_eq_none h12).mp hcraft)
    | some packet =>
        refine .inl ⟨⟨packet, .redirect⟩, ?_⟩
        simp only [hrules, hcraft, Option.map_some]
  · cases hkey : cacheKeyFromQueryForSubnet U q.payload (subnetOf relayPicker q.srcAddr) with
    | none => exact absurd hlen ((cacheKey_eq_none h12 hparse).mp hkey)
    | some key =>
        refine .inr ⟨⟨domain, subnetOf relayPicker q.srcAddr, key⟩, ?_⟩
        simp only [hrules]

/-! ## Ends -/

/-- A call that has returned stays that way. -/
theorem done_step {i : Nat} {q : Query} {r : Option Reply}
    (hdone : s.calls[i]? = some ⟨q, .done r⟩) {a : Act}
    (hs : step U S secureOnly s a = some s') : s'.calls[i]? = some ⟨q, .done r⟩ := by
  -- the step of a call that has not returned is of another call
  have hset : ∀ {j : Nat} {q' : Query} {stage : Stage} (call : Call),
      s.calls[j]? = some ⟨q', stage⟩ → stage.returned = false →
      (s.calls.set j call)[i]? = some ⟨q, .done r⟩ := by
    intro j q' stage call found hopen
    have hne : j ≠ i := by
      rintro rfl
      rw [hdone] at found
      cases found
      cases hopen
    rw [List.getElem?_set_ne hne]
    exact hdone
  cases step_move hs with
  | query =>
      exact (List.getElem?_append_left (List.getElem?_eq_some_iff.mp hdone).1).trans hdone
  | lookup found => exact hset _ found rfl
  | join found => exact hset _ found rfl
  | respond found resolved response => exact hset _ found rfl
  | giveUp found resolved response dropped => exact hset _ found rfl
  | send found published => exact hset _ found rfl
  | finish found gone => exact hset _ found rfl
  | answer found returned => exact hset _ found rfl
  | cancel _ _ _ =>
      obtain ⟨q', stage, flights, found, heq, hdrop⟩ := cancel_cases hs
      rw [heq]
      obtain ⟨f, rfl, -⟩ | ⟨l, k, rfl, -⟩ := hdrop
      · exact hset _ found rfl
      · exact hset _ found rfl
  | flight own moved => exact hdone
  | rediscover => exact hdone
  | discover relayed => exact hdone
  | clear => exact hdone

/-- Without resolvers, and when the relays are late, a lookup fails. -/
theorem resolveTransport_fails (S : UnstableSort) (domain : Str) (payload : Bytes)
    (subnet : Option Ipv4Subnet) (secureOnly relayed : Bool) :
    ∃ e, resolveTransport S domain payload subnet false ⟨[], secureOnly⟩ relayed
      ⟨fun _ _ => none, []⟩ = some (.error e) := by
  cases relayed with
  | false =>
      have hnone : (ResolverPicker.mk [] secureOnly).candidates S false = [] := by
        rw [List.eq_nil_iff_forall_not_mem]
        intro r hr
        exact absurd (ResolverPicker.mem_candidates hr).1 List.not_mem_nil
      refine ⟨.noHealthyResolvers, ?_⟩
      show ResolverPicker.resolvePacketForSubnet S _ _ _ _ _ = _
      rw [ResolverPicker.resolvePacketForSubnet, hnone]
  | true =>
      cases hecs : setEcsIpv4Subnet payload subnet with
      | none => exact ⟨_, by simp only [resolveTransport, if_true, hecs]; rfl⟩
      | some sent => exact ⟨_, by simp only [resolveTransport, if_true, hecs]; rfl⟩

/-- A call that finds nothing in the cache and nobody to follow can fail and
reply. -/
theorem keyed_can_reply {relayPicker : Option RelayPicker} {i : Nat} {q : Query} {k : Keyed}
    (h : (machine U S M secureOnly relayPicker).Reach s)
    (found : s.calls[i]? = some ⟨q, .keyed k⟩) (h12 : 12 ≤ q.payload.length)
    (hcache : M.find s.cache k.key = none) (hentry : s.flights.entries k.key = none) :
    ∃ acts s' reply, (machine U S M secureOnly relayPicker).run s acts = some s' ∧
      s'.calls[i]? = some ⟨q, .done (some reply)⟩ := by
  let s1 := { s with cache := M.touch s.cache k.key }.setStage i q (.missed k)
  have hs1 : step U S secureOnly s (.lookup i 0) = some s1 := by
    simp only [step, found, cacheLookup, hcache, looked]
    rfl
  have found1 : s1.calls[i]? = some ⟨q, .missed k⟩ := getElem?_setStage_self found _
  let s2 := { s1 with flights := (s1.flights.join k.key).1 }.setStage i q
    (.resolving s.flights.nextFlight k)
  have hs2 : step U S secureOnly s1 (.join i) = some s2 := by
    have hjoin : joined k (s1.flights.join k.key).2 = .resolving s.flights.nextFlight k := by
      show joined k (s.flights.join k.key).2 = _
      simp only [InFlightQueries.join, hentry, joined]
    simp only [step, found1, hjoin]
    rfl
  have found2 : s2.calls[i]? = some ⟨q, .resolving s.flights.nextFlight k⟩ :=
    getElem?_setStage_self (s := { s1 with flights := (s1.flights.join k.key).1 }) found1 _
  obtain ⟨hi, hled⟩ := led_reach ((h.next (.lookup i 0) hs1).next (.join i) hs2)
  -- the lookup fails, and the cache is still empty for the key
  obtain ⟨e, hfails⟩ := resolveTransport_fails S k.domain q.payload k.effectiveSubnet secureOnly
    s2.relayPicker.isSome
  obtain ⟨servfail, hcraft⟩ : ∃ servfail, craftServfailResponse q.payload = some servfail := by
    rw [craftServfailResponse, craftReply, if_neg (Nat.not_lt.mpr h12)]
    exact ⟨_, rfl⟩
  have hresponse : (respond s2.cache 0 q k (.error e)).2 = some ⟨servfail, .servfail⟩ := by
    have hfind : M.find s2.cache k.key = none := (M.find_touch ..).trans hcache
    simp only [respond, cacheLookupStale, hfind, hcraft, Option.map_some]
  obtain ⟨s3, key, hs3, found3, hheld, -⟩ := resolve_serving U hi hled found2 hfails hresponse
  obtain ⟨s4, hrun, hdone⟩ := deliver U S secureOnly relayPicker found3 hheld
  have hrun2 : (machine U S M secureOnly relayPicker).run s2
      (.resolve i 0 [] false ⟨fun _ _ => none, []⟩ :: _) = some s4 := Machine.run_cons hs3 hrun
  have hrun1 : (machine U S M secureOnly relayPicker).run s1 (.join i :: _) = some s4 :=
    Machine.run_cons hs2 hrun2
  have hrun0 : (machine U S M secureOnly relayPicker).run s (.lookup i 0 :: _) = some s4 :=
    Machine.run_cons hs1 hrun1
  exact ⟨_, s4, _, hrun0, hdone⟩

/-- A reply arrives as a datagram, at any handler in any state.  It never elicits
another reply iff it asks nothing. -/
theorem reply_elicits_nothing_iff (U : CaseTable) (S S' : UnstableSort)
    (M M' : EvictingMap CacheKey CacheEntry) (secureOnly secureOnly' : Bool)
    (relayPicker relayPicker' : Option RelayPicker) {s : Handler M}
    (h : (machine U S M secureOnly relayPicker).Reach s) {call : Call} (hcall : call ∈ s.calls)
    {reply : Reply} (hreply : call.stage = .done (some reply)) (srcAddr : SocketAddr)
    (ruleTrie : DomainTrie) :
    (∀ t, (machine U S' M' secureOnly' relayPicker').Reach t → ∀ acts t',
      (machine U S' M' secureOnly' relayPicker').run t
        (.query ⟨reply.packet, srcAddr, ruleTrie⟩ :: acts) = some t' →
      ∀ reply', t'.calls[t.calls.length]? ≠
        some ⟨⟨reply.packet, srcAddr, ruleTrie⟩, .done (some reply')⟩) ↔
      ¬Asks U ⟨reply.packet, srcAddr, ruleTrie⟩ := by
  obtain ⟨hi, -⟩ := stamps_reach h
  have hok := hi.calls call hcall
  rw [StageOk, hreply] at hok
  obtain ⟨h12, -⟩ := Explained.responseHeader hok
  generalize hq : (⟨reply.packet, srcAddr, ruleTrie⟩ : Query) = q
  have hlen : 12 ≤ q.payload.length := hq ▸ h12
  constructor
  · intro hnothing hasks
    -- a handler that has just been started
    let t0 := new M' relayPicker'
    let t1 : Handler M' := { t0 with calls := [⟨q, openQuery U relayPicker' q⟩] }
    have ht1 : step U S' secureOnly' t0 (.query q) = some t1 := rfl
    have hreach : (machine U S' M' secureOnly' relayPicker').Reach t0 := .init
    obtain ⟨r, hopen⟩ | ⟨k, hopen⟩ := openQuery_admitted relayPicker' hlen hasks
    · refine hnothing t0 hreach [] t1 (Machine.run_cons ht1 rfl) r ?_
      show some (Call.mk q (openQuery U relayPicker' q)) = _
      rw [hopen]
    · have found : t1.calls[0]? = some ⟨q, .keyed k⟩ := by
        show some (Call.mk q (openQuery U relayPicker' q)) = _
        rw [hopen]
      obtain ⟨acts, t', r, hrun, hdone⟩ := keyed_can_reply (hreach.next (.query q) ht1) found hlen
        (M'.find_empty k.key) rfl
      exact hnothing t0 hreach acts t' (Machine.run_cons ht1 hrun) r hdone
  · intro hasks t ht acts t' hrun r hdone
    obtain ⟨t1, ht1, hrun⟩ := Option.bind_eq_some_iff.mp hrun
    have hrefused : t1.calls[t.calls.length]? = some ⟨q, .done none⟩ := by
      cases ht1
      show (t.calls ++ [Call.mk q (openQuery U t.relayPicker q)])[t.calls.length]? = _
      rw [openQuery_refused t.relayPicker hlen hasks]
      exact List.getElem?_concat_length
    have hend := Machine.Reach.run_keeps
      (P := fun s => s.calls[t.calls.length]? = some ⟨q, .done none⟩)
      (fun _ _ _ _ hp hs => done_step hp hs) (ht.next (.query q) ht1) hrefused hrun
    rw [hend] at hdone
    cases hdone

def bareResponse : Bytes := [0, 0, 0x81, 0x80, 0, 0, 0, 0, 0, 0, 0, 0]

def bareRun : List Act :=
  [.query sampleQuery, .lookup 0 0, .join 0,
    .resolve 0 1 sampleResolvers false ⟨fun _ _ => none, [(0, .primary (.ok bareResponse))]⟩,
    .send 0, .flight (.publishRemove 0), .flight (.dropFields 0), .finish 0]

/-- The bare response is passed on, and nobody answers it. -/
theorem bare_reply_elicits_nothing :
    let M := EvictingMap.recent CacheKey CacheEntry (cacheCapacity - 1)
    ∃ s call, (machine .ascii .insertion M true none).Reach s ∧ call ∈ s.calls ∧
      call.stage = .done (some ⟨bareResponse, .upstream⟩) ∧
      ∀ t, (machine .ascii .insertion M true none).Reach t → ∀ acts t',
        (machine .ascii .insertion M true none).run t
          (.query ⟨bareResponse, .v4 ⟨127, 0, 0, 1⟩ 53, .new⟩ :: acts) = some t' →
        ∀ reply', t'.calls[t.calls.length]? ≠
          some ⟨⟨bareResponse, .v4 ⟨127, 0, 0, 1⟩ 53, .new⟩, .done (some reply')⟩ := by
  intro M
  have hrun : ((machine .ascii .insertion M true none).run (new M none) bareRun).any (fun s =>
      s.calls.any fun call => decide (call.stage = .done (some ⟨bareResponse, .upstream⟩))) =
      true := by decide +kernel
  obtain ⟨s, hs, hcalls⟩ := (Option.any_eq_true _ _).mp hrun
  obtain ⟨call, hcall, hstage⟩ := List.any_eq_true.mp hcalls
  have hstage := of_decide_eq_true hstage
  refine ⟨s, call, Machine.reach_of_run hs, hcall, hstage, ?_⟩
  refine (reply_elicits_nothing_iff .ascii .insertion .insertion M M true true none none
    (Machine.reach_of_run hs) hcall hstage _ _).mpr ?_
  rintro ⟨domain, qnameEnd, hparse, -⟩
  have hnone : parseDomain .ascii bareResponse 12 = none := by decide +kernel
  rw [hnone] at hparse
  cases hparse

/-- The rules drop the name `a`. -/
def droppingTrie : DomainTrie := DomainTrie.insertDrop .ascii .new ['a']

/-- The reply for a dropped name is answered by itself. -/
theorem dropped_name_echoes :
    let M := EvictingMap.recent CacheKey CacheEntry (cacheCapacity - 1)
    ∃ s t packet, (machine .ascii .insertion M true none).run (new M none)
        [.query ⟨sampleQuery.payload, .v4 ⟨127, 0, 0, 1⟩ 53, droppingTrie⟩] = some s ∧
      s.calls[0]?.map Call.stage = some (.done (some ⟨packet, .drop⟩)) ∧
      (machine .ascii .insertion M true none).run s
        [.query ⟨packet, .v4 ⟨127, 0, 0, 1⟩ 53, droppingTrie⟩] = some t ∧
      t.calls[1]?.map Call.stage = some (.done (some ⟨packet, .drop⟩)) := by
  intro M
  have hfirst : openQuery .ascii none ⟨sampleQuery.payload, .v4 ⟨127, 0, 0, 1⟩ 53, droppingTrie⟩ =
      .done (some ⟨overwrite sampleQuery.payload 2 [0x81, 0x83], .drop⟩) := by decide +kernel
  have hsecond : openQuery .ascii none ⟨overwrite sampleQuery.payload 2 [0x81, 0x83],
      .v4 ⟨127, 0, 0, 1⟩ 53, droppingTrie⟩ =
      .done (some ⟨overwrite sampleQuery.payload 2 [0x81, 0x83], .drop⟩) := by decide +kernel
  exact ⟨_, _, _, rfl, congrArg some hfirst, rfl, congrArg some hsecond⟩

end Handler

end DnsRelay
