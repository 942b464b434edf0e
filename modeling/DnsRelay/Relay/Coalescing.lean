import DnsRelay.Relay.Fallback

/-!
# What followers see of their leader

A follower replies with what its leader has published.  The leader's packet is
sent upstream and, when everything fails, it is made into the SERVFAIL that the
followers get too.  Two runs are compared here that differ in the packet of one
query, with the same cache key.

`SameCalls` relates the calls of the two runs.  All other parts of the two
states are equal.  A step of the first run is matched by the same step of the
second, as long as the packet does not show.  `Sheltered` says when that is.
-/

namespace DnsRelay

open Lib

/-! ## The transport -/

/-- Relays do not look at a packet beyond its cache key. -/
def Network.Blind (net : Network) : Prop :=
  ∀ domain payload payload', net.relay domain payload = net.relay domain payload'

/-- A candidate is asked with any packet or with none. -/
theorem resolveCandidate_payload (lookup : Lookup) (payload : Bytes) :
    resolveCandidate { lookup with payload } = resolveCandidate lookup := by
  funext resolver reply
  have hinner : ∀ p, resolveFromUpstreamInner p resolver lookup.subnet true =
      (resolveFromUpstreamInner [] resolver lookup.subnet true).map fun sent =>
        (sent.1, (setEcsIpv4Subnet p lookup.subnet).getD p) := by
    intro p
    simp only [resolveFromUpstreamInner]
    split
    · rfl
    · split
      · rfl
      · split
        · rfl
        · split
          · rfl
          · rfl
  simp only [resolveCandidate]
  rw [hinner payload, hinner lookup.payload]
  cases resolveFromUpstreamInner [] resolver lookup.subnet true with
  | error e => rfl
  | ok sent => rfl

theorem hedgeMachine_payload (lookup : Lookup) (payload : Bytes) (secondary : Option Resolver) :
    hedgeMachine { lookup with payload } secondary = hedgeMachine lookup secondary := by
  have hstep : Hedge.step { lookup with payload } = Hedge.step lookup := by
    funext point event
    obtain ⟨elapsed, event⟩ := event
    cases event with
    | primary reply => simp only [Hedge.step, resolveCandidate_payload]
    | secondary reply => simp only [Hedge.step, resolveCandidate_payload]
    | hedge => rfl
    | deadline => rfl
  simp only [hedgeMachine, hstep]

theorem ResolverPicker.resolvePacketForSubnet_payload (S : UnstableSort) (picker : ResolverPicker)
    (payload payload' : Bytes) (subnet : Option Ipv4Subnet) (preferDoh : Bool)
    (events : List (Nat × HedgeEvent)) :
    picker.resolvePacketForSubnet S payload' subnet preferDoh events =
      picker.resolvePacketForSubnet S payload subnet preferDoh events := by
  simp only [resolvePacketForSubnet]
  cases picker.candidates S preferDoh with
  | nil => rfl
  | cons primary rest =>
      have hsame := hedgeMachine_payload ⟨payload, subnet, primary, picker.secureOnly⟩ payload'
        rest.head?
      simp only [hsame]

/-- Two packets that both have room for the network, or both have none, get the
same result from relays that see the key only. -/
theorem resolveTransport_payload {S : UnstableSort} {domain : Str} {payload payload' : Bytes}
    {subnet : Option Ipv4Subnet} {preferDoh relayed : Bool} {picker : ResolverPicker}
    {net : Network} (hblind : net.Blind)
    (hecs : relayed = true →
      (setEcsIpv4Subnet payload' subnet).isSome = (setEcsIpv4Subnet payload subnet).isSome) :
    resolveTransport S domain payload' subnet preferDoh picker relayed net =
      resolveTransport S domain payload subnet preferDoh picker relayed net := by
  cases relayed with
  | false => exact picker.resolvePacketForSubnet_payload S payload payload' subnet preferDoh _
  | true =>
      have hsome := hecs rfl
      simp only [resolveTransport, if_true]
      cases hp : setEcsIpv4Subnet payload subnet with
      | none =>
          rw [hp, Option.isSome_none, Option.isSome_eq_false_iff,
            Option.isNone_iff_eq_none] at hsome
          rw [hsome]
      | some sent =>
          rw [hp, Option.isSome_some, Option.isSome_iff_exists] at hsome
          obtain ⟨sent', hp'⟩ := hsome
          simp only [hp', hblind domain sent' sent]

/-! ## Two runs -/

def Query.withPayload (q : Query) (payload : Bytes) : Query := { q with payload }

/-- Two stages that are equal, or that have both returned. -/
inductive SameStage : Stage → Stage → Prop where
  | same {stage : Stage} : SameStage stage stage
  | returned {reply reply' : Option Reply} : SameStage (.done reply) (.done reply')

/-- Call `j` of the other run. -/
def otherQuery (i : Nat) (payload : Bytes) (j : Nat) (q : Query) : Query :=
  if j = i then q.withPayload payload else q

/-- The calls of two runs where call `i` has another packet. -/
structure SameCalls (i : Nat) (payload : Bytes) (calls calls' : List Call) : Prop where
  length : calls'.length = calls.length
  others : ∀ j, j ≠ i → calls'[j]? = calls[j]?
  /-- Call `i` has come as far. -/
  call : ∃ q stage stage', calls[i]? = some ⟨q, stage⟩ ∧
    calls'[i]? = some ⟨q.withPayload payload, stage'⟩ ∧ SameStage stage stage'

section SameCalls

variable {i : Nat} {payload : Bytes} {calls calls' : List Call}

/-- A call that has not returned is at the same stage in the other run. -/
theorem SameCalls.found (h : SameCalls i payload calls calls') {j : Nat} {q : Query}
    {stage : Stage} (hj : calls[j]? = some ⟨q, stage⟩) (hopen : stage.returned = false) :
    calls'[j]? = some ⟨otherQuery i payload j q, stage⟩ := by
  by_cases hij : j = i
  · subst hij
    obtain ⟨q0, stage0, stage', hcall, hcall', hsame⟩ := h.call
    rw [hj] at hcall
    cases hcall
    rw [otherQuery, if_pos rfl, hcall']
    cases hsame with
    | same => rfl
    | returned => cases hopen
  · rw [otherQuery, if_neg hij, h.others j hij, hj]

/-- One call goes on in both runs.  Its new stage may depend on its query in
what it has returned. -/
theorem SameCalls.set (h : SameCalls i payload calls calls') {j : Nat} {q : Query}
    {stage : Stage} (hj : calls[j]? = some ⟨q, stage⟩) (next : Query → Stage)
    (hnext : SameStage (next q) (next (q.withPayload payload))) :
    SameCalls i payload (calls.set j ⟨q, next q⟩)
      (calls'.set j ⟨otherQuery i payload j q, next (otherQuery i payload j q)⟩) := by
  have hlt : j < calls.length := (List.getElem?_eq_some_iff.mp hj).1
  have hlt' : j < calls'.length := h.length ▸ hlt
  refine ⟨by rw [List.length_set, List.length_set, h.length], fun n hn => ?_, ?_⟩
  · by_cases hnj : j = n
    · subst hnj
      rw [List.getElem?_set_self hlt, List.getElem?_set_self hlt', otherQuery, if_neg hn]
    · rw [List.getElem?_set_ne hnj, List.getElem?_set_ne hnj, h.others n hn]
  · by_cases hij : j = i
    · subst hij
      rw [List.getElem?_set_self hlt, List.getElem?_set_self hlt', otherQuery, if_pos rfl]
      exact ⟨q, next q, _, rfl, rfl, hnext⟩
    · rw [List.getElem?_set_ne hij, List.getElem?_set_ne hij]
      exact h.call

theorem SameCalls.append (h : SameCalls i payload calls calls') (call : Call) :
    SameCalls i payload (calls ++ [call]) (calls' ++ [call]) := by
  obtain ⟨q, stage, stage', hcall, hcall', hsame⟩ := h.call
  have hlt : i < calls.length := (List.getElem?_eq_some_iff.mp hcall).1
  have hlt' : i < calls'.length := h.length ▸ hlt
  refine ⟨by rw [List.length_append, List.length_append, h.length], fun j hj => ?_, ?_⟩
  · by_cases hj' : j < calls.length
    · rw [List.getElem?_append_left hj', List.getElem?_append_left (h.length ▸ hj')]
      exact h.others j hj
    · rw [List.getElem?_append_right (Nat.le_of_not_lt hj'),
        List.getElem?_append_right (h.length ▸ Nat.le_of_not_lt hj'), h.length]
  · rw [List.getElem?_append_left hlt, List.getElem?_append_left hlt']
    exact ⟨q, stage, stage', hcall, hcall', hsame⟩

end SameCalls

namespace Handler

variable {U : CaseTable} {S : UnstableSort} {M : EvictingMap CacheKey CacheEntry}
  {secureOnly : Bool} {s s' : Handler M}

def Act.resolves : Act → Bool
  | .resolve _ _ _ _ _ => true
  | .query _ | .lookup _ _ | .join _ | .send _ | .finish _ | .answer _ | .cancel _ | .flight _
  | .discover _ | .clear => false

/-- The upstream of call `i` sees the key only. -/
def Act.Blind (i : Nat) : Act → Prop
  | .resolve j _ _ _ net => j = i → net.Blind
  | .query _ | .lookup _ _ | .join _ | .send _ | .finish _ | .answer _ | .cancel _ | .flight _
  | .discover _ | .clear => True

/-- The lookup of a call does not show its packet.  When relays are asked, both
packets can carry the network or neither can, and a failure finds a stale
answer. -/
def Sheltered (S : UnstableSort) (secureOnly : Bool) (i : Nat) (payload : Bytes) (s : Handler M) :
    Act → Prop
  | .resolve j now healthy preferDoh net => j = i → ∀ q l k,
      s.calls[i]? = some ⟨q, .resolving l k⟩ →
      (s.relayPicker.isSome = true → (setEcsIpv4Subnet payload k.effectiveSubnet).isSome =
        (setEcsIpv4Subnet q.payload k.effectiveSubnet).isSome) ∧
      ∀ e, resolveTransport S k.domain q.payload k.effectiveSubnet preferDoh
          ⟨healthy, secureOnly⟩ s.relayPicker.isSome net = some (.error e) →
        ∃ entry, M.find s.cache k.key = some entry ∧ entry.freshUntil ≤ now ∧
          now < entry.staleUntil ∧ (agedPacket entry now true).isSome = true
  | .query _ | .lookup _ _ | .join _ | .send _ | .finish _ | .answer _ | .cancel _ | .flight _
  | .discover _ | .clear => True

/-- A response that the query does not show in. -/
theorem respond_same {cache : M.State} {now : Nat} {q q' : Query} {k : Keyed}
    {result : Except Error Bytes}
    (hstale : ∀ e, result = .error e → ∃ entry, M.find cache k.key = some entry ∧
      entry.freshUntil ≤ now ∧ now < entry.staleUntil ∧ (agedPacket entry now true).isSome = true) :
    respond cache now q' k result = respond cache now q k result := by
  cases result with
  | ok packet => rfl
  | error e =>
      obtain ⟨entry, hfind, hfresh, husable, haged⟩ := hstale e rfl
      obtain ⟨packet, haged⟩ := Option.isSome_iff_exists.mp haged
      have hlook : (cacheLookupStale M cache now k.key).2 = some packet :=
        cacheLookupStale_eq_some.mpr ⟨entry, hfind, hfresh, husable, haged⟩
      simp only [respond, hlook]

section Resolve

variable {i j now l : Nat} {payload : Bytes} {healthy : List Resolver} {preferDoh : Bool}
  {net : Network} {q : Query} {k : Keyed}

/-- A sheltered lookup has the same result and the same response in both
runs. -/
theorem resolve_same (hblind : (Act.resolve j now healthy preferDoh net).Blind i)
    (hshelter : Sheltered S secureOnly i payload s (.resolve j now healthy preferDoh net))
    (found : s.calls[j]? = some ⟨q, .resolving l k⟩) {result : Except Error Bytes}
    (resolved : resolveTransport S k.domain q.payload k.effectiveSubnet preferDoh
      ⟨healthy, secureOnly⟩ s.relayPicker.isSome net = some result) :
    resolveTransport S k.domain (otherQuery i payload j q).payload k.effectiveSubnet preferDoh
        ⟨healthy, secureOnly⟩ s.relayPicker.isSome net = some result ∧
      respond s.cache now (otherQuery i payload j q) k result =
        respond s.cache now q k result := by
  by_cases hij : j = i
  · subst hij
    obtain ⟨hecs, hstale⟩ := hshelter rfl q l k found
    rw [otherQuery, if_pos rfl]
    constructor
    · rw [← resolved]
      exact resolveTransport_payload (hblind rfl) hecs
    · refine respond_same fun e he => ?_
      subst he
      exact hstale e resolved
  · rw [otherQuery, if_neg hij]
    exact ⟨resolved, rfl⟩

end Resolve

/-- The search for the client's network does not touch the calls. -/
theorem replaceDiscoveredSubnet_calls {subnet : Option Ipv4Subnet} (calls' : List Call)
    (hs : s.replaceDiscoveredSubnet subnet = some s') :
    replaceDiscoveredSubnet { s with calls := calls' } subnet =
      some { s' with calls := calls' } := by
  simp only [replaceDiscoveredSubnet] at hs ⊢
  split at hs
  next picker hpicker hidle =>
    simp only [hpicker, hidle]
    split at hs
    next hsame =>
      cases hs
      rw [if_pos hsame, hpicker, hidle]
    next hnew =>
      cases hs
      rw [if_neg hnew]
  · cases hs

/-- A step of one run is a step of the other. -/
theorem step_same {i : Nat} {payload : Bytes} {a : Act} {calls' : List Call}
    (hblind : a.Blind i) (hshelter : Sheltered S secureOnly i payload s a)
    (h : SameCalls i payload s.calls calls') (hs : step U S secureOnly s a = some s') :
    ∃ calls'', step U S secureOnly { s with calls := calls' } a =
        some { s' with calls := calls'' } ∧ SameCalls i payload s'.calls calls'' := by
  cases step_move hs with
  | query => exact ⟨_, rfl, h.append _⟩
  | @lookup j now q k found =>
      have found' := h.found found rfl
      refine ⟨_, ?_, h.set found (fun q => looked q k (cacheLookup M s.cache now k.key).2) ?_⟩
      · simp only [step, found']
        rfl
      · cases (cacheLookup M s.cache now k.key).2 with
        | none => exact .same
        | some packet => exact .returned
  | @join j q k found =>
      have found' := h.found found rfl
      refine ⟨_, ?_, h.set found (fun _ => joined k (s.flights.join k.key).2) .same⟩
      simp only [step, found']
      rfl
  | @respond j now healthy preferDoh net q l k result reply found resolved response =>
      have found' := h.found found rfl
      obtain ⟨hresolved, hresponse⟩ := resolve_same hblind hshelter found resolved
      refine ⟨_, ?_, h.set found (fun _ => .publishing l (reply.withTxid (0, 0))) .same⟩
      simp only [step, found', hresolved, Option.bind_some, conclude, hresponse, response]
      rfl
  | @giveUp j now healthy preferDoh net q l k result flights found resolved response dropped =>
      have found' := h.found found rfl
      obtain ⟨hresolved, hresponse⟩ := resolve_same hblind hshelter found resolved
      have hdrop : s.flights.dropRemove l = some flights := dropped
      refine ⟨_, ?_, h.set found (fun _ => .done none) .same⟩
      simp only [step, found', hresolved, Option.bind_some, conclude, hresponse, response, hdrop,
        Option.map_some]
      rfl
  | @send j q l reply flights found published =>
      have found' := h.found found rfl
      have hsend : s.flights.publishSend l reply.packet = some flights := published
      refine ⟨_, ?_, h.set found (fun _ => .sent l reply) .same⟩
      simp only [step, found', hsend, Option.map_some]
      rfl
  | @finish j q l reply found gone =>
      have found' := h.found found rfl
      refine ⟨_, ?_, h.set found (fun q => .done (some (reply.withTxid q.reqTxid))) .returned⟩
      simp only [step, found', gone, if_true]
      rfl
  | @answer j q f l seen packet found returned =>
      have found' := h.found found rfl
      refine ⟨_, ?_, h.set found (fun q => .done (packet.map fun packet =>
        Reply.withTxid ⟨packet, s.origins l⟩ q.reqTxid)) .returned⟩
      simp only [step, found', returned]
      rfl
  | cancel _ _ _ =>
      obtain ⟨q, stage, flights, found, heq, hdrop⟩ := cancel_cases hs
      rw [heq]
      obtain ⟨f, rfl, hdrop⟩ | ⟨l, k, rfl, hdrop⟩ := hdrop
      · have found' := h.found found rfl
        have hdrop' : s.flights.cancel f = some flights := hdrop
        refine ⟨_, ?_, h.set found (fun _ => .cancelled) .same⟩
        simp only [step, found', hdrop', Option.map_some]
        rfl
      · have found' := h.found found rfl
        have hdrop' : s.flights.dropRemove l = some flights := hdrop
        refine ⟨_, ?_, h.set found (fun _ => .cancelled) .same⟩
        simp only [step, found', hdrop', Option.map_some]
        rfl
  | @flight a flights own moved =>
      refine ⟨calls', ?_, h⟩
      simp only [step, own, if_true, moved, Option.map_some]
  | rediscover => exact ⟨calls', replaceDiscoveredSubnet_calls calls' hs, h⟩
  | discover relayed => exact ⟨calls', replaceDiscoveredSubnet_calls calls' hs, h⟩
  | clear =>
      refine ⟨calls', ?_, h⟩
      by_cases hclearing : s.clearing = true
      · simp only [step, hclearing, if_true]
      · simp only [step, if_neg hclearing] at hs
        cases hs

/-- Two queries with one key pass the rules alike. -/
theorem openQuery_same {relayPicker : Option RelayPicker} {q : Query} {payload : Bytes}
    {key : CacheKey}
    (hkey : cacheKeyFromQueryForSubnet U q.payload (subnetOf relayPicker q.srcAddr) = some key)
    (hkey' : cacheKeyFromQueryForSubnet U payload (subnetOf relayPicker q.srcAddr) = some key) :
    SameStage (openQuery U relayPicker q) (openQuery U relayPicker (q.withPayload payload)) := by
  obtain ⟨hlen, -, qnameEnd, hparse, -⟩ := cacheKey_eq_some hkey
  obtain ⟨hlen', -, qnameEnd', hparse', -⟩ := cacheKey_eq_some hkey'
  simp only [openQuery, Query.withPayload, if_neg (Nat.not_lt.mpr hlen),
    if_neg (Nat.not_lt.mpr hlen'), hparse, hparse', hkey, hkey']
  cases checkRules U key.name q.ruleTrie with
  | drop => exact .returned
  | redirect ips => exact .returned
  | none => exact .same

theorem sameCalls_query (calls : List Call) (q : Query) (payload : Bytes) {stage stage' : Stage}
    (h : SameStage stage stage') : SameCalls calls.length payload (calls ++ [⟨q, stage⟩])
      (calls ++ [⟨q.withPayload payload, stage'⟩]) := by
  refine ⟨by simp, fun j hj => ?_, q, stage, stage', ?_, ?_, h⟩
  · by_cases hlt : j < calls.length
    · rw [List.getElem?_append_left hlt, List.getElem?_append_left hlt]
    · rw [List.getElem?_eq_none (by simp; omega), List.getElem?_eq_none (by simp; omega)]
  · exact List.getElem?_concat_length
  · exact List.getElem?_concat_length

/-- A run of one side is a run of the other. -/
theorem run_same {relayPicker : Option RelayPicker} {i : Nat} {payload : Bytes} {acts : List Act}
    {calls' : List Call}
    (hrun : (machine U S M secureOnly relayPicker).RunBy
      (fun s a => a.Blind i ∧ Sheltered S secureOnly i payload s a) s acts s')
    (h : SameCalls i payload s.calls calls') :
    ∃ calls'', (machine U S M secureOnly relayPicker).run { s with calls := calls' } acts =
        some { s' with calls := calls'' } ∧ SameCalls i payload s'.calls calls'' := by
  have hstep : ∀ (s1 : Handler M) (a : Act) (s2 t1 : Handler M),
      a.Blind i ∧ Sheltered S secureOnly i payload s1 a →
      (∃ calls', t1 = { s1 with calls := calls' } ∧ SameCalls i payload s1.calls calls') →
      step U S secureOnly s1 a = some s2 → ∃ t2, step U S secureOnly t1 a = some t2 ∧
        ∃ calls', t2 = { s2 with calls := calls' } ∧ SameCalls i payload s2.calls calls' := by
    rintro s1 a s2 _ ⟨hblind, hshelter⟩ ⟨calls', rfl, hcalls⟩ hs
    obtain ⟨calls'', hs', hcalls'⟩ := step_same hblind hshelter hcalls hs
    exact ⟨_, hs', calls'', rfl, hcalls'⟩
  obtain ⟨_, hrun', calls'', rfl, hcalls⟩ :=
    hrun.lockstep (N := machine U S M secureOnly relayPicker) hstep ⟨calls', rfl, h⟩
  exact ⟨calls'', hrun', hcalls⟩

/-- A query is replaced by another one with the same key.  In a run where its
lookup is sheltered, everybody else gets the same replies. -/
theorem other_calls_same (U : CaseTable) (S : UnstableSort) (M : EvictingMap CacheKey CacheEntry)
    (secureOnly : Bool) (relayPicker : Option RelayPicker) {s t : Handler M} (q : Query)
    (payload : Bytes) {key : CacheKey}
    (hkey : cacheKeyFromQueryForSubnet U q.payload (subnetOf s.relayPicker q.srcAddr) = some key)
    (hkey' : cacheKeyFromQueryForSubnet U payload (subnetOf s.relayPicker q.srcAddr) = some key)
    {acts : List Act}
    (hrun : (machine U S M secureOnly relayPicker).RunBy
      (fun s' a => a.Blind s.calls.length ∧ Sheltered S secureOnly s.calls.length payload s' a)
      s (.query q :: acts) t) :
    ∃ t', (machine U S M secureOnly relayPicker).run s
        (.query (q.withPayload payload) :: acts) = some t' ∧
      ∀ j, j ≠ s.calls.length → t'.calls[j]? = t.calls[j]? := by
  cases hrun with
  | cons hok hs hrun =>
      cases hs
      have hsame := sameCalls_query s.calls q payload (openQuery_same hkey hkey')
      obtain ⟨calls', hrun', hcalls⟩ := run_same hrun hsame
      exact ⟨_, Option.bind_eq_some_iff.mpr ⟨_, rfl, hrun'⟩, hcalls.others⟩

def cookie : Bytes := [1, 2, 3, 4, 5, 6, 7, 8]

/-- The query of `sampleQuery` with an OPT record that carries the cookie. -/
def cookiePayload : Bytes :=
  overwrite sampleQuery.payload 10 [0, 1] ++
    ([0, 0, 41, 4, 208, 0, 0, 0, 0, 0, 12, 0, 10, 0, 8] ++ cookie)

/-- One client leads and another one follows until the lookup ends. -/
def leadAndFollow (q : Query) : List Act :=
  [.query q, .lookup 0 0, .join 0, .query sampleQuery, .lookup 1 0, .join 1]

/-- The lookup ends, and the second client gets its reply. -/
def endBoth (net : Network) : List Act :=
  [.resolve 0 1 sampleResolvers false net, .send 0, .flight (.borrow 0), .answer 1]

/-- Actions other than the end of a lookup are sheltered. -/
theorem sheltered_quiet {i : Nat} {payload : Bytes} {acts : List Act}
    (hacts : acts.all (fun a => !a.resolves) = true) :
    ∀ a ∈ acts, ∀ s : Handler M, a.Blind i ∧ Sheltered S secureOnly i payload s a := by
  intro a ha s
  have hquiet := List.all_eq_true.mp hacts a ha
  cases a with
  | resolve j now healthy preferDoh net => cases hquiet
  | _ => exact ⟨trivial, trivial⟩

/-- The first client leads and its lookup is next. -/
theorem leadAndFollow_run :
    let M := EvictingMap.recent CacheKey CacheEntry (cacheCapacity - 1)
    ∃ s q t, (machine .ascii .insertion M true none).run (new M none)
        (leadAndFollow sampleQuery) = some s ∧
      s.calls[0]? = some ⟨q, .resolving 0 overlapKeyed⟩ ∧ q.payload = sampleQuery.payload ∧
      s.relayPicker = none ∧
      (machine .ascii .insertion M true none).run s (endBoth sampleNetwork) = some t := by
  intro M
  have hlead : ((machine .ascii .insertion M true none).run (new M none)
      (leadAndFollow sampleQuery)).any (fun s =>
        (s.calls[0]?.any fun call => decide (call.stage = .resolving 0 overlapKeyed ∧
          call.query.payload = sampleQuery.payload)) && decide (s.relayPicker = none) &&
        ((machine .ascii .insertion M true none).run s (endBoth sampleNetwork)).isSome) = true := by
    decide +kernel
  obtain ⟨s, hs, hfacts⟩ := (Option.any_eq_true _ _).mp hlead
  rw [Bool.and_eq_true, Bool.and_eq_true, decide_eq_true_iff] at hfacts
  obtain ⟨⟨hcall, hrelay⟩, hend⟩ := hfacts
  obtain ⟨⟨q, stage⟩, hc, hcall⟩ := (Option.any_eq_true _ _).mp hcall
  obtain ⟨rfl, hpayload⟩ := of_decide_eq_true hcall
  obtain ⟨t, ht⟩ := Option.isSome_iff_exists.mp hend
  exact ⟨s, q, t, hs, hc, hpayload, hrelay, ht⟩

/-- A lookup that is answered and asks no relay is sheltered. -/
theorem sheltered_answered {M : EvictingMap CacheKey CacheEntry} {s : Handler M} {q : Query}
    (hcall : s.calls[0]? = some ⟨q, .resolving 0 overlapKeyed⟩)
    (hpayload : q.payload = sampleQuery.payload) (hrelay : s.relayPicker = none) :
    Sheltered .insertion true 0 cookiePayload s
      (.resolve 0 1 sampleResolvers false sampleNetwork) := by
  have hok : resolveTransport .insertion overlapKeyed.domain sampleQuery.payload
      overlapKeyed.effectiveSubnet false ⟨sampleResolvers, true⟩ false sampleNetwork =
        some (.ok (addressResponse [192, 0, 2, 1])) := by decide +kernel
  intro _ q' l k hcall'
  rw [hcall] at hcall'
  cases hcall'
  rw [hrelay, hpayload]
  refine ⟨fun h => ?_, fun e he => ?_⟩
  · cases h
  · cases hok.symm.trans he

/-- The first client leads a lookup that succeeds.  The second client gets the
same reply if the first one sends a cookie. -/
theorem other_calls_same_success :
    let M := EvictingMap.recent CacheKey CacheEntry (cacheCapacity - 1)
    ∃ t t', (machine .ascii .insertion M true none).run (new M none)
        (leadAndFollow sampleQuery ++ endBoth sampleNetwork) = some t ∧
      (machine .ascii .insertion M true none).run (new M none)
        (leadAndFollow (sampleQuery.withPayload cookiePayload) ++ endBoth sampleNetwork) = some t' ∧
      t'.calls[1]? = t.calls[1]? := by
  intro M
  obtain ⟨s, q, t, hs, hcall, hpayload, hrelay, ht⟩ := leadAndFollow_run
  obtain ⟨s1, hs1, ht1⟩ := Option.bind_eq_some_iff.mp ht
  have hshelter := sheltered_answered hcall hpayload hrelay
  have hblind : (Act.resolve 0 1 sampleResolvers false sampleNetwork).Blind 0 :=
    fun _ _ _ _ => rfl
  have hrun : (machine .ascii .insertion M true none).RunBy
      (fun s' a => a.Blind (new M none).calls.length ∧
        Sheltered .insertion true (new M none).calls.length cookiePayload s' a) (new M none)
      (.query sampleQuery :: ((leadAndFollow sampleQuery).tail ++ endBoth sampleNetwork)) t :=
    (Machine.runBy_of_run (sheltered_quiet (by decide)) hs).append
      (.cons ⟨hblind, hshelter⟩ hs1 (Machine.runBy_of_run (sheltered_quiet (by decide)) ht1))
  have hkey : cacheKeyFromQueryForSubnet .ascii sampleQuery.payload
      (subnetOf (new M none).relayPicker sampleQuery.srcAddr) = some overlapKeyed.key := by
    decide +kernel
  have hkey' : cacheKeyFromQueryForSubnet .ascii cookiePayload
      (subnetOf (new M none).relayPicker sampleQuery.srcAddr) = some overlapKeyed.key := by
    decide +kernel
  obtain ⟨t', ht', hsame⟩ := other_calls_same .ascii .insertion M true none sampleQuery
    cookiePayload hkey hkey' hrun
  refine ⟨t, t', ?_, ht', hsame 1 (by decide)⟩
  rw [Machine.run_append, hs]
  exact ht

/-- Nobody answers.  The second client gets the cookie of the first one. -/
theorem follower_gets_the_cookie :
    let M := EvictingMap.recent CacheKey CacheEntry (cacheCapacity - 1)
    cacheKeyFromQueryForSubnet .ascii sampleQuery.payload none = some overlapKeyed.key ∧
      cacheKeyFromQueryForSubnet .ascii cookiePayload none = some overlapKeyed.key ∧
      deadNetwork.Blind ∧
      ∃ s s' packet packet', (machine .ascii .insertion M true none).run (new M none)
          (leadAndFollow sampleQuery ++ endBoth deadNetwork) = some s ∧
        (machine .ascii .insertion M true none).run (new M none)
          (leadAndFollow (sampleQuery.withPayload cookiePayload) ++ endBoth deadNetwork) =
            some s' ∧
        s.calls[1]?.map Call.stage = some (.done (some ⟨packet, .servfail⟩)) ∧
        s'.calls[1]?.map Call.stage = some (.done (some ⟨packet', .servfail⟩)) ∧
        packet ≠ packet' ∧ cookie <:+ packet' := by
  intro M
  refine ⟨by decide +kernel, by decide +kernel, fun _ _ _ => rfl, ?_⟩
  have hrun : ((machine .ascii .insertion M true none).run (new M none)
      (leadAndFollow sampleQuery ++ endBoth deadNetwork)).any (fun s =>
        decide (s.calls[1]?.map Call.stage =
          some (.done (some ⟨overwrite sampleQuery.payload 2 [0x81, 0x82], .servfail⟩)))) =
      true := by decide +kernel
  have hrun' : ((machine .ascii .insertion M true none).run (new M none)
      (leadAndFollow (sampleQuery.withPayload cookiePayload) ++ endBoth deadNetwork)).any (fun s =>
        decide (s.calls[1]?.map Call.stage =
          some (.done (some ⟨overwrite cookiePayload 2 [0x81, 0x82], .servfail⟩)))) =
      true := by decide +kernel
  obtain ⟨s, hs, hstage⟩ := (Option.any_eq_true _ _).mp hrun
  obtain ⟨s', hs', hstage'⟩ := (Option.any_eq_true _ _).mp hrun'
  exact ⟨s, s', _, _, hs, hs', of_decide_eq_true hstage, of_decide_eq_true hstage', by decide,
    by decide⟩

end Handler

end DnsRelay
