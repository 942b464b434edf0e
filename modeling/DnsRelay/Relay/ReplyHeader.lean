import DnsRelay.Relay.Provenance
import Mathlib.Data.Nat.Bitwise

/-!
# The header of replies

A reply has a whole header, the response bit and the transaction identifier of
the query it answers.  Packets in the cache and packets that are published have
the identifier zero, and each reply gets its own from its query.

That the packets are responses follows from where they come from.  `Stamped`
follows the identifiers.
-/

namespace DnsRelay

open Lib

/-! ## Headers -/

/-- The packet has a header, with the response bit. -/
def ResponseHeader (packet : Bytes) : Prop :=
  12 ≤ packet.length ∧ byteAt packet 2 &&& 0x80 ≠ 0

theorem and_two_pow_eq_zero {n i : Nat} : n &&& 2 ^ i = 0 ↔ n / 2 ^ i % 2 = 0 := by
  rw [Nat.and_two_pow, Nat.testBit_eq_decide_div_mod_eq]
  by_cases h : n / 2 ^ i % 2 = 1
  · simp [h]
  · simp [h]
    omega

/-- The top bit of two bytes is the top bit of the first. -/
theorem be16_top_bit {hi lo : UInt8} (h : be16 hi lo &&& 0x8000 ≠ 0) : hi &&& 0x80 ≠ 0 := by
  intro hzero
  have hbyte : hi.toNat &&& 2 ^ 7 = 0 := by
    have := congrArg UInt8.toNat hzero
    simpa using this
  rw [and_two_pow_eq_zero] at hbyte
  have hlo := lo.toNat_lt
  refine h (and_two_pow_eq_zero (i := 15) |>.mpr ?_)
  rw [be16]
  omega

theorem responseHeader_of_usable {packet : Bytes} {rejectUnspecified : Bool}
    (h : isUsableResponse packet rejectUnspecified = true) : ResponseHeader packet := by
  rw [isUsableResponse] at h
  split at h
  · cases h
  next hlen =>
    simp only [Bool.and_eq_true, decide_eq_true_eq] at h
    exact ⟨Nat.le_of_not_lt hlen, be16_top_bit h.1.1.1.1⟩

theorem ResponseHeader.withTxid {packet : Bytes} (h : ResponseHeader packet)
    (txid : UInt8 × UInt8) : ResponseHeader (withTxid packet txid) := by
  refine ⟨by rw [withTxid_length]; exact h.1, ?_⟩
  rw [byteAt_withTxid (Nat.le_refl 2)]
  exact h.2

theorem byteAt_aged {p q : Bytes} {elapsed : Nat} {stale : Bool}
    (h : ageResponseTtls p elapsed stale = (q, true)) {i : Nat} (hi : i < 12) :
    byteAt q i = byteAt p i := by
  obtain ⟨w, haged⟩ := ageResponseTtls_spec h
  exact haged.other i fun rr hr => .inl (Nat.lt_of_lt_of_le hi (w.ttlOffset_ge hr))

theorem length_aged {p q : Bytes} {elapsed : Nat} {stale : Bool}
    (h : ageResponseTtls p elapsed stale = (q, true)) : q.length = p.length := by
  obtain ⟨w, haged⟩ := ageResponseTtls_spec h
  exact haged.length

theorem Rewritten.responseHeader {p q : Bytes} (h : Rewritten p q) (hp : ResponseHeader p) :
    ResponseHeader q := by
  induction h with
  | refl => exact hp
  | txid txid _ ih => exact ih.withTxid txid
  | aged _ hage ih =>
      refine ⟨by rw [length_aged hage]; exact ih.1, ?_⟩
      rw [byteAt_aged hage (by decide)]
      exact ih.2

/-! ## Packets made here -/

/-- The query with the flags of a reply. -/
theorem overwrite_flags_header {payload : Bytes} (h12 : 12 ≤ payload.length) (flags : UInt8) :
    ResponseHeader (overwrite payload 2 [0x81, flags]) ∧
      (overwrite payload 2 [0x81, flags]).take 2 = payload.take 2 := by
  have hfits : 2 + [0x81, flags].length ≤ payload.length := by
    show 2 + 2 ≤ payload.length
    omega
  refine ⟨⟨by rw [overwrite_length hfits]; exact h12, ?_⟩, take_overwrite (by omega) (by omega)⟩
  have hbyte := byteAt_overwrite_inside (j := 0) hfits (Nat.zero_lt_succ _)
  rw [hbyte]
  show (0x81 : UInt8) &&& 0x80 ≠ 0
  decide

/-- The number of answers stands behind the flags. -/
theorem ResponseHeader.overwrite {packet : Bytes} (h : ResponseHeader packet) (n : Nat) :
    ResponseHeader (overwrite packet 6 (toBe16 n)) ∧
      (Lib.overwrite packet 6 (toBe16 n)).take 2 = packet.take 2 := by
  obtain ⟨h12, hbit⟩ := h
  have hfits : 6 + (toBe16 n).length ≤ packet.length := by
    rw [toBe16_length]
    omega
  refine ⟨⟨by rw [overwrite_length hfits]; exact h12, ?_⟩, take_overwrite (by omega) (by omega)⟩
  rw [byteAt_overwrite_before hfits (by omega)]
  exact hbit

/-- So do records that are put in behind the question. -/
theorem ResponseHeader.insert {packet : Bytes} (h : ResponseHeader packet) {n : Nat} (hn : 4 ≤ n)
    (records : Bytes) : ResponseHeader (packet.take n ++ records ++ packet.drop n) ∧
      (packet.take n ++ records ++ packet.drop n).take 2 = packet.take 2 := by
  obtain ⟨h12, hbit⟩ := h
  have hlen : 4 ≤ (packet.take n).length := by
    rw [List.length_take]
    omega
  refine ⟨⟨?_, ?_⟩, ?_⟩
  · simp only [List.length_append, List.length_take, List.length_drop]
    omega
  · rw [List.append_assoc, byteAt_append_left (by omega), byteAt_take (by omega)]
    exact hbit
  · rw [List.append_assoc, List.take_append_of_le_length (by omega), List.take_take,
      Nat.min_eq_left (by omega)]

/-- A reply that reuses the query is a response with its identifier. -/
theorem craftReply_header {rcode : UInt8} {payload packet : Bytes}
    (h : craftReply rcode payload = some packet) :
    ResponseHeader packet ∧ packet.take 2 = payload.take 2 := by
  rw [craftReply] at h
  split at h
  · cases h
  next h12 =>
    cases h
    exact overwrite_flags_header (Nat.le_of_not_lt h12) _

theorem craftRedirectResponse_header {payload packet : Bytes} {qnameEnd : Nat} {ips : List Str}
    (h : craftRedirectResponse payload qnameEnd ips = some packet) :
    ResponseHeader packet ∧ packet.take 2 = payload.take 2 := by
  rw [craftRedirectResponse] at h
  split at h
  · cases h
  next hlen =>
    simp only at h
    split at h
    · cases h
    · cases h
      have h12 : 12 ≤ payload.length := by omega
      obtain ⟨hflags, htake⟩ := overwrite_flags_header h12 0x80
      obtain ⟨hcount, htake'⟩ := hflags.overwrite ((ips.filterMap parseIpv4Addr).length % 65536)
      obtain ⟨hrecords, htake''⟩ := hcount.insert (n := qnameEnd + 4) (by omega) _
      exact ⟨hrecords, htake''.trans (htake'.trans htake)⟩

/-! ## Identifiers -/

theorem take_withTxid {packet : Bytes} (h : 2 ≤ packet.length) (txid : UInt8 × UInt8) :
    (withTxid packet txid).take 2 = [txid.1, txid.2] := by
  rw [withTxid, if_pos h]
  rfl

namespace Handler

variable {U : CaseTable} {S : UnstableSort} {M : EvictingMap CacheKey CacheEntry}
  {secureOnly : Bool} {s s' : Handler M} {qs : List Query}

theorem Accepted.responseHeader {packet : Bytes} (h : Accepted secureOnly packet) :
    ResponseHeader packet := by
  obtain ⟨received, husable, hrewritten⟩ := h
  exact hrewritten.responseHeader (responseHeader_of_usable husable)

theorem Servfail.responseHeader {packet : Bytes} (h : Servfail qs packet) :
    ResponseHeader packet := by
  obtain ⟨q, -, reply, txid, hcraft, rfl⟩ := h
  exact (craftReply_header hcraft).1.withTxid txid

theorem Shared.responseHeader {source : Source} {packet : Bytes}
    (h : Shared secureOnly qs source packet) : ResponseHeader packet := by
  cases source with
  | servfail => exact Servfail.responseHeader h
  | stale | upstream => exact Accepted.responseHeader h
  | drop | redirect | fresh => exact absurd h id

theorem Explained.responseHeader {q : Query} {reply : Reply}
    (h : Explained secureOnly qs q reply) : ResponseHeader reply.packet := by
  obtain ⟨packet, source⟩ := reply
  cases source with
  | drop => exact (craftReply_header h).1
  | redirect =>
      obtain ⟨qnameEnd, ips, hcraft⟩ := h
      exact (craftRedirectResponse_header hcraft).1
  | servfail => exact Servfail.responseHeader h
  | fresh | stale | upstream => exact Accepted.responseHeader h

/-- The identifiers that a call has to show for its stage. -/
def Stamped (call : Call) : Prop :=
  match call.stage with
  | .keyed _ | .missed _ | .following _ | .resolving _ _ => 12 ≤ call.query.payload.length
  | .publishing _ reply | .sent _ reply =>
      12 ≤ call.query.payload.length ∧ reply.packet.take 2 = [0, 0]
  | .done (some reply) => reply.packet.take 2 = call.query.payload.take 2
  | .done none | .cancelled => True

/-- A packet under the identifier of a query. -/
theorem take_reqTxid {q : Query} (hq : 12 ≤ q.payload.length) {packet : Bytes}
    (hp : ResponseHeader packet) : (withTxid packet q.reqTxid).take 2 = q.payload.take 2 := by
  obtain ⟨hlen, -⟩ := hp
  rw [take_withTxid (by omega)]
  obtain ⟨payload, srcAddr, ruleTrie⟩ := q
  cases payload with
  | nil => cases hq
  | cons a rest =>
      cases rest with
      | nil => exact absurd (show 12 ≤ 1 from hq) (by decide)
      | cons b rest => rfl

theorem openQuery_stamped (relayPicker : Option RelayPicker) (q : Query) :
    Stamped ⟨q, openQuery U relayPicker q⟩ := by
  obtain hopen | ⟨packet, hcraft, hopen⟩ | ⟨qnameEnd, ips, packet, hcraft, hopen⟩ |
    ⟨k, h12, hopen⟩ := openQuery_cases U relayPicker q
  · rw [hopen]
    trivial
  · rw [hopen]
    exact (craftReply_header hcraft).2
  · rw [hopen]
    exact (craftRedirectResponse_header hcraft).2
  · rw [hopen]
    exact h12

/-- What the calls have to show, and what is published. -/
structure Stamps (s : Handler M) : Prop where
  calls : ∀ call ∈ s.calls, Stamped call
  published : ∀ l packet, s.flights.published l = some packet → packet.take 2 = [0, 0]

/-- One call goes on, and nothing is published. -/
theorem Stamps.move (h : Stamps s) {i : Nat} {call : Call}
    (hcalls : s'.calls = s.calls.set i call)
    (hpublished : s'.flights.published = s.flights.published) (hcall : Stamped call) :
    Stamps s' where
  calls c hc := by
    rw [hcalls] at hc
    rcases List.mem_or_eq_of_mem_set hc with hc | rfl
    · exact h.calls c hc
    · exact hcall
  published := by
    rw [hpublished]
    exact h.published

theorem stamps_step (hi : Inv secureOnly s) (h : Stamps s) {a : Act}
    (hs : step U S secureOnly s a = some s') : Stamps s' := by
  have hstamp : ∀ {i : Nat} {call : Call}, s.calls[i]? = some call → Stamped call :=
    fun found => h.calls _ (List.mem_of_getElem? found)
  have hok : ∀ {i : Nat} {call : Call}, s.calls[i]? = some call →
      StageOk secureOnly s.queries call := fun found => hi.calls _ (List.mem_of_getElem? found)
  cases step_move hs with
  | query =>
      refine ⟨fun call hc => ?_, h.published⟩
      rcases List.mem_append.mp hc with hc | hc
      · exact h.calls call hc
      · rw [List.mem_singleton.mp hc]
        exact openQuery_stamped _ _
  | @lookup i now q k found =>
      have hq : 12 ≤ q.payload.length := hstamp found
      refine h.move rfl rfl ?_
      cases hl : (cacheLookup M s.cache now k.key).2 with
      | none => exact hq
      | some cached =>
          obtain ⟨entry, hfind, -, hage⟩ := cacheLookup_eq_some.mp hl
          exact take_reqTxid hq ((hi.cache.accepted hfind).aged hage).responseHeader
  | @join i q k found =>
      have hq : 12 ≤ q.payload.length := hstamp found
      refine h.move rfl (InFlightQueries.published_step (a := .join k.key) rfl fun _ _ ha => ?_) ?_
      · cases ha
      · cases (s.flights.join k.key).2 with
        | leader l => exact hq
        | follower f => exact hq
  | @respond i now healthy preferDoh net q l k result reply found resolved response =>
      have hq : 12 ≤ q.payload.length := hstamp found
      obtain ⟨-, hshared⟩ :
          Inv secureOnly { s with cache := (Handler.respond s.cache now q k result).1 } ∧ _ :=
        hi.responded found resolved
      have hlen := (hshared reply response).responseHeader.1
      refine h.move rfl rfl ⟨hq, take_withTxid ?_ (0, 0)⟩
      simp only [Reply.withTxid, withTxid_length] at hlen
      omega
  | giveUp found resolved response dropped =>
      refine h.move rfl (InFlightQueries.published_step dropped fun _ _ ha => ?_) trivial
      cases ha
  | @send i q l reply flights found published =>
      have hcall : 12 ≤ q.payload.length ∧ reply.packet.take 2 = [0, 0] := hstamp found
      have hpub := InFlightQueries.published_publishSend published
      refine ⟨fun call hc => ?_, fun l' packet hp => ?_⟩
      · rcases List.mem_or_eq_of_mem_set hc with hc | rfl
        · exact h.calls call hc
        · exact hcall
      · have hp' : Function.update s.flights.published l (some reply.packet) l' = some packet :=
          hpub ▸ hp
        by_cases hl : l' = l
        · subst hl
          rw [Function.update_self] at hp'
          cases hp'
          exact hcall.2
        · rw [Function.update_of_ne hl] at hp'
          exact h.published l' packet hp'
  | @finish i q l reply found gone =>
      have hcall : 12 ≤ q.payload.length ∧ reply.packet.take 2 = [0, 0] := hstamp found
      have hshared : Shared secureOnly s.queries reply.source reply.packet := hok found
      exact h.move rfl rfl (take_reqTxid hcall.1 hshared.responseHeader)
  | @answer i q f l seen packet found returned =>
      have hq : 12 ≤ q.payload.length := hstamp found
      refine h.move rfl rfl ?_
      cases packet with
      | none => trivial
      | some packet =>
          have htook := InFlightQueries.tookPublished_reach hi.flights _
            (List.mem_of_getElem? returned) packet rfl
          exact take_reqTxid hq (hi.published l packet htook).responseHeader
  | cancel found dropped drops =>
      exact h.move rfl (InFlightQueries.published_step dropped drops) trivial
  | @flight a flights own moved =>
      refine ⟨h.calls, fun l packet hp => h.published l packet ?_⟩
      have hsame := InFlightQueries.published_step moved fun l packet ha => by
        rw [ha] at own
        cases own
      exact hsame ▸ hp
  | rediscover => exact h
  | discover relayed => exact ⟨h.calls, h.published⟩
  | clear => exact ⟨h.calls, h.published⟩

theorem stamps_reach {relayPicker : Option RelayPicker}
    (h : (machine U S M secureOnly relayPicker).Reach s) : Inv secureOnly s ∧ Stamps s := by
  refine Machine.ReachBy.invariant (P := fun s => Inv secureOnly s ∧ Stamps s) ?_ ?_ h
  · have hinit : (machine U S M secureOnly relayPicker).Reach (new M relayPicker) := .init
    refine ⟨inv_reach hinit, fun call hc => ?_, fun l packet hp => ?_⟩
    · cases hc
    · cases hp
  · intro s a s' hi _ hs
    exact ⟨inv_step hi.1 hs, stamps_step hi.1 hi.2 hs⟩

theorem CacheTraced.take_packet {cache : M.State} (h : CacheTraced secureOnly cache)
    {key : CacheKey} {entry : CacheEntry} (hfind : M.find cache key = some entry) :
    entry.packet.take 2 = [0, 0] := by
  obtain ⟨ops, rfl, -⟩ := h
  obtain ⟨t0, packet, ttl, -, httl, rfl⟩ := find_cacheRun hfind
  have h12 := length_of_cacheableHeader (cacheableHeader_of_ttl httl)
  exact take_withTxid (by omega) (0, 0)

/-- Every reply has a header, the response bit and the identifier of its own
query.  What is cached and what is published has the identifier zero. -/
theorem reply_header_integrity (U : CaseTable) (S : UnstableSort)
    (M : EvictingMap CacheKey CacheEntry) (secureOnly : Bool) (relayPicker : Option RelayPicker)
    {s : Handler M} (h : (machine U S M secureOnly relayPicker).Reach s) :
    (∀ call ∈ s.calls, ∀ reply, call.stage = .done (some reply) →
      12 ≤ reply.packet.length ∧ reply.packet.take 2 = call.query.payload.take 2 ∧
        byteAt reply.packet 2 &&& 0x80 ≠ 0) ∧
    (∀ key entry, M.find s.cache key = some entry → entry.packet.take 2 = [0, 0]) ∧
    ∀ l packet, s.flights.published l = some packet → packet.take 2 = [0, 0] := by
  obtain ⟨hi, hstamps⟩ := stamps_reach h
  refine ⟨fun call hcall reply hdone => ?_, fun key entry hfind => hi.cache.take_packet hfind,
    hstamps.published⟩
  have hok := hi.calls call hcall
  have hstamp := hstamps.calls call hcall
  rw [StageOk, hdone] at hok
  rw [Stamped, hdone] at hstamp
  obtain ⟨h12, hbit⟩ := Explained.responseHeader hok
  exact ⟨h12, hstamp, hbit⟩

/-- A leader, a follower and a call that is answered from the cache. -/
theorem reply_header_three_calls :
    let M := EvictingMap.recent CacheKey CacheEntry (cacheCapacity - 1)
    ∃ s, (machine .ascii .insertion M true none).Reach s ∧
      s.calls.map Call.stage = sampleStages ∧
      ∀ call ∈ s.calls, ∀ reply, call.stage = .done (some reply) →
        12 ≤ reply.packet.length ∧ reply.packet.take 2 = call.query.payload.take 2 ∧
          byteAt reply.packet 2 &&& 0x80 ≠ 0 := by
  intro M
  obtain ⟨s, hreach, hstages⟩ := sample_reach
  exact ⟨s, hreach, hstages, (reply_header_integrity .ascii .insertion M true none hreach).1⟩

end Handler

end DnsRelay
