import DnsRelay.Lib.Machine
import DnsRelay.Shared.CacheTtl
import DnsRelay.Shared.SameFrom
import DnsRelay.Worker.Sinkhole

/-!
# The edge cache of the Worker

The Worker keeps the replies of its upstreams in the cache of the platform, for
a minute each.  The cache is asked with a keyed hash of the query without its
transaction identifier, and a reply is kept without its own.

A request waits for its upstreams while others are served, so a request is two
events: `request` up to the answer of the cache, and `settle` when the
upstreams have answered.  `Edge.step` interleaves the events of all requests.
What the platform and the network do is part of an event.

The minute is all that the Worker knows of the age of a reply.  The time to
live fields stay as they came, and the cache of a relay behind the Worker
counts from them again (`edge_cache_ages_iff`).

Times are counted in nanoseconds.
-/

namespace DnsRelay

open Lib

/-! ## The Worker -/

namespace Worker

/-- `DOH_ENDPOINTS`. -/
def dohEndpoints : Fin 3 → Str
  | 0 => "https://cloudflare-dns.com/dns-query".toList
  | 1 => "https://dns.google/dns-query".toList
  | 2 => "https://dns.quad9.net/dns-query".toList

/-- `CACHE_TTL_SECONDS`. -/
def cacheTtlSeconds : Nat := 60

/-- `isValidDnsQuery` of a packet that could be decrypted. -/
def isValidDnsQuery (packet : Bytes) : Bool :=
  decide (12 ≤ packet.length) && decide (byteAt packet 2 &&& 0x80 = 0)

def isCacheableReply (packet : Bytes) : Bool :=
  if packet.length < 12 then false
  else
    let flags := u16At packet 2
    let isResponse := decide (flags &&& 0x8000 ≠ 0)
    let isTruncated := decide (flags &&& 0x0200 ≠ 0)
    let rcode := flags &&& 0x000F
    isResponse && !isTruncated && decide (rcode ≠ 2) && !hasOnlyUnspecifiedAddresses packet

/-- What `fetch` gives for a query that is sent to an endpoint: a status and a
body, or the text of a failure. -/
abbrev Fetch := Str → Bytes → Except Str (Nat × Bytes)

def queryDoh (fetch : Fetch) (url : Str) (dnsQuery : Bytes) : Except Str Bytes :=
  match fetch url dnsQuery with
  | .error err => .error err
  | .ok (status, reply) =>
      if ¬(200 ≤ status ∧ status < 300) then
        .error ("upstream returned ".toList ++ Nat.toDigits 10 status)
      else if !isCacheableReply reply then .error "invalid upstream DNS response".toList
      else .ok reply

/-- `resolveUpstream` with the endpoint to start at.  Two endpoints race and
`secondFirst` says who answers first.  The third is asked when both fail. -/
def resolveUpstream (fetch : Fetch) (secondFirst : Bool) (start : Fin 3) (dnsQuery : Bytes) :
    Except Str Bytes :=
  match queryDoh fetch (dohEndpoints start) dnsQuery,
      queryDoh fetch (dohEndpoints (start + 1)) dnsQuery with
  | .ok first, .ok second => .ok (if secondFirst then second else first)
  | .ok first, .error _ => .ok first
  | .error _, .ok second => .ok second
  | .error _, .error _ => queryDoh fetch (dohEndpoints (start + 2)) dnsQuery

def withIdentifier (packet : Bytes) (hi lo : UInt8) : Bytes := (packet.set 0 hi).set 1 lo

def withTransactionId (reply query : Bytes) : Bytes :=
  withIdentifier reply (byteAt query 0) (byteAt query 1)

section Edge

variable {D : Type} (hmac : Bytes → D)

/-- `cacheRequestFor` with the hash under the key of the relay. -/
def cacheRequestFor (query : Bytes) : D := hmac (withIdentifier query 0 0)

structure CachedReply where
  body : Bytes
  storedAt : Nat
deriving DecidableEq, Repr

/-- What the platform does with a `match`. -/
inductive Match where
  | looks
  | dropped
  | fails (err : Str)
deriving DecidableEq, Repr

/-- `readCachedReply`.  A response is found up to its `max-age`. -/
def readCachedReply [DecidableEq D] (cache : List (D × CachedReply)) (platform : Match)
    (now : Nat) (request : D) : Except Str (Option Bytes) :=
  match platform with
  | .fails err => .error err
  | .dropped => .ok none
  | .looks =>
      match cache.lookup request with
      | none => .ok none
      | some cached =>
          if cached.storedAt ≤ now ∧ now ≤ cached.storedAt + fromSecs cacheTtlSeconds then
            .ok (some cached.body)
          else .ok none

def cacheReply (cache : List (D × CachedReply)) (now : Nat) (request : D) (reply : Bytes) :
    List (D × CachedReply) :=
  (request, ⟨withIdentifier reply 0 0, now⟩) :: cache

/-- A request that waits for its upstreams. -/
structure Waiting where
  start : Fin 3
  dnsQuery : Bytes
deriving DecidableEq, Repr

structure Edge (D : Type) where
  nextEndpoint : Fin 3
  /-- The responses that were put, the latest first. -/
  cache : List (D × CachedReply)
  waiting : List Waiting
deriving DecidableEq, Repr

def Edge.new : Edge D := ⟨0, [], []⟩

/-- What a client gets, before it is encrypted. -/
inductive Reply where
  | cached (packet : Bytes)
  | resolved (packet : Bytes)
  | failed (status : Nat) (text : Str)
deriving DecidableEq, Repr

/-- `fetch` with the method POST, up to the answer of the cache.  A packet that
cannot be decrypted is `none`. -/
def Edge.request [DecidableEq D] (s : Edge D) (platform : Match) (now : Nat)
    (dnsQuery : Option Bytes) : Edge D × Option Reply :=
  match dnsQuery with
  | none => (s, some (.failed 400 "bad request".toList))
  | some dnsQuery =>
      if !isValidDnsQuery dnsQuery then (s, some (.failed 400 "bad request".toList))
      else
        match readCachedReply s.cache platform now (cacheRequestFor hmac dnsQuery) with
        | .error _ => (s, some (.failed 502 "upstream failed".toList))
        | .ok (some reply) => (s, some (.cached (withTransactionId reply dnsQuery)))
        | .ok none =>
            ({ s with
                nextEndpoint := s.nextEndpoint + 1
                waiting := s.waiting ++ [⟨s.nextEndpoint, dnsQuery⟩] }, none)

structure Settlement where
  /-- The position of the request among those that wait. -/
  index : Nat
  now : Nat
  fetch : Fetch
  secondFirst : Bool
  putWorks : Bool

/-- `fetch` with the method POST, from the answer of the upstreams on. -/
def Edge.settle (s : Edge D) (e : Settlement) : Option (Edge D × Reply) :=
  match s.waiting[e.index]? with
  | none => none
  | some w =>
      let s := { s with waiting := s.waiting.eraseIdx e.index }
      match resolveUpstream e.fetch e.secondFirst w.start w.dnsQuery with
      | .error _ => some (s, .failed 502 "upstream failed".toList)
      | .ok reply =>
          let cache := if e.putWorks then
              cacheReply s.cache e.now (cacheRequestFor hmac w.dnsQuery) reply
            else s.cache
          some ({ s with cache }, .resolved (withTransactionId reply w.dnsQuery))

inductive Event where
  | request (platform : Match) (now : Nat) (dnsQuery : Option Bytes)
  | settle (e : Settlement)

def Edge.step [DecidableEq D] (s : Edge D) : Event → Option (Edge D)
  | .request platform now dnsQuery => some (s.request hmac platform now dnsQuery).1
  | .settle e => (s.settle hmac e).map Prod.fst

def edgeMachine [DecidableEq D] : Machine (Edge D) Event := ⟨.new, Edge.step hmac⟩

end Edge

end Worker

/-! ## Packets that differ in their identifier -/

section Identifier

variable {p q : Bytes} (h : SameFrom 2 p q)

include h

/-- The answers of a packet stand behind its identifier. -/
theorem Answers.of_same (a : Answers p) : ∃ b : Answers q, b.rrs = a.rrs := by
  have hqd : qdcount q = qdcount p := u16At_eq_of_same h (by decide)
  have han : ancount q = ancount p := u16At_eq_of_same h (by decide)
  have hquestions : readQuestions q (qdcount q) 12 = some a.offset := by
    rw [hqd, readQuestions_eq_of_same h (by decide)]
    exact a.questions
  have hoff := readQuestions_le a.questions
  exact ⟨⟨a.offset, a.rrs, a.last, hquestions, a.count.trans han.symm,
    rrsAt_of_same h a.chain (by omega)⟩, rfl⟩

/-- So does everything that its lifetime is taken from. -/
theorem responseCacheTtl_eq_of_same : responseCacheTtl q = responseCacheTtl p := by
  have hheader : cacheableHeader q = cacheableHeader p := by
    rw [cacheableHeader, cacheableHeader, h.length, h.bytes 2 (by decide), h.bytes 3 (by decide)]
  have hqd : qdcount q = qdcount p := u16At_eq_of_same h (by decide)
  have han : ancount q = ancount p := u16At_eq_of_same h (by decide)
  have hns : nscount q = nscount p := u16At_eq_of_same h (by decide)
  rw [responseCacheTtl, responseCacheTtl, hheader, hqd, han, hns,
    readQuestions_eq_of_same h (by decide)]
  cases hq : readQuestions p (qdcount p) 12 with
  | none => rfl
  | some offset =>
      have hoff := readQuestions_le hq
      simp only [answerTtlLoop_eq_of_same h (by omega : 2 ≤ offset)]
      cases hloop : answerTtlLoop p (ancount p) offset u32Max with
      | none => rfl
      | some r =>
          obtain ⟨last, answerTtl⟩ := r
          obtain ⟨rrs, last', hn, hchain⟩ := chain_of_answerTtlLoop hloop
          rw [← hn] at hloop
          obtain ⟨rfl, -⟩ := answerTtlLoop_chain hchain hloop
          have hle := hchain.pos_le_last
          simp only [negativeTtlLoop_eq_of_same h (by omega : 2 ≤ last)]

end Identifier

namespace Worker

/-! ## Identifiers -/

theorem byteAt_set_ne {b : Bytes} {i j : Nat} (v : UInt8) (h : i ≠ j) :
    byteAt (b.set i v) j = byteAt b j := by
  rw [byteAt, byteAt, List.getD_eq_getElem?_getD, List.getD_eq_getElem?_getD,
    List.getElem?_set_ne h]

theorem sameFrom_withIdentifier (p : Bytes) (hi lo : UInt8) :
    SameFrom 2 p (withIdentifier p hi lo) := by
  constructor
  · rw [withIdentifier, List.length_set, List.length_set]
  · intro i h
    rw [withIdentifier, byteAt_set_ne lo (by omega), byteAt_set_ne hi (by omega)]

theorem withIdentifier_twice (p : Bytes) (hi lo hi' lo' : UInt8) :
    withIdentifier (withIdentifier p hi lo) hi' lo' = withIdentifier p hi' lo' := by
  rw [withIdentifier, withIdentifier, withIdentifier, List.set_comm lo hi' (by decide),
    List.set_set, List.set_set]

/-! ## Where a cached reply comes from -/

section Runs

variable {D : Type} [DecidableEq D] (hmac : Bytes → D)

/-- A request of the run with this cache request got this reply from its
upstreams at this time. -/
def Accepted (events : List Event) (request : D) (time : Nat) (reply : Bytes) : Prop :=
  ∃ before e after mid w, events = before ++ .settle e :: after ∧ e.now = time ∧
    (edgeMachine hmac).run .new before = some mid ∧ mid.waiting[e.index]? = some w ∧
    cacheRequestFor hmac w.dnsQuery = request ∧
    resolveUpstream e.fetch e.secondFirst w.start w.dnsQuery = .ok reply

/-- What the cache finds is a reply that was accepted, without its
identifier. -/
def Sourced (events : List Event) (cache : List (D × CachedReply)) : Prop :=
  ∀ request cached, cache.lookup request = some cached →
    ∃ reply, Accepted hmac events request cached.storedAt reply ∧
      cached.body = withIdentifier reply 0 0

variable {hmac} {events : List Event}

theorem Accepted.append {request : D} {time : Nat} {reply : Bytes}
    (h : Accepted hmac events request time reply) (later : List Event) :
    Accepted hmac (events ++ later) request time reply := by
  obtain ⟨before, e, after, mid, w, rfl, hrest⟩ := h
  exact ⟨before, e, after ++ later, mid, w, by simp, hrest⟩

theorem Sourced.append {cache : List (D × CachedReply)} (h : Sourced hmac events cache)
    (later : List Event) : Sourced hmac (events ++ later) cache := by
  intro request cached hfound
  obtain ⟨reply, haccepted, hbody⟩ := h request cached hfound
  exact ⟨reply, haccepted.append later, hbody⟩

theorem request_cache (s : Edge D) (platform : Match) (now : Nat) (dnsQuery : Option Bytes) :
    (s.request hmac platform now dnsQuery).1.cache = s.cache := by
  cases dnsQuery with
  | none => rfl
  | some dnsQuery =>
      rw [Edge.request]
      split
      · rfl
      · split <;> rfl

omit [DecidableEq D] in
/-- What a settlement does to the cache. -/
theorem settle_cases {s s' : Edge D} {e : Settlement} {reply : Reply}
    (h : s.settle hmac e = some (s', reply)) :
    s'.cache = s.cache ∨ ∃ w packet, s.waiting[e.index]? = some w ∧
      resolveUpstream e.fetch e.secondFirst w.start w.dnsQuery = .ok packet ∧
      s'.cache = cacheReply s.cache e.now (cacheRequestFor hmac w.dnsQuery) packet := by
  rw [Edge.settle] at h
  cases hw : s.waiting[e.index]? with
  | none =>
      rw [hw] at h
      cases h
  | some w =>
      rw [hw] at h
      dsimp only at h
      cases hreply : resolveUpstream e.fetch e.secondFirst w.start w.dnsQuery with
      | error err =>
          rw [hreply] at h
          cases h
          exact .inl rfl
      | ok packet =>
          rw [hreply] at h
          cases h
          cases hput : e.putWorks with
          | false => exact .inl rfl
          | true => exact .inr ⟨w, packet, rfl, hreply, rfl⟩

/-- An event keeps the replies of the cache accounted for. -/
theorem Sourced.step {s s' : Edge D} {event : Event}
    (hrun : (edgeMachine hmac).run .new events = some s) (h : Sourced hmac events s.cache)
    (hstep : s.step hmac event = some s') : Sourced hmac (events ++ [event]) s'.cache := by
  cases event with
  | request platform now dnsQuery =>
      cases hstep
      rw [request_cache]
      exact h.append _
  | settle e =>
      obtain ⟨⟨s'', reply⟩, hsettle, rfl⟩ := Option.map_eq_some_iff.mp hstep
      rcases settle_cases hsettle with hcache | ⟨w, packet, hw, hpacket, hcache⟩
      · rw [hcache]
        exact h.append _
      · intro request cached hfound
        rw [hcache, cacheReply, List.lookup_cons] at hfound
        split at hfound
        next hkey =>
          cases hfound
          have hrequest : request = cacheRequestFor hmac w.dnsQuery := of_decide_eq_true hkey
          exact ⟨packet, ⟨events, e, [], s, w, rfl, rfl, hrun, hw, hrequest.symm, hpacket⟩, rfl⟩
        next => exact h.append _ request cached hfound

theorem sourced_of_run {s : Edge D} (hrun : (edgeMachine hmac).run .new events = some s) :
    Sourced hmac events s.cache := by
  induction events using List.reverseRecOn generalizing s with
  | nil =>
      cases hrun
      intro request cached hfound
      cases hfound
  | append_singleton events event ih =>
      rw [Machine.run_append] at hrun
      obtain ⟨mid, hmid, hlast⟩ := Option.bind_eq_some_iff.mp hrun
      obtain ⟨s', hstep, hs'⟩ := Option.bind_eq_some_iff.mp hlast
      cases hs'
      exact (ih hmid).step hmid hstep

theorem readCachedReply_found {cache : List (D × CachedReply)} {platform : Match} {now : Nat}
    {request : D} {reply : Bytes}
    (h : readCachedReply cache platform now request = .ok (some reply)) :
    ∃ cached, cache.lookup request = some cached ∧ cached.storedAt ≤ now ∧
      now ≤ cached.storedAt + fromSecs cacheTtlSeconds ∧ cached.body = reply := by
  cases platform with
  | fails err => cases h
  | dropped => cases h
  | looks =>
      rw [readCachedReply] at h
      cases hfound : cache.lookup request with
      | none =>
          rw [hfound] at h
          cases h
      | some cached =>
          rw [hfound] at h
          dsimp only at h
          split at h
          · next hage =>
              cases h
              exact ⟨cached, rfl, hage.1, hage.2, rfl⟩
          · cases h

/-- When a request is served from the cache. -/
theorem request_cached {s s' : Edge D} {platform : Match} {now : Nat} {query served : Bytes}
    (h : s.request hmac platform now (some query) = (s', some (.cached served))) :
    ∃ reply, readCachedReply s.cache platform now (cacheRequestFor hmac query) = .ok (some reply) ∧
      served = withTransactionId reply query := by
  rw [Edge.request] at h
  split at h
  · cases h
  · split at h
    · cases h
    · next reply hread =>
        cases h
        exact ⟨reply, hread, rfl⟩
    · cases h

end Runs

/-! ## Two caches -/

/-- The smallest time to live of the answers. -/
structure Smallest {p : Bytes} (a : DnsRelay.Answers p) (t : Nat) : Prop where
  attained : ∃ rr ∈ a.rrs, rrTtl p rr = t
  least : ∀ rr ∈ a.rrs, t ≤ rrTtl p rr

/-- The answers of a packet with another identifier have their old time to
live. -/
theorem rrTtl_withIdentifier {p : Bytes} (a : DnsRelay.Answers p) {rr : Rr} (hrr : rr ∈ a.rrs)
    (hi lo : UInt8) : rrTtl (withIdentifier p hi lo) rr = rrTtl p rr := by
  have hoff := readQuestions_le a.questions
  have hbounds := a.chain.mem_bounds hrr
  exact rrTtl_eq_of_same (sameFrom_withIdentifier p hi lo) (by omega)

/-- A relay gives a packet the smallest time to live of its answers, up to an
hour. -/
theorem Smallest.storedFor {p : Bytes} {a : DnsRelay.Answers p} {t secs : Nat} (ht : Smallest a t)
    (h : StoredFor p secs) : secs = min t 3600 := by
  obtain ⟨b, hgranted⟩ := granted_of_storedFor h
  rw [b.unique a] at hgranted
  obtain ⟨rr, hrr, rfl⟩ := ht.attained
  have hpos : 0 < ancount p := by
    rw [← a.count]
    exact List.length_pos_of_mem hrr
  obtain ⟨-, least, hleast, hall, hsecs⟩ := hgranted.positive hpos
  rw [hsecs, Nat.le_antisymm (hall rr hrr) (ht.least least hleast)]

/-- A reply from the cache was accepted from an upstream at most a minute ago,
and only its identifier is new.  A relay behind the Worker grants it the whole
lifetime again.

Let `t` be the smallest time to live of its answers.  What the answers promise
ends with `t`, and they are not served later, exactly if no time has passed,
`t` is not zero and all answers have it.  A relay drops the reply in time
exactly if no time has passed or its own limit of an hour is what ends the
lifetime. -/
theorem edge_cache_ages_iff {D : Type} [DecidableEq D] {hmac : Bytes → D} {events : List Event}
    {s s' : Edge D} {platform : Match} {now : Nat} {query served : Bytes}
    (hrun : (edgeMachine hmac).run .new events = some s)
    (hserved : s.request hmac platform now (some query) = (s', some (.cached served))) :
    ∃ reply time age, now = time + age ∧ age ≤ fromSecs cacheTtlSeconds ∧
      Accepted hmac events (cacheRequestFor hmac query) time reply ∧
      served = withTransactionId reply query ∧
      responseCacheTtl served = responseCacheTtl reply ∧
      ∀ (a : DnsRelay.Answers reply) (t : Nat), Smallest a t →
        (∃ b : DnsRelay.Answers served, b.rrs = a.rrs ∧
          ∀ rr ∈ a.rrs, rrTtl served rr = rrTtl reply rr) ∧
        (((∀ rr ∈ a.rrs, age + fromSecs (rrTtl served rr) ≤ fromSecs t) ∧ age < fromSecs t) ↔
          age = 0 ∧ 0 < t ∧ ∀ rr ∈ a.rrs, rrTtl reply rr = t) ∧
        ∀ secs, StoredFor served secs →
          (age + fromSecs secs ≤ fromSecs t ↔ age = 0 ∨ age + fromSecs 3600 ≤ fromSecs t) := by
  obtain ⟨body, hread, hbody⟩ := request_cached hserved
  obtain ⟨cached, hfound, hle, hage, rfl⟩ := readCachedReply_found hread
  obtain ⟨reply, haccepted, hcached⟩ := sourced_of_run hrun _ cached hfound
  have hwith : served = withTransactionId reply query := by
    rw [hbody, hcached, withTransactionId, withIdentifier_twice, withTransactionId]
  have hsame : SameFrom 2 reply served := hwith ▸ sameFrom_withIdentifier ..
  refine ⟨reply, cached.storedAt, now - cached.storedAt, by omega, by omega, haccepted, hwith,
    responseCacheTtl_eq_of_same hsame, fun a t ht => ?_⟩
  generalize now - cached.storedAt = age
  obtain ⟨b, hb⟩ := a.of_same hsame
  have httl : ∀ rr ∈ a.rrs, rrTtl served rr = rrTtl reply rr :=
    fun rr hrr => hwith ▸ rrTtl_withIdentifier a hrr ..
  refine ⟨⟨b, hb, httl⟩, ⟨?_, ?_⟩, fun secs hstored => ?_⟩
  · rintro ⟨hends, hbefore⟩
    obtain ⟨rr, hrr, hattained⟩ := ht.attained
    have hage : age = 0 := by
      have hend := hends rr hrr
      rw [httl rr hrr, hattained] at hend
      omega
    refine ⟨hage, ?_, fun rr hrr => ?_⟩
    · rw [fromSecs] at hbefore
      omega
    · have hend := hends rr hrr
      have hleast := ht.least rr hrr
      rw [httl rr hrr, fromSecs, fromSecs] at hend
      omega
  · rintro ⟨hage, hpos, hall⟩
    refine ⟨fun rr hrr => ?_, ?_⟩
    · rw [httl rr hrr, hall rr hrr]
      omega
    · rw [fromSecs]
      omega
  · have hsmallest : Smallest b t := by
      constructor
      · obtain ⟨rr, hrr, hattained⟩ := ht.attained
        exact ⟨rr, hb ▸ hrr, (httl rr hrr).trans hattained⟩
      · intro rr hrr
        rw [hb] at hrr
        rw [httl rr hrr]
        exact ht.least rr hrr
    rw [hsmallest.storedFor hstored]
    simp only [fromSecs]
    omega

def addressQuery (hi lo : UInt8) : Bytes :=
  [hi, lo, 1, 0, 0, 1, 0, 0, 0, 0, 0, 0] ++ [1, 0x61, 0] ++ [0, 1, 0, 1]

def shortReply : Bytes :=
  [0xAA, 0xBB, 0x81, 0x80, 0, 1, 0, 1, 0, 0, 0, 0] ++ [1, 0x61, 0] ++ [0, 1, 0, 1] ++
    [0xC0, 12, 0, 1, 0, 1, 0, 0, 0, 30, 0, 4] ++ [192, 0, 2, 1]

def shortAnswer : Rr := rrFields shortReply 21

def oneReply : List Event :=
  [.request .looks 0 (some (addressQuery 0xAA 0xBB)),
    .settle ⟨0, 0, fun _ _ => .ok (200, shortReply), false, true⟩]

def afterOneReply : Edge Bytes :=
  ⟨1, [(addressQuery 0 0, ⟨withIdentifier shortReply 0 0, 0⟩)], []⟩

theorem run_oneReply : (edgeMachine id).run .new oneReply = some afterOneReply := by
  decide +kernel

theorem edge_cache_ages_iff_one_reply :
    (edgeMachine id).run .new oneReply = some afterOneReply ∧
      ∃ served, afterOneReply.request id .looks (fromSecs 10) (some (addressQuery 1 2)) =
          (afterOneReply, some (.cached served)) ∧
        ∃ reply time age, fromSecs 10 = time + age ∧
          Accepted id oneReply (addressQuery 0 0) time reply ∧
          served = withTransactionId reply (addressQuery 1 2) ∧
          responseCacheTtl served = responseCacheTtl reply := by
  have hserved : afterOneReply.request id .looks (fromSecs 10) (some (addressQuery 1 2)) =
      (afterOneReply, some (.cached (withIdentifier shortReply 1 2))) := by decide +kernel
  obtain ⟨reply, time, age, hnow, -, haccepted, hwith, hsame, -⟩ :=
    edge_cache_ages_iff run_oneReply hserved
  exact ⟨run_oneReply, _, hserved, reply, time, age, hnow, haccepted, hwith, hsame⟩

/-- Forty-five seconds later the reply is served with its thirty seconds, and a
relay keeps it for as long. -/
theorem cached_reply_not_aged :
    let served := withIdentifier shortReply 1 2
    (edgeMachine id).run .new oneReply = some afterOneReply ∧
      Accepted id oneReply (addressQuery 0 0) 0 shortReply ∧
      (∃ a : DnsRelay.Answers shortReply, Smallest a 30) ∧
      afterOneReply.request id .looks (fromSecs 45) (some (addressQuery 1 2)) =
        (afterOneReply, some (.cached served)) ∧
      (∃ b : DnsRelay.Answers served, Smallest b 30) ∧ StoredFor served 30 := by
  intro served
  have hsmallest : ∀ {p : Bytes}, readQuestions p (qdcount p) 12 = some 19 → ancount p = 1 →
      readRr p 19 = some shortAnswer → rrTtl p shortAnswer = 30 →
      ∃ a : DnsRelay.Answers p, Smallest a 30 := by
    intro p hquestions hcount hrr httl
    refine ⟨⟨19, [shortAnswer], _, hquestions, hcount.symm, .cons hrr .nil⟩, ?_, ?_⟩
    · exact ⟨shortAnswer, List.mem_singleton_self _, httl⟩
    · intro rr hmem
      rw [List.mem_singleton.mp hmem, httl]
  refine ⟨run_oneReply, ?_, ?_, by decide +kernel, ?_, ?_⟩
  · exact ⟨oneReply.take 1, _, [], ⟨1, [], [⟨0, addressQuery 0xAA 0xBB⟩]⟩, _, rfl, rfl,
      by decide +kernel, rfl, by decide, by decide +kernel⟩
  · exact hsmallest (by decide) (by decide) (by decide) (by decide)
  · exact hsmallest (by decide) (by decide) (by decide) (by decide)
  · have httl : responseCacheTtl served = some 30 := by decide
    have hstored := storedFor_of_ttl httl (by decide)
    rwa [Nat.min_eq_left (by decide)] at hstored

end Worker

end DnsRelay
