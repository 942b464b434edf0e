import DnsRelay.Relay.DirectRelay
import DnsRelay.Worker.EdgeCache

/-!
# The relay and its Worker

The Worker has the key of a relay as a text in its environment.  It decrypts
what is posted to it, answers the query from its cache or from an upstream and
encrypts the reply.

It reads the text of the key with `atob`, which forgives more than the reader of
the client, and its platform takes keys of three lengths.
`Worker.importKey_of_load` says that every text the client takes gives the Worker
the same key.

`relay_round_trip` is the exchange as a whole.  What the client gets is what the
Worker would say to the plain query, as long as the query has no more than 4096
bytes.
-/

namespace DnsRelay

open Lib

/-! ## The Worker -/

namespace Worker

/-- `MAX_DNS_PACKET_BYTES`. -/
def maxDnsPacketBytes : Nat := 4096

/-- A key in the hands of the platform. -/
structure ImportedKey where
  /-- `encrypt` of a nonce and a message. -/
  encrypt : Bytes → Bytes → Bytes
  /-- `decrypt` of a nonce and a ciphertext. -/
  decrypt : Bytes → Bytes → Option Bytes
  /-- `sign` with HMAC under the same bytes. -/
  hmac : Bytes → Bytes

def base64ToBytes (b64 : Str) : Option Bytes := Base64.forgivingDecode b64

section Fetch

variable {C : RelayCrypto} (K : RelayKeys C) (shorter : Bytes → ImportedKey)

def ImportedKey.ofKey (key : C.Key) : ImportedKey := ⟨C.encrypt key, C.decrypt key, C.hmac key⟩

/-- `importAesKey`.  Keys of 16 and 24 bytes are those of other ciphers. -/
def importAesKey (rawKeyBytes : Bytes) : Option ImportedKey :=
  if h : rawKeyBytes.length = 32 then some (.ofKey (K.fromSlice ⟨rawKeyBytes, h⟩))
  else if rawKeyBytes.length = 16 ∨ rawKeyBytes.length = 24 then some (shorter rawKeyBytes)
  else none

/-- `decodeFromRelay` of the Worker. -/
def decodeFromRelay (packet : Bytes) (key : Option ImportedKey) : Option Bytes :=
  if packet.length < 28 then none
  else key.bind fun key => key.decrypt (packet.take 12) (packet.drop 12)

/-- `encodeForRelay` of the Worker. -/
def encodeForRelay (plaintext : Bytes) (key : Option ImportedKey)
    (nonce : { bytes : Bytes // bytes.length = 12 }) : Option Bytes :=
  key.map fun key => nonce.val ++ key.encrypt nonce.val plaintext

def textResponse (status : Nat) (text : Str) : WorkerResponse := ⟨status, utf8 text⟩

def respond (key : Option ImportedKey) (nonce : { bytes : Bytes // bytes.length = 12 }) :
    Reply → WorkerResponse
  | .cached packet | .resolved packet =>
      match encodeForRelay packet key nonce with
      | none => textResponse 502 "upstream failed".toList
      | some encryptedReply => ⟨200, encryptedReply⟩
  | .failed status text => textResponse status text

/-- The hash that cache requests are made of.  Without a key no request comes
that far. -/
def hmacOf (key : Option ImportedKey) : Bytes → Bytes := key.elim id ImportedKey.hmac

/-- `fetch` with the method POST, up to the answer of the cache.  Nothing is
returned for a request that waits for its upstreams. -/
def fetchPost (relayKey : Option Str) (s : Edge Bytes) (platform : Match) (now : Nat)
    (nonce : { bytes : Bytes // bytes.length = 12 }) (encryptedQuery : Bytes) :
    Edge Bytes × Option WorkerResponse :=
  match relayKey with
  | none | some [] => (s, some (textResponse 503 "relay unavailable".toList))
  | some text =>
      if maxDnsPacketBytes + 28 < encryptedQuery.length then
        (s, some (textResponse 413 "payload too large".toList))
      else
        match base64ToBytes text with
        | none => (s, some (textResponse 502 "upstream failed".toList))
        | some relayKey =>
            let key := importAesKey K shorter relayKey
            let (s, reply) := s.request (hmacOf key) platform now
              (decodeFromRelay encryptedQuery key)
            (s, reply.map (respond key nonce))

/-- `fetch` with the method POST, from the answer of the upstreams on. -/
def settlePost (relayKey : Bytes) (s : Edge Bytes) (e : Settlement)
    (nonce : { bytes : Bytes // bytes.length = 12 }) : Option (Edge Bytes × WorkerResponse) :=
  let key := importAesKey K shorter relayKey
  (s.settle (hmacOf key) e).map fun (s, reply) => (s, respond key nonce reply)

/-- Every text that the client takes gives the Worker the same key. -/
theorem importKey_of_load {keyB64 : Str} {key : C.Key} (h : loadKeyFromStr K keyB64 = .ok key) :
    ∃ raw, base64ToBytes keyB64 = some raw ∧ importAesKey K shorter raw = some (.ofKey key) := by
  obtain ⟨bytes, rfl, rfl⟩ := (loadKeyFromStr_eq_ok K).mp h
  exact ⟨bytes.val, Base64.forgivingDecode_encode bytes.val, dif_pos bytes.property⟩

end Fetch

end Worker

/-! ## The exchange -/

section Exchange

variable {C : RelayCrypto}

theorem decodeFromRelay_encode (key : C.Key) (nonce : { bytes : Bytes // bytes.length = 12 })
    (message : Bytes) :
    decodeFromRelay C key (encodeForRelay C key nonce message) = some message := by
  rw [decodeFromRelay, encodeForRelay, if_neg (by rw [List.length_append, nonce.property]; omega),
    List.take_left' nonce.property, List.drop_left' nonce.property, C.decrypt_encrypt]

theorem encodeForRelay_length (K : RelayKeys C) (key : C.Key)
    (nonce : { bytes : Bytes // bytes.length = 12 }) (message : Bytes) :
    (encodeForRelay C key nonce message).length = message.length + 28 := by
  rw [encodeForRelay, List.length_append, nonce.property, K.encrypt_length]
  omega

namespace Worker

theorem decodeFromRelay_ofKey (key : C.Key) (packet : Bytes) :
    Worker.decodeFromRelay packet (some (.ofKey key)) =
      if packet.length < 28 then none else DnsRelay.decodeFromRelay C key packet := by
  rw [Worker.decodeFromRelay]
  split
  · rfl
  · rw [DnsRelay.decodeFromRelay, if_neg (by omega)]
    rfl

def outcome (T : HttpTexts) : Reply → Except Error Bytes
  | .cached packet | .resolved packet => .ok packet
  | .failed status text =>
      .error (.config ("relay returned ".toList ++ T.status status ++ ": ".toList ++ text))

/-- A failure is one of two. -/
def Reply.Plain : Reply → Prop
  | .cached _ | .resolved _ => True
  | .failed status text =>
      status = 400 ∧ text = "bad request".toList ∨ status = 502 ∧ text = "upstream failed".toList

inductive Requested (hmac : Bytes → Bytes) (s : Edge Bytes) :
    Option Bytes → Edge Bytes × Option Reply → Prop where
  | failed {dnsQuery : Option Bytes} {status : Nat} {text : Str}
      (plain : (Reply.failed status text).Plain) :
      Requested hmac s dnsQuery (s, some (.failed status text))
  | cached {query reply : Bytes} {platform : Match} {now : Nat}
      (valid : isValidDnsQuery query = true)
      (found : readCachedReply s.cache platform now (cacheRequestFor hmac query) =
        .ok (some reply)) :
      Requested hmac s (some query) (s, some (.cached (withTransactionId reply query)))
  | waits {query : Bytes} (valid : isValidDnsQuery query = true) :
      Requested hmac s (some query)
        ({ s with
            nextEndpoint := s.nextEndpoint + 1
            waiting := s.waiting ++ [⟨s.nextEndpoint, query⟩] }, none)

theorem requested (hmac : Bytes → Bytes) (s : Edge Bytes) (platform : Match) (now : Nat)
    (dnsQuery : Option Bytes) :
    Requested hmac s dnsQuery (s.request hmac platform now dnsQuery) := by
  cases dnsQuery with
  | none => exact .failed (.inl ⟨rfl, rfl⟩)
  | some query =>
      rw [Edge.request]
      split
      · exact .failed (.inl ⟨rfl, rfl⟩)
      · next hvalid =>
          have hvalid : isValidDnsQuery query = true := by simpa using hvalid
          split
          · exact .failed (.inr ⟨rfl, rfl⟩)
          · next reply hfound => exact .cached hvalid hfound
          · exact .waits hvalid

theorem Requested.plain {hmac : Bytes → Bytes} {s s' : Edge Bytes} {dnsQuery : Option Bytes}
    {reply : Reply} (h : Requested hmac s dnsQuery (s', some reply)) : reply.Plain := by
  cases h with
  | failed plain => exact plain
  | cached => exact trivial

inductive Settled (hmac : Bytes → Bytes) (s : Edge Bytes) (e : Settlement) (w : Waiting) :
    Edge Bytes × Reply → Prop where
  | failed : Settled hmac s e w ({ s with waiting := s.waiting.eraseIdx e.index },
      .failed 502 "upstream failed".toList)
  | resolved {reply : Bytes} {cache : List (Bytes × CachedReply)}
      (upstream : resolveUpstream e.fetch e.secondFirst w.start w.dnsQuery = .ok reply)
      (put : cache = s.cache ∨
        cache = cacheReply s.cache e.now (cacheRequestFor hmac w.dnsQuery) reply) :
      Settled hmac s e w ({ s with waiting := s.waiting.eraseIdx e.index, cache },
        .resolved (withTransactionId reply w.dnsQuery))

theorem settled_of_settle {hmac : Bytes → Bytes} {s : Edge Bytes} {e : Settlement}
    {r : Edge Bytes × Reply} (h : s.settle hmac e = some r) :
    ∃ w, s.waiting[e.index]? = some w ∧ Settled hmac s e w r := by
  rw [Edge.settle] at h
  cases hw : s.waiting[e.index]? with
  | none =>
      rw [hw] at h
      cases h
  | some w =>
      rw [hw] at h
      dsimp only at h
      refine ⟨w, rfl, ?_⟩
      cases hreply : resolveUpstream e.fetch e.secondFirst w.start w.dnsQuery with
      | error err =>
          rw [hreply] at h
          obtain rfl := Option.some.inj h
          exact .failed
      | ok packet =>
          rw [hreply] at h
          obtain rfl := Option.some.inj h
          refine .resolved hreply ?_
          cases e.putWorks with
          | false => exact .inl rfl
          | true => exact .inr rfl

theorem Settled.plain {hmac : Bytes → Bytes} {s s' : Edge Bytes} {e : Settlement} {w : Waiting}
    {reply : Reply} (h : Settled hmac s e w (s', reply)) : reply.Plain := by
  cases h with
  | failed => exact .inr ⟨rfl, rfl⟩
  | resolved => exact trivial

theorem fromUtf8Lossy_utf8 (T : HttpTexts) (text : Str) : T.fromUtf8Lossy (utf8 text) = text := by
  rw [HttpTexts.fromUtf8Lossy, fromUtf8_utf8]
  rfl

theorem readReply_text (T : HttpTexts) (key : C.Key) {status : Nat} (text : Str)
    (hstatus : ¬(200 ≤ status ∧ status < 300)) :
    readReply T key (textResponse status text) =
      .error (.config ("relay returned ".toList ++ T.status status ++ ": ".toList ++ text)) := by
  rw [readReply, textResponse, if_pos hstatus, fromUtf8Lossy_utf8]

/-- The client reads what the Worker replies. -/
theorem readReply_respond (T : HttpTexts) (key : C.Key)
    (nonce : { bytes : Bytes // bytes.length = 12 }) {reply : Reply} (h : reply.Plain) :
    readReply T key (respond (some (.ofKey key)) nonce reply) = outcome T reply := by
  cases reply with
  | cached packet | resolved packet =>
      show readReply T key ⟨200, DnsRelay.encodeForRelay C key nonce packet⟩ = .ok packet
      rw [readReply, if_neg (by simp), decodeFromRelay_encode]
  | failed status text =>
      refine readReply_text T key text ?_
      rcases h with ⟨rfl, -⟩ | ⟨rfl, -⟩ <;> decide

/-- A post to a Worker that has the key of the client. -/
theorem fetchPost_loaded (K : RelayKeys C) (shorter : Bytes → ImportedKey) {keyB64 : Str}
    {key : C.Key} (hload : loadKeyFromStr K keyB64 = .ok key) (s : Edge Bytes) (platform : Match)
    (now : Nat) (nonce : { bytes : Bytes // bytes.length = 12 }) (body : Bytes) :
    fetchPost K shorter (some keyB64) s platform now nonce body =
      if maxDnsPacketBytes + 28 < body.length then
        (s, some (textResponse 413 "payload too large".toList))
      else
        (s.request (C.hmac key) platform now (Worker.decodeFromRelay body (some (.ofKey key)))).map
          id (Option.map (respond (some (.ofKey key)) nonce)) := by
  obtain ⟨raw, hraw, himport⟩ := importKey_of_load K shorter hload
  cases keyB64 with
  | nil =>
      cases hraw
      cases himport
  | cons c text =>
      simp only [fetchPost, hraw, himport]
      rfl

/-- The Worker answers a post as it would answer the plain query. -/
theorem fetchPost_encode (K : RelayKeys C) (shorter : Bytes → ImportedKey) {keyB64 : Str}
    {key : C.Key} (hload : loadKeyFromStr K keyB64 = .ok key) (s : Edge Bytes) (platform : Match)
    (now : Nat) (nonce nonce' : { bytes : Bytes // bytes.length = 12 }) (dnsQuery : Bytes) :
    fetchPost K shorter (some keyB64) s platform now nonce'
        (DnsRelay.encodeForRelay C key nonce dnsQuery) =
      if dnsQuery.length ≤ maxDnsPacketBytes then
        (s.request (C.hmac key) platform now (some dnsQuery)).map id
          (Option.map (respond (some (.ofKey key)) nonce'))
      else (s, some (textResponse 413 "payload too large".toList)) := by
  have hlen := encodeForRelay_length K key nonce dnsQuery
  have hdecode : Worker.decodeFromRelay (DnsRelay.encodeForRelay C key nonce dnsQuery)
      (some (.ofKey key)) = some dnsQuery := by
    rw [decodeFromRelay_ofKey, if_neg (by omega), decodeFromRelay_encode]
  rw [fetchPost_loaded K shorter hload, hlen, hdecode]
  by_cases hfits : dnsQuery.length ≤ maxDnsPacketBytes
  · rw [if_neg (by omega), if_pos hfits]
  · rw [if_pos (by omega), if_neg hfits]

end Worker

/-- A client and a Worker with the same text for a key.  What the client reads for
a query is what the Worker says to the plain query, from its cache or from its
upstreams, and the Worker goes on as if it had got the plain one.  Only a query of
more than 4096 bytes is refused, and nothing changes then.  The client returns what
it reads in the response to its post. -/
theorem relay_round_trip (K : RelayKeys C) (shorter : Bytes → Worker.ImportedKey) (T : HttpTexts)
    {keyB64 : Str} {key : C.Key} (hload : loadKeyFromStr K keyB64 = .ok key)
    (nonce nonce' : { bytes : Bytes // bytes.length = 12 }) (s : Worker.Edge Bytes) :
    (∀ dnsQuery platform now,
      (Worker.fetchPost K shorter (some keyB64) s platform now nonce'
          (encodeForRelay C key nonce dnsQuery)).map id (Option.map (readReply T key)) =
        if dnsQuery.length ≤ 4096 then
          (s.request (C.hmac key) platform now (some dnsQuery)).map id
            (Option.map (Worker.outcome T))
        else
          (s, some (.error (.config ("relay returned ".toList ++ T.status 413 ++ ": ".toList ++
            "payload too large".toList))))) ∧
      (∀ raw e, Worker.base64ToBytes keyB64 = some raw →
        (Worker.settlePost K shorter raw s e nonce').map (Prod.map id (readReply T key)) =
          (s.settle (C.hmac key) e).map (Prod.map id (Worker.outcome T))) ∧
      ∀ post dnsQuery response, post (encodeForRelay C key nonce dnsQuery) = .ok response →
        resolveViaRelay T key post nonce dnsQuery = readReply T key response := by
  refine ⟨?_, ?_, ?_⟩
  · intro dnsQuery platform now
    rw [Worker.fetchPost_encode K shorter hload, Worker.maxDnsPacketBytes]
    split
    · rcases hrequest : s.request (C.hmac key) platform now (some dnsQuery) with ⟨s', response⟩
      cases response with
      | none => rfl
      | some reply =>
          have hrequested := Worker.requested (C.hmac key) s platform now (some dnsQuery)
          rw [hrequest] at hrequested
          exact congrArg (fun result => (s', some result))
            (Worker.readReply_respond T key nonce' hrequested.plain)
    · simp only [Prod.map_apply, Option.map_some, id]
      rw [Worker.readReply_text T key _ (by decide)]
  · intro raw e hraw
    obtain ⟨raw', hraw', himport⟩ := Worker.importKey_of_load K shorter hload
    obtain rfl := Option.some.inj (hraw'.symm.trans hraw)
    rw [Worker.settlePost, himport]
    show Option.map _ (Option.map _ (s.settle (C.hmac key) e)) = _
    cases hsettle : s.settle (C.hmac key) e with
    | none => rfl
    | some r =>
        obtain ⟨w, -, hsettled⟩ := Worker.settled_of_settle hsettle
        exact congrArg (fun result => some (r.1, result))
          (Worker.readReply_respond T key nonce' hsettled.plain)
  · intro post dnsQuery response hpost
    rw [resolveViaRelay, hpost]

end Exchange

def sampleNonce : { bytes : Bytes // bytes.length = 12 } := ⟨List.replicate 12 9, rfl⟩

def sampleTexts : HttpTexts := ⟨Nat.toDigits 10, fun _ => []⟩

def sampleShorter (raw : Bytes) : Worker.ImportedKey :=
  ⟨fun _ m => m, fun _ c => some c, (raw ++ ·)⟩

theorem load_sampleKey : loadKeyFromStr taggedKeys (generateRelayKey sampleKey) = .ok sampleKey :=
  (loadKeyFromStr_eq_ok taggedKeys).mpr ⟨sampleKey, rfl, rfl⟩

/-- A Worker with a query that waits for its upstreams. -/
def sampleWaiting : Worker.Edge Bytes :=
  (Worker.Edge.new.request (RelayCrypto.tagged.hmac sampleKey) .looks 0
    (some (Worker.addressQuery 0xAA 0xBB))).1

def sampleSettlement : Worker.Settlement :=
  ⟨0, 0, fun _ _ => .ok (200, Worker.shortReply), false, true⟩

def sampleCached : Worker.Edge Bytes :=
  { Worker.afterOneReply with
    cache := [(sampleKey.val ++ Worker.addressQuery 0 0,
      ⟨Worker.withIdentifier Worker.shortReply 0 0, 0⟩)] }

/-- A reply goes to the client that waits for it and is read from the cache for the
next one. -/
theorem relay_round_trip_sample :
    loadKeyFromStr taggedKeys (generateRelayKey sampleKey) = .ok sampleKey ∧
      (Worker.settlePost taggedKeys sampleShorter sampleKey.val sampleWaiting sampleSettlement
          sampleNonce).map (Prod.map id (@readReply .tagged sampleTexts sampleKey)) =
        some (sampleCached, .ok Worker.shortReply) ∧
      (Worker.fetchPost taggedKeys sampleShorter (some (generateRelayKey sampleKey)) sampleCached
          .looks (fromSecs 10) sampleNonce
          (encodeForRelay .tagged sampleKey sampleNonce (Worker.addressQuery 1 2))).map
        id (Option.map (@readReply .tagged sampleTexts sampleKey)) =
      (sampleCached, some (.ok (Worker.withIdentifier Worker.shortReply 1 2))) := by
  have hsettle : sampleWaiting.settle (RelayCrypto.tagged.hmac sampleKey) sampleSettlement =
      some (sampleCached, .resolved Worker.shortReply) := by decide +kernel
  have hrequest : sampleCached.request (RelayCrypto.tagged.hmac sampleKey) .looks (fromSecs 10)
      (some (Worker.addressQuery 1 2)) =
        (sampleCached, some (.cached (Worker.withIdentifier Worker.shortReply 1 2))) := by
    decide +kernel
  refine ⟨load_sampleKey, ?_, ?_⟩
  · rw [(relay_round_trip taggedKeys sampleShorter sampleTexts load_sampleKey sampleNonce
      sampleNonce sampleWaiting).2.1 sampleKey.val sampleSettlement
        (Base64.forgivingDecode_encode sampleKey.val), hsettle]
    rfl
  · rw [(relay_round_trip taggedKeys sampleShorter sampleTexts load_sampleKey sampleNonce
      sampleNonce sampleCached).1 (Worker.addressQuery 1 2) .looks (fromSecs 10),
      if_pos (by decide), hrequest]
    rfl

end DnsRelay
