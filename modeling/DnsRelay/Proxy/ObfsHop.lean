import DnsRelay.Shared.CacheKey
import DnsRelay.Shared.Obfs

/-!
# The obfuscated hop

The proxy wraps a query and sends it to the relay.  The relay tries its keys on
the datagram, resolves the query and wraps the reply under the key that fitted.
Every receive cuts a datagram to the size of its buffer.

The buffer of the relay has room for the longest query with its overhead.  The
buffer of the proxy is as large as that for plain replies.  A long reply does
not fit once it is wrapped, and how long it may be depends on the padding that
was drawn for it.
-/

namespace DnsRelay

open Lib

/-- `PAYLOAD_BUF_SIZE`. -/
def payloadBufSize : Nat := 1024

/-- `OBFS_PAYLOAD_BUF_SIZE`. -/
def obfsPayloadBufSize : Nat := payloadBufSize + nonceLen + tagLen + lenPrefix + padMax + 64

/-- `PROXY_PAYLOAD_BUF_SIZE`. -/
def proxyPayloadBufSize : Nat := 4096

def recv (size : Nat) (datagram : Bytes) : Bytes := datagram.take size

section Hop

variable {Key : Type} (A : ChaCha20Poly1305 Key)

/-! ## The relay -/

/-- The first key that fits a datagram, and the query. -/
def findKey (keys : List Key) (datagram : Bytes) : Option (Key × Bytes) :=
  keys.findSome? fun key => (ObfsKey.decode A key datagram).map fun query => (key, query)

/-- `run_obfs_listener`, for one datagram.  Without a permit the query is
dropped. -/
def runObfsListener (keys : List Key) (permit : Bool) (resolveQuery : Bytes → Option Bytes)
    (d : Draw) (datagram : Bytes) : Option Bytes :=
  match findKey A keys (recv obfsPayloadBufSize datagram) with
  | none => none
  | some (key, query) =>
      if permit then (resolveQuery query).map fun resp => ObfsKey.encode A key resp d else none

/-! ## The proxy -/

/-- How a query to the relay fails. -/
inductive SendError where
  | resolveTimeout
  | invalidResolver (message : Str)
deriving DecidableEq, Repr

/-- `send_obfs`, to a relay that answers a datagram with another one or not in
time. -/
def sendObfs (addr : Str) (key : Key) (query : Bytes) (d : Draw)
    (relay : Bytes → Option Bytes) : Except SendError Bytes :=
  match relay (ObfsKey.encode A key query d) with
  | none => .error .resolveTimeout
  | some datagram =>
      match ObfsKey.decode A key (recv proxyPayloadBufSize datagram) with
      | some reply => .ok reply
      | none => .error (.invalidResolver ("undecodable obfs reply from ".toList ++ addr))

/-! ## Both sides -/

variable {A} {earlier later : List Key} {key : Key}

/-- The relay finds the query, under the key of the proxy, if no earlier key
takes the datagram for its own. -/
theorem findKey_encode {query : Bytes} {d : Draw}
    (hquery : query.length ≤ payloadBufSize)
    (hearlier : ∀ k ∈ earlier, ObfsKey.decode A k (recv obfsPayloadBufSize
      (ObfsKey.encode A key query d)) = none) :
    findKey A (earlier ++ key :: later) (recv obfsPayloadBufSize (ObfsKey.encode A key query d)) =
      some (key, query) := by
  have hpad := d.padding_le
  rw [padMax] at hpad
  rw [payloadBufSize] at hquery
  have hdecode : ObfsKey.decode A key (recv obfsPayloadBufSize (ObfsKey.encode A key query d)) =
      some query := by
    rw [recv, ObfsKey.decode_take (by omega) d (by decide), if_pos]
    show query.length + d.padding.length + 30 ≤ 1310
    omega
  have hnone : earlier.findSome? (fun k => (ObfsKey.decode A k (recv obfsPayloadBufSize
      (ObfsKey.encode A key query d))).map fun q => (k, q)) = none := by
    rw [List.findSome?_eq_none_iff]
    intro k hk
    rw [hearlier k hk]
    rfl
  rw [findKey, List.findSome?_append, hnone, Option.none_or, List.findSome?_cons, hdecode]
  rfl

/-- The proxy gets the reply if it fits its buffer with padding and overhead,
and refuses it otherwise. -/
theorem sendObfs_listener {query reply : Bytes} {d d' : Draw}
    {resolveQuery : Bytes → Option Bytes} {keys : List Key}
    (hfind : findKey A keys (recv obfsPayloadBufSize (ObfsKey.encode A key query d)) =
      some (key, query)) (hresolve : resolveQuery query = some reply)
    (hreply : reply.length < 65536) (addr : Str) :
    sendObfs A addr key query d (runObfsListener A keys true resolveQuery d') =
      if reply.length + d'.padding.length + obfsOverhead ≤ proxyPayloadBufSize then .ok reply
      else .error (.invalidResolver ("undecodable obfs reply from ".toList ++ addr)) := by
  have hlistener : runObfsListener A keys true resolveQuery d' (ObfsKey.encode A key query d) =
      some (ObfsKey.encode A key reply d') := by
    rw [runObfsListener, hfind]
    simp only [if_true, hresolve, Option.map_some]
  rw [sendObfs, hlistener]
  simp only [recv]
  rw [ObfsKey.decode_take hreply d' (by decide)]
  by_cases hfit : reply.length + d'.padding.length + obfsOverhead ≤ proxyPayloadBufSize
  · rw [if_pos hfit, if_pos hfit]
  · rw [if_neg hfit, if_neg hfit]

/-- The hop is transparent exactly when the reply, its padding and the overhead
fit the buffer of the proxy. -/
theorem obfs_hop_transparent_iff {query reply : Bytes} (hquery : query.length ≤ payloadBufSize)
    (hreply : reply.length ≤ 4096) (d d' : Draw)
    (hearlier : ∀ k ∈ earlier, ObfsKey.decode A k (recv obfsPayloadBufSize
      (ObfsKey.encode A key query d)) = none)
    {resolveQuery : Bytes → Option Bytes} (hresolve : resolveQuery query = some reply)
    (addr : Str) :
    let keys := earlier ++ key :: later
    findKey A keys (recv obfsPayloadBufSize (ObfsKey.encode A key query d)) = some (key, query) ∧
      (sendObfs A addr key query d (runObfsListener A keys true resolveQuery d') = .ok reply ↔
        reply.length + d'.padding.length + obfsOverhead ≤ proxyPayloadBufSize) := by
  intro keys
  have hfind := @findKey_encode Key A earlier later key query d hquery hearlier
  refine ⟨hfind, ?_⟩
  rw [sendObfs_listener hfind hresolve (by omega) addr]
  constructor
  · intro h
    by_contra hfit
    rw [if_neg hfit] at h
    cases h
  · exact fun hfit => if_pos hfit

end Hop

/-- A cipher whose keys are told apart by a mark. -/
def markedCipher : ChaCha20Poly1305 Bool :=
  Aead.clear (fun key => if key then 1 else 0) nonceLen (by decide)

def shortDraw : Draw where
  random := 0
  padding := List.replicate padMin 0
  nonce := List.replicate nonceLen 0
  padding_length := by decide
  nonce_length := by decide

theorem obfs_hop_transparent_iff_second_key :
    let query := addressQuery [1, 0x61, 0]
    let keys := [false] ++ true :: []
    let relay := runObfsListener markedCipher keys true some shortDraw
    ObfsKey.decode markedCipher false
        (recv obfsPayloadBufSize (ObfsKey.encode markedCipher true query shortDraw)) = none ∧
      findKey markedCipher keys
        (recv obfsPayloadBufSize (ObfsKey.encode markedCipher true query shortDraw)) =
          some (true, query) ∧
      (sendObfs markedCipher [] true query shortDraw relay = .ok query ↔
        query.length + shortDraw.padding.length + obfsOverhead ≤ proxyPayloadBufSize) := by
  intro query keys relay
  have hother : ObfsKey.decode markedCipher false
      (recv obfsPayloadBufSize (ObfsKey.encode markedCipher true query shortDraw)) = none := by
    decide +kernel
  have hearlier : ∀ k ∈ [false], ObfsKey.decode markedCipher k
      (recv obfsPayloadBufSize (ObfsKey.encode markedCipher true query shortDraw)) = none := by
    intro k hk
    rw [List.mem_singleton.mp hk]
    exact hother
  exact ⟨hother, obfs_hop_transparent_iff (by decide) (by decide) shortDraw shortDraw hearlier
    rfl []⟩

def longReply : Bytes := List.replicate 4096 0

/-- The proxy refuses it even with the shortest padding. -/
theorem long_reply_undecodable :
    let query := addressQuery [1, 0x61, 0]
    let relay := runObfsListener markedCipher [true] true (fun _ => some longReply) shortDraw
    longReply.length = 4096 ∧ findKey markedCipher [true]
        (recv obfsPayloadBufSize (ObfsKey.encode markedCipher true query shortDraw)) =
          some (true, query) ∧
      sendObfs markedCipher [] true query shortDraw relay =
        .error (.invalidResolver "undecodable obfs reply from ".toList) := by
  intro query relay
  have hlen : longReply.length = 4096 := List.length_replicate
  have hfind : findKey markedCipher [true]
      (recv obfsPayloadBufSize (ObfsKey.encode markedCipher true query shortDraw)) =
        some (true, query) := by
    decide +kernel
  refine ⟨hlen, hfind, ?_⟩
  have hsend := @sendObfs_listener Bool markedCipher true query longReply shortDraw shortDraw
    (fun _ => some longReply) [true] hfind rfl (by omega) []
  rw [if_neg (by rw [hlen]; decide), List.append_nil] at hsend
  exact hsend

end DnsRelay
