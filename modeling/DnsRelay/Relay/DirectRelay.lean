import DnsRelay.Lib.Base64
import DnsRelay.Relay.AppsScript
import DnsRelay.Relay.Client

/-!
# The client of a relay

A query that goes over a relay is encrypted under the key of the relay and
posted to the Worker.  `AppsScript` has the way over a script.  The key is a text
in the configuration.  The client reads it with a strict base64 reader and wants
32 bytes.

What a post returns is an argument.
-/

namespace DnsRelay

open Lib

/-! ## Keys -/

/-- What the libraries of the two programs make of a key. -/
structure RelayKeys (C : RelayCrypto) where
  /-- `Key::from_slice`, and `importKey` of the same bytes. -/
  fromSlice : { bytes : Bytes // bytes.length = 32 } → C.Key
  decodeError : Str → Str
  encrypt_length : ∀ key nonce message,
    (C.encrypt key nonce message).length = message.length + 16

section Client

variable {C : RelayCrypto} (K : RelayKeys C)

/-- `generate_relay_key`, for the bytes that the random generator supplies. -/
def generateRelayKey (bytes : { bytes : Bytes // bytes.length = 32 }) : Str :=
  Base64.encode bytes.val

/-- `load_key_from_str`. -/
def loadKeyFromStr (keyB64 : Str) : Except Error C.Key :=
  match Base64.decode keyB64 with
  | none => .error (.config ("invalid RELAY_KEY base64: ".toList ++ K.decodeError keyB64))
  | some bytes =>
      if h : bytes.length = 32 then .ok (K.fromSlice ⟨bytes, h⟩)
      else
        .error (.config ("RELAY_KEY must decode to 32 bytes, got ".toList ++
          Nat.toDigits 10 bytes.length))

/-- A text is taken if it is one that the generator writes. -/
theorem loadKeyFromStr_eq_ok {keyB64 : Str} {key : C.Key} :
    loadKeyFromStr K keyB64 = .ok key ↔
      ∃ bytes, keyB64 = generateRelayKey bytes ∧ K.fromSlice bytes = key := by
  rw [loadKeyFromStr]
  constructor
  · intro h
    split at h
    · cases h
    · next bytes hdecode =>
        split at h
        · next hlen => exact ⟨⟨bytes, hlen⟩, Base64.decode_eq_some.mp hdecode, Except.ok.inj h⟩
        · cases h
  · rintro ⟨bytes, rfl, rfl⟩
    rw [generateRelayKey, Base64.decode_encode]
    exact dif_pos bytes.property

/-! ## The client -/

structure HttpTexts where
  status : Nat → Str
  /-- `String::from_utf8_lossy` of bytes that are no text. -/
  replaced : Bytes → Str

/-- `String::from_utf8_lossy`. -/
def HttpTexts.fromUtf8Lossy (T : HttpTexts) (bytes : Bytes) : Str :=
  (fromUtf8 bytes).getD (T.replaced bytes)

/-- What `resolve_via_relay` makes of a response. -/
def readReply (T : HttpTexts) (key : C.Key) (response : WorkerResponse) : Except Error Bytes :=
  if ¬(200 ≤ response.code ∧ response.code < 300) then
    .error (.config ("relay returned ".toList ++ T.status response.code ++ ": ".toList ++
      T.fromUtf8Lossy response.content))
  else
    match decodeFromRelay C key response.content with
    | none => .error (.config "decrypt failed".toList)
    | some reply => .ok reply

/-- `resolve_via_relay`, for what a post returns or the text of its failure. -/
def resolveViaRelay (T : HttpTexts) (key : C.Key) (post : Bytes → Except Str WorkerResponse)
    (nonce : { bytes : Bytes // bytes.length = 12 }) (dnsQuery : Bytes) : Except Error Bytes :=
  match post (encodeForRelay C key nonce dnsQuery) with
  | .error e => .error (.config e)
  | .ok response => readReply T key response

end Client

/-! ## Libraries for examples -/

/-- Libraries that hide nothing but write the first half of the key behind a
message. -/
def RelayCrypto.tagged : RelayCrypto where
  Key := { bytes : Bytes // bytes.length = 32 }
  encrypt key _ message := message ++ key.val.take 16
  decrypt key _ packet :=
    if packet.drop (packet.length - 16) = key.val.take 16 then
      some (packet.take (packet.length - 16))
    else none
  hmac key message := key.val ++ message
  encode := Base64.encode
  decode text := (Base64.decode text).elim (.error []) .ok
  decrypt_encrypt key _ message := by
    have hlen : (message ++ key.val.take 16).length - 16 = message.length := by
      rw [List.length_append, List.length_take, key.property]
      omega
    rw [hlen, List.drop_left, List.take_left, if_pos rfl]
  decode_encode bytes := by rw [Base64.decode_encode, Option.elim_some]
  encode_ne_nil bytes h henc := by
    have hdecode := Base64.decode_encode bytes
    rw [henc] at hdecode
    exact h (Option.some.inj hdecode).symm
  hmac_ne_nil key message h := by
    have hlen := congrArg List.length h
    rw [List.length_append, key.property] at hlen
    exact absurd hlen (by simp)
  hmac_injective key a b h := List.append_cancel_left h

def taggedKeys : RelayKeys .tagged where
  fromSlice := id
  decodeError _ := []
  encrypt_length key nonce message := by
    show (message ++ key.val.take 16).length = _
    rw [List.length_append, List.length_take, key.property]
    rfl

def sampleKey : { bytes : Bytes // bytes.length = 32 } := ⟨List.replicate 32 7, rfl⟩

end DnsRelay
