import DnsRelay.Lib.Aead

/-!
# Obfuscated datagrams

A query between the proxy and the relay travels in a datagram that shows
neither its bytes nor its length.  The plaintext has the length of the query,
the query and a padding, and is encrypted under a fresh nonce.

The cipher is a parameter with its laws.  What `encode` draws at random is an
argument.
-/

namespace DnsRelay

open Lib

/-- `NONCE_LEN`. -/
def nonceLen : Nat := 12

/-- `LEN_PREFIX`. -/
def lenPrefix : Nat := 2

/-- `TAG_LEN`. -/
def tagLen : Nat := 16

/-- `PAD_MIN`. -/
def padMin : Nat := 32

/-- `PAD_MAX`. -/
def padMax : Nat := 192

/-- The longest message of the cipher: blocks of 64 bytes under a counter of 32
bits, but for the first one. -/
def messageLimit : Nat := 274877906880

/-- The cipher. -/
abbrev ChaCha20Poly1305 (Key : Type) : Type := Aead Key nonceLen tagLen messageLimit

/-- What one call of `encode` draws. -/
structure Draw where
  random : UInt16
  padding : Bytes
  nonce : Bytes
  padding_length : padding.length = padMin + random.toNat % (padMax - padMin + 1)
  nonce_length : nonce.length = nonceLen

theorem Draw.padding_le (d : Draw) : d.padding.length ≤ padMax := by
  rw [d.padding_length, padMin, padMax]
  omega

section Codec

variable {Key : Type} (A : ChaCha20Poly1305 Key)

def obfsPlaintext (query padding : Bytes) : Bytes := toBe16 query.length ++ query ++ padding

/-- `ObfsKey::encode`. -/
def ObfsKey.encode (key : Key) (query : Bytes) (d : Draw) : Bytes :=
  A.wrap key d.nonce (obfsPlaintext query d.padding)

/-- The query in a plaintext.  A length that is not there is refused. -/
def obfsQuery (plaintext : Bytes) : Option Bytes :=
  if plaintext.length < lenPrefix then none
  else if plaintext.length < lenPrefix + u16At plaintext 0 then none
  else some (slice plaintext lenPrefix (lenPrefix + u16At plaintext 0))

/-- `ObfsKey::decode`. -/
def ObfsKey.decode (key : Key) (datagram : Bytes) : Option Bytes :=
  if datagram.length < nonceLen + tagLen + lenPrefix then none
  else (A.unwrap key datagram).bind obfsQuery

theorem obfsPlaintext_length (query padding : Bytes) :
    (obfsPlaintext query padding).length = 2 + query.length + padding.length := by
  rw [obfsPlaintext, List.length_append, List.length_append, toBe16_length]

theorem obfsQuery_plaintext {query : Bytes} (h : query.length < 65536) (padding : Bytes) :
    obfsQuery (obfsPlaintext query padding) = some query := by
  have hlen := obfsPlaintext_length query padding
  have hfield : u16At (obfsPlaintext query padding) 0 = query.length := by
    rw [obfsPlaintext, List.append_assoc, u16At_toBe16_append, Nat.mod_eq_of_lt h]
  have hslice : slice (obfsPlaintext query padding) 2 (2 + query.length) = query := by
    rw [obfsPlaintext, List.append_assoc]
    exact (slice_append_add (toBe16 query.length) (query ++ padding) 0 query.length).trans
      (slice_append_left query padding)
  rw [obfsQuery, lenPrefix, if_neg (by omega), hfield, if_neg (by omega), hslice]

/-- A plaintext with a query in it starts with the length and the query. -/
theorem obfsPlaintext_of_query {plaintext query : Bytes} (h : obfsQuery plaintext = some query) :
    query.length ≤ 65535 ∧ ∃ padding, plaintext = obfsPlaintext query padding := by
  cases plaintext with
  | nil => cases h
  | cons hi rest =>
      cases rest with
      | nil => cases h
      | cons lo rest =>
          unfold obfsQuery at h
          split at h
          · cases h
          · split at h
            · cases h
            · next hlong =>
                generalize hlen : u16At (hi :: lo :: rest) 0 = len at h hlong
                have hlt : len < 65536 := hlen ▸ u16At_lt _ _
                have hfield : toBe16 len = [hi, lo] := hlen ▸ toBe16_be16 hi lo
                have hslice : slice (hi :: lo :: rest) lenPrefix (lenPrefix + len) =
                    rest.take len := by
                  rw [slice_eq_take_drop, Nat.add_sub_cancel_left]
                  rfl
                have htake : (rest.take len).length = len := by
                  rw [List.length_cons, List.length_cons, lenPrefix] at hlong
                  rw [List.length_take]
                  omega
                rw [hslice] at h
                obtain rfl := Option.some.inj h
                refine ⟨by omega, rest.drop len, ?_⟩
                rw [obfsPlaintext, htake, hfield, List.append_assoc, List.take_append_drop]
                rfl

/-- The bytes a datagram has beside the query and the padding. -/
def obfsOverhead : Nat := nonceLen + tagLen + lenPrefix

variable {A}

/-- A datagram that is received in a buffer gives its query back exactly when
it fits. -/
theorem ObfsKey.decode_take {key : Key} {query : Bytes} (h : query.length < 65536) (d : Draw)
    {size : Nat} (hsize : obfsOverhead ≤ size) :
    ObfsKey.decode A key ((ObfsKey.encode A key query d).take size) =
      if query.length + d.padding.length + obfsOverhead ≤ size then some query else none := by
  have hpad := d.padding_le
  have hplain := obfsPlaintext_length query d.padding
  rw [padMax] at hpad
  have hlimit : (obfsPlaintext query d.padding).length ≤ messageLimit := by
    rw [messageLimit]
    omega
  have hlong : ¬((ObfsKey.encode A key query d).take size).length <
      nonceLen + tagLen + lenPrefix := by
    rw [ObfsKey.encode, List.length_take, A.wrap_length d.nonce_length hlimit, hplain]
    rw [obfsOverhead, nonceLen, tagLen, lenPrefix] at hsize
    rw [nonceLen, tagLen, lenPrefix]
    omega
  rw [ObfsKey.decode, if_neg hlong, ObfsKey.encode, A.unwrap_take d.nonce_length hlimit
    (Nat.le_trans (by decide) hsize), hplain]
  have hsum : nonceLen + (2 + query.length + d.padding.length) + tagLen =
      query.length + d.padding.length + obfsOverhead := by
    rw [obfsOverhead, nonceLen, tagLen, lenPrefix]
    omega
  rw [hsum]
  split
  · exact obfsQuery_plaintext h d.padding
  · rfl

/-- A datagram gives a query exactly when it is a nonce and a ciphertext of a
plaintext with that query. -/
theorem ObfsKey.decode_eq_some (hA : A.Authentic) {key : Key} {datagram query : Bytes} :
    ObfsKey.decode A key datagram = some query ↔
      query.length ≤ 65535 ∧ ∃ nonce ciphertext padding, datagram = nonce ++ ciphertext ∧
        nonce.length = nonceLen ∧
        A.decrypt key nonce ciphertext = some (obfsPlaintext query padding) := by
  unfold ObfsKey.decode
  constructor
  · intro h
    split at h
    · cases h
    · next hlong =>
        obtain ⟨plaintext, hdecrypt, hquery⟩ := Option.bind_eq_some_iff.mp h
        obtain ⟨hlen, padding, rfl⟩ := obfsPlaintext_of_query hquery
        have hnonce : (datagram.take nonceLen).length = nonceLen := by
          rw [List.length_take]
          omega
        exact ⟨hlen, datagram.take nonceLen, datagram.drop nonceLen, padding,
          (List.take_append_drop _ _).symm, hnonce, hdecrypt⟩
  · rintro ⟨hlen, nonce, ciphertext, padding, rfl, hnonce, hdecrypt⟩
    have hlong := (hA hnonce hdecrypt).2
    rw [obfsPlaintext_length] at hlong
    rw [if_neg, A.unwrap_append hnonce, hdecrypt, Option.bind_some]
    · exact obfsQuery_plaintext (by omega) padding
    · rw [List.length_append, hnonce, lenPrefix]
      omega

end Codec

/-- The codec gives back what it was given, whatever it draws, and takes exactly
the datagrams that carry a query under the key. -/
theorem obfs_codec_correct {Key : Type} (A : ChaCha20Poly1305 Key) (hA : A.Authentic) (key : Key) :
    (∀ (query : Bytes) (d : Draw), query.length ≤ 65535 →
      ObfsKey.decode A key (ObfsKey.encode A key query d) = some query) ∧
    ∀ datagram query : Bytes, ObfsKey.decode A key datagram = some query ↔
      query.length ≤ 65535 ∧ ∃ nonce ciphertext padding, datagram = nonce ++ ciphertext ∧
        nonce.length = nonceLen ∧
        A.decrypt key nonce ciphertext = some (obfsPlaintext query padding) := by
  refine ⟨fun query d hlen => ?_, fun _ _ => ObfsKey.decode_eq_some hA⟩
  have hpad := d.padding_le
  rw [padMax] at hpad
  have hlimit : (obfsPlaintext query d.padding).length ≤ messageLimit := by
    rw [obfsPlaintext_length, messageLimit]
    omega
  exact (ObfsKey.decode_eq_some hA).mpr
    ⟨hlen, d.nonce, _, d.padding, rfl, d.nonce_length, A.decrypt_encrypt d.nonce_length hlimit⟩

/-- The cipher without a secret takes only its own ciphertexts. -/
theorem obfs_codec_correct_clear :
    let A : ChaCha20Poly1305 UInt8 := Aead.clear id nonceLen (by decide)
    A.Authentic ∧ ∀ (query : Bytes) (d : Draw), query.length ≤ 65535 →
      ObfsKey.decode A 7 (ObfsKey.encode A 7 query d) = some query := by
  intro A
  have hA : A.Authentic := Aead.clear_authentic id nonceLen _
  exact ⟨hA, (obfs_codec_correct A hA 7).1⟩

end DnsRelay
