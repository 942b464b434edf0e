import DnsRelay.Lib.Bytes

/-!
# Authenticated encryption

An `Aead` is a cipher that notices when a ciphertext was cut short.  Its laws
hold for messages up to a limit, as no cipher takes messages of any length.
`Authentic` is the law that nothing but a ciphertext is taken.

`wrap` puts the nonce in front of the ciphertext, and `unwrap` takes it off.
`unwrap_take` says what becomes of a wrapped message that is received into a
buffer of a given size.
-/

namespace DnsRelay.Lib

structure Aead (Key : Type) (nonceLen tagLen limit : Nat) where
  encrypt : Key → Bytes → Bytes → Bytes
  decrypt : Key → Bytes → Bytes → Option Bytes
  encrypt_length : ∀ {k n m}, n.length = nonceLen → m.length ≤ limit →
    (encrypt k n m).length = m.length + tagLen
  decrypt_encrypt : ∀ {k n m}, n.length = nonceLen → m.length ≤ limit →
    decrypt k n (encrypt k n m) = some m
  decrypt_take : ∀ {k n m i}, n.length = nonceLen → m.length ≤ limit → i < m.length + tagLen →
    decrypt k n ((encrypt k n m).take i) = none

namespace Aead

variable {Key : Type} {nonceLen tagLen limit : Nat} (A : Aead Key nonceLen tagLen limit)

def wrap (k : Key) (n m : Bytes) : Bytes := n ++ A.encrypt k n m

def unwrap (k : Key) (b : Bytes) : Option Bytes := A.decrypt k (b.take nonceLen) (b.drop nonceLen)

/-- The cipher takes nothing but its own ciphertexts. -/
def Authentic : Prop :=
  ∀ {k n c m}, n.length = nonceLen → A.decrypt k n c = some m →
    c = A.encrypt k n m ∧ c.length = m.length + tagLen

variable {A} {k : Key} {n m : Bytes}

theorem unwrap_append (hn : n.length = nonceLen) (c : Bytes) :
    A.unwrap k (n ++ c) = A.decrypt k n c := by
  rw [unwrap, List.take_left' hn, List.drop_left' hn]

theorem wrap_length (hn : n.length = nonceLen) (hm : m.length ≤ limit) :
    (A.wrap k n m).length = nonceLen + m.length + tagLen := by
  rw [wrap, List.length_append, A.encrypt_length hn hm, hn, Nat.add_assoc]

/-- A wrapped message that is received in a buffer comes out if it fits and does
not otherwise. -/
theorem unwrap_take (hn : n.length = nonceLen) (hm : m.length ≤ limit) {size : Nat}
    (hsize : nonceLen ≤ size) :
    A.unwrap k ((A.wrap k n m).take size) =
      if nonceLen + m.length + tagLen ≤ size then some m else none := by
  have htake : ((A.wrap k n m).take size).take nonceLen = n := by
    rw [List.take_take, Nat.min_eq_left hsize]
    exact List.take_left' hn
  have hdrop : ((A.wrap k n m).take size).drop nonceLen =
      (A.encrypt k n m).take (size - nonceLen) := by
    rw [List.drop_take, wrap, List.drop_left' hn]
  rw [unwrap, htake, hdrop]
  split
  · next hfit =>
      rw [List.take_of_length_le (by rw [A.encrypt_length hn hm]; omega), A.decrypt_encrypt hn hm]
  · next hfit => exact A.decrypt_take hn hm (by omega)

end Aead

/-! ## A cipher without a secret

The laws say nothing of secrecy.  They hold of a cipher that writes the length
of the message and a mark of the key in front of it. -/

/-- A length in the first six of 16 bytes, and a mark. -/
def lengthTag (mark : UInt8) (len : Nat) : Bytes :=
  toBe16 (len / 4294967296) ++ (toBe16 (len / 65536) ++ (toBe16 len ++
    mark :: List.replicate 9 0))

theorem lengthTag_length (mark : UInt8) (len : Nat) : (lengthTag mark len).length = 16 := rfl

theorem lengthTag_inj {mark : UInt8} {a b : Nat} (ha : a < 281474976710656)
    (hb : b < 281474976710656) (h : lengthTag mark a = lengthTag mark b) : a = b := by
  have hfield : ∀ i, u16At (lengthTag mark a) i = u16At (lengthTag mark b) i :=
    fun i => by rw [h]
  have hread : ∀ len, u16At (lengthTag mark len) 0 = len / 4294967296 % 65536 ∧
      u16At (lengthTag mark len) 2 = len / 65536 % 65536 ∧
      u16At (lengthTag mark len) 4 = len % 65536 :=
    fun len => ⟨be16_toBe16 _, be16_toBe16 _, be16_toBe16 _⟩
  have h0 := hfield 0
  have h2 := hfield 2
  have h4 := hfield 4
  rw [(hread a).1, (hread b).1] at h0
  rw [(hread a).2.1, (hread b).2.1] at h2
  rw [(hread a).2.2, (hread b).2.2] at h4
  omega

/-- The cipher that writes the length and the mark in front. -/
def Aead.clear {Key : Type} (mark : Key → UInt8) (nonceLen : Nat) {limit : Nat}
    (hlimit : limit < 281474976710656) : Aead Key nonceLen 16 limit where
  encrypt k _ m := lengthTag (mark k) m.length ++ m
  decrypt k _ c :=
    if c.take 16 = lengthTag (mark k) (c.length - 16) then some (c.drop 16) else none
  encrypt_length := by
    intro k n m _ _
    rw [List.length_append, lengthTag_length, Nat.add_comm]
  decrypt_encrypt := by
    intro k n m _ _
    have hlen : (lengthTag (mark k) m.length ++ m).length - 16 = m.length := by
      rw [List.length_append, lengthTag_length, Nat.add_sub_cancel_left]
    rw [hlen, if_pos]
    · rfl
    · rfl
  decrypt_take := by
    intro k n m i _ hm hi
    have hlen : ((lengthTag (mark k) m.length ++ m).take i).length = i := by
      rw [List.length_take, List.length_append, lengthTag_length]
      omega
    refine if_neg fun h => ?_
    by_cases hi16 : i < 16
    · have hshort := congrArg List.length h
      rw [lengthTag_length, List.length_take, hlen] at hshort
      omega
    · have htag : (lengthTag (mark k) m.length ++ m).take 16 = lengthTag (mark k) m.length :=
        List.take_left' (lengthTag_length _ _)
      rw [List.take_take, Nat.min_eq_left (by omega), hlen, htag] at h
      have := lengthTag_inj (by omega) (by omega) h
      omega

theorem Aead.clear_authentic {Key : Type} (mark : Key → UInt8) (nonceLen : Nat) {limit : Nat}
    (hlimit : limit < 281474976710656) :
    (Aead.clear mark nonceLen hlimit).Authentic := by
  intro k n c m _ h
  simp only [Aead.clear] at h ⊢
  split at h
  · next htag =>
      obtain rfl := Option.some.inj h
      have hlong : 16 ≤ c.length := by
        have hlen := congrArg List.length htag
        rw [lengthTag_length, List.length_take] at hlen
        omega
      rw [List.length_drop, ← htag, List.take_append_drop]
      exact ⟨rfl, by omega⟩
  · cases h

end DnsRelay.Lib
