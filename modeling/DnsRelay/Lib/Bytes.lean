import Mathlib.Data.List.GetD
import Mathlib.Tactic.Common

/-!
# Byte strings

Packets are lists of bytes.  `byteAt` reads one byte, `u16At` and `u32At` read
big-endian fields, and `overwrite` replaces a range in place.  A read past the
end gives zero, so every reader checks the length first, as the source does.

`SameOn lo hi p q` says that `p` and `q` agree on the positions from `lo` up
to `hi`.  Readers that stay inside such a range give the same result on both.
-/

namespace DnsRelay.Lib

/-- Byte strings. -/
abbrev Bytes := List UInt8

/-- The byte at position `i`. -/
def byteAt (b : Bytes) (i : Nat) : UInt8 := b.getD i 0

def be16 (hi lo : UInt8) : Nat := hi.toNat * 256 + lo.toNat

/-- The big-endian 16-bit field at position `i`. -/
def u16At (b : Bytes) (i : Nat) : Nat := be16 (byteAt b i) (byteAt b (i + 1))

/-- The big-endian 32-bit field at position `i`. -/
def u32At (b : Bytes) (i : Nat) : Nat := u16At b i * 65536 + u16At b (i + 2)

/-- A number as two big-endian bytes, truncated to 16 bits. -/
def toBe16 (n : Nat) : Bytes := [UInt8.ofNat (n / 256), UInt8.ofNat n]

/-- A number as four big-endian bytes, truncated to 32 bits. -/
def toBe32 (n : Nat) : Bytes := toBe16 (n / 65536) ++ toBe16 n

/-- The bytes from position `i` up to `j`. -/
def slice (b : Bytes) (i j : Nat) : Bytes := (b.take j).drop i

/-- Replace the bytes from position `i` on by `new`. -/
def overwrite (b : Bytes) (i : Nat) (new : Bytes) : Bytes :=
  b.take i ++ new ++ b.drop (i + new.length)

/-- `p` and `q` agree on the positions from `lo` up to `hi`. -/
def SameOn (lo hi : Nat) (p q : Bytes) : Prop :=
  ∀ i, lo ≤ i → i < hi → byteAt p i = byteAt q i

/-! ## Fields -/

theorem be16_lt (hi lo : UInt8) : be16 hi lo < 65536 := by
  have h1 := hi.toNat_lt
  have h2 := lo.toNat_lt
  unfold be16
  omega

theorem u16At_lt (b : Bytes) (i : Nat) : u16At b i < 65536 := be16_lt _ _

theorem u32At_lt (b : Bytes) (i : Nat) : u32At b i < 4294967296 := by
  have h1 := u16At_lt b i
  have h2 := u16At_lt b (i + 2)
  unfold u32At
  omega

theorem toNat_ofNat (n : Nat) : (UInt8.ofNat n).toNat = n % 256 := UInt8.toNat_ofNat

/-- Writing a 16-bit field and reading it back keeps the low 16 bits. -/
theorem be16_toBe16 (n : Nat) : be16 (UInt8.ofNat (n / 256)) (UInt8.ofNat n) = n % 65536 := by
  rw [be16, toNat_ofNat, toNat_ofNat]
  omega

@[simp] theorem toBe16_length (n : Nat) : (toBe16 n).length = 2 := rfl

@[simp] theorem toBe32_length (n : Nat) : (toBe32 n).length = 4 := rfl

/-! ## Positions in an append -/

theorem byteAt_append_left {a b : Bytes} {i : Nat} (h : i < a.length) :
    byteAt (a ++ b) i = byteAt a i :=
  List.getD_append _ _ _ _ h

theorem byteAt_append_right {a b : Bytes} {i : Nat} (h : a.length ≤ i) :
    byteAt (a ++ b) i = byteAt b (i - a.length) :=
  List.getD_append_right _ _ _ _ h

theorem byteAt_take {b : Bytes} {n i : Nat} (h : i < n) : byteAt (b.take n) i = byteAt b i := by
  unfold byteAt
  rw [List.getD_eq_getElem?_getD, List.getD_eq_getElem?_getD, List.getElem?_take_of_lt h]

theorem drop_eq_byteAt_cons {b : Bytes} {i : Nat} (h : i < b.length) :
    b.drop i = byteAt b i :: b.drop (i + 1) := by
  rw [List.drop_eq_getElem_cons h, byteAt, List.getD_eq_getElem b 0 h]

theorem byteAt_mem {b : Bytes} {i : Nat} (h : i < b.length) : byteAt b i ∈ b := by
  rw [byteAt, List.getD_eq_getElem b 0 h]
  exact List.getElem_mem h

theorem byteAt_drop (b : Bytes) (n i : Nat) : byteAt (b.drop n) i = byteAt b (n + i) := by
  unfold byteAt
  rw [List.getD_eq_getElem?_getD, List.getD_eq_getElem?_getD, List.getElem?_drop]

theorem byteAt_append_add (a b : Bytes) (i : Nat) :
    byteAt (a ++ b) (a.length + i) = byteAt b i := by
  rw [byteAt_append_right (by omega), Nat.add_sub_cancel_left]

theorem u16At_append_add (a b : Bytes) (i : Nat) : u16At (a ++ b) (a.length + i) = u16At b i := by
  rw [u16At, u16At, Nat.add_assoc, byteAt_append_add, byteAt_append_add]

theorem toBe16_be16 (hi lo : UInt8) : toBe16 (be16 hi lo) = [hi, lo] := by
  have hhi := hi.toNat_lt
  have hlo := lo.toNat_lt
  have h1 : UInt8.ofNat (be16 hi lo / 256) = hi := by
    apply UInt8.toNat_inj.mp
    rw [UInt8.toNat_ofNat', be16]
    omega
  have h2 : UInt8.ofNat (be16 hi lo) = lo := by
    apply UInt8.toNat_inj.mp
    rw [UInt8.toNat_ofNat', be16]
    omega
  rw [toBe16, h1, h2]

theorem u16At_toBe16_append (n : Nat) (b : Bytes) : u16At (toBe16 n ++ b) 0 = n % 65536 :=
  be16_toBe16 n

/-- Byte strings of one length are equal when they agree at every position. -/
theorem ext_byteAt {p q : Bytes} (hlen : p.length = q.length)
    (h : ∀ i, i < p.length → byteAt p i = byteAt q i) : p = q := by
  apply List.ext_getElem hlen
  intro i hp hq
  have hi := h i hp
  unfold byteAt at hi
  rwa [List.getD_eq_getElem _ _ hp, List.getD_eq_getElem _ _ hq] at hi

/-! ## Slices -/

theorem slice_length {b : Bytes} {i j : Nat} (hj : j ≤ b.length) :
    (slice b i j).length = j - i := by
  simp [slice, Nat.min_eq_left hj]

theorem byteAt_slice {b : Bytes} {i j k : Nat} (h : i + k < j) :
    byteAt (slice b i j) k = byteAt b (i + k) := by
  rw [slice, byteAt_drop, byteAt_take h]

theorem u16At_slice {b : Bytes} {i j k : Nat} (h : i + k + 1 < j) :
    u16At (slice b i j) k = u16At b (i + k) := by
  rw [u16At, u16At, byteAt_slice (by omega), byteAt_slice (by omega)]
  rfl

/-- Slices of strings that agree on the range are equal. -/
theorem slice_congr {p q : Bytes} {i j : Nat} (hp : j ≤ p.length) (hq : j ≤ q.length)
    (h : SameOn i j p q) : slice p i j = slice q i j := by
  apply ext_byteAt
  · rw [slice_length hp, slice_length hq]
  · intro k hk
    rw [slice_length hp] at hk
    rw [byteAt_slice (by omega), byteAt_slice (by omega)]
    exact h (i + k) (by omega) (by omega)

theorem slice_append_add (a b : Bytes) (i j : Nat) :
    slice (a ++ b) (a.length + i) (a.length + j) = slice b i j := by
  rw [slice, slice, List.take_length_add_append, ← List.drop_drop, List.drop_left]

theorem slice_append_left (a b : Bytes) : slice (a ++ b) 0 a.length = a := by
  rw [slice, List.take_left, List.drop_zero]

theorem slice_eq_take_drop (b : Bytes) (i j : Nat) : slice b i j = (b.drop i).take (j - i) :=
  List.drop_take ..

theorem slice_append_slice (b : Bytes) {i j k : Nat} (hij : i ≤ j) (hjk : j ≤ k) :
    slice b i j ++ slice b j k = slice b i k := by
  have hdrop : b.drop j = (b.drop i).drop (j - i) := by
    rw [List.drop_drop]
    congr 1
    omega
  rw [slice_eq_take_drop, slice_eq_take_drop, slice_eq_take_drop, hdrop, ← List.take_add]
  congr 1
  omega

theorem slice_zero (b : Bytes) (j : Nat) : slice b 0 j = b.take j := List.drop_zero

theorem slice_to_length (b : Bytes) (i : Nat) : slice b i b.length = b.drop i := by
  rw [slice, List.take_length]

/-! ## Overwriting -/

theorem overwrite_length {b new : Bytes} {i : Nat} (h : i + new.length ≤ b.length) :
    (overwrite b i new).length = b.length := by
  simp only [overwrite, List.length_append, List.length_take, List.length_drop]
  omega

theorem byteAt_overwrite_before {b new : Bytes} {i j : Nat} (h : i + new.length ≤ b.length)
    (hj : j < i) : byteAt (overwrite b i new) j = byteAt b j := by
  have hlen : (b.take i).length = i := by
    rw [List.length_take]
    omega
  rw [overwrite, List.append_assoc, byteAt_append_left (by omega), byteAt_take hj]

theorem byteAt_overwrite_inside {b new : Bytes} {i j : Nat} (h : i + new.length ≤ b.length)
    (hj : j < new.length) : byteAt (overwrite b i new) (i + j) = byteAt new j := by
  have hlen : (b.take i).length = i := by
    rw [List.length_take]
    omega
  rw [overwrite, List.append_assoc, byteAt_append_right (by omega), hlen,
    byteAt_append_left (by omega), Nat.add_sub_cancel_left]

theorem byteAt_overwrite_after {b new : Bytes} {i j : Nat} (h : i + new.length ≤ b.length)
    (hj : i + new.length ≤ j) : byteAt (overwrite b i new) j = byteAt b j := by
  have hlen : (b.take i ++ new).length = i + new.length := by
    rw [List.length_append, List.length_take]
    omega
  rw [overwrite, byteAt_append_right (by omega), hlen, byteAt_drop]
  congr 1
  omega

theorem take_overwrite {b new : Bytes} {i n : Nat} (hn : n ≤ i) (hi : i ≤ b.length) :
    (overwrite b i new).take n = b.take n := by
  have hlen : (b.take i).length = i := List.length_take_of_le hi
  rw [overwrite, List.append_assoc, List.take_append_of_le_length (by omega), List.take_take,
    Nat.min_eq_left hn]

theorem drop_overwrite {b new : Bytes} {i n : Nat} (h : i + new.length ≤ b.length)
    (hn : i + new.length ≤ n) : (overwrite b i new).drop n = b.drop n := by
  have hlen : (b.take i ++ new).length = i + new.length := by
    rw [List.length_append, List.length_take]
    omega
  rw [overwrite, List.drop_append, hlen, List.drop_drop, List.drop_of_length_le (by omega),
    List.nil_append]
  congr 1
  omega

theorem overwrite_append_left {a b new : Bytes} {i : Nat} (h : i + new.length ≤ a.length) :
    overwrite (a ++ b) i new = overwrite a i new ++ b := by
  rw [overwrite, overwrite, List.take_append_of_le_length (by omega),
    List.drop_append_of_le_length h, List.append_assoc _ _ b]

/-- Overwriting leaves every position outside the written range alone. -/
theorem byteAt_overwrite_outside {b new : Bytes} {i j : Nat} (h : i + new.length ≤ b.length)
    (hj : j < i ∨ i + new.length ≤ j) : byteAt (overwrite b i new) j = byteAt b j := by
  rcases hj with hj | hj
  · exact byteAt_overwrite_before h hj
  · exact byteAt_overwrite_after h hj

/-- A 16-bit field that was written is read back. -/
theorem u16At_overwrite {b : Bytes} {i n : Nat} (h : i + (toBe16 n).length ≤ b.length) :
    u16At (overwrite b i (toBe16 n)) i = n % 65536 := by
  have h0 := byteAt_overwrite_inside h (j := 0) (by simp)
  have h1 := byteAt_overwrite_inside h (j := 1) (by simp)
  exact (congrArg₂ be16 h0 h1).trans (be16_toBe16 n)

/-- A 32-bit field that was written is read back. -/
theorem u32At_overwrite {b : Bytes} {i n : Nat} (h : i + 4 ≤ b.length) (hn : n < 4294967296) :
    u32At (overwrite b i (toBe32 n)) i = n := by
  have hbyte : ∀ j < 4, byteAt (overwrite b i (toBe32 n)) (i + j) = byteAt (toBe32 n) j :=
    fun j hj => byteAt_overwrite_inside h hj
  have h0 := hbyte 0 (by omega)
  have h1 := hbyte 1 (by omega)
  have h2 := hbyte 2 (by omega)
  have h3 := hbyte 3 (by omega)
  rw [Nat.add_zero] at h0
  rw [u32At, u16At, u16At, Nat.add_assoc i 2 1, h0, h1, h2, h3]
  show be16 (UInt8.ofNat (n / 65536 / 256)) (UInt8.ofNat (n / 65536)) * 65536 +
    be16 (UInt8.ofNat (n / 256)) (UInt8.ofNat n) = n
  rw [be16_toBe16, be16_toBe16]
  omega

/-! ## Agreement -/

theorem SameOn.refl (lo hi : Nat) (p : Bytes) : SameOn lo hi p p := fun _ _ _ => rfl

theorem SameOn.symm {lo hi : Nat} {p q : Bytes} (h : SameOn lo hi p q) : SameOn lo hi q p :=
  fun i h1 h2 => (h i h1 h2).symm

theorem SameOn.mono {lo hi lo' hi' : Nat} {p q : Bytes} (h : SameOn lo hi p q)
    (hlo : lo ≤ lo') (hhi : hi' ≤ hi) : SameOn lo' hi' p q :=
  fun i h1 h2 => h i (by omega) (by omega)

theorem SameOn.u16At {lo hi i : Nat} {p q : Bytes} (h : SameOn lo hi p q) (h1 : lo ≤ i)
    (h2 : i + 2 ≤ hi) : u16At p i = u16At q i := by
  rw [Lib.u16At, Lib.u16At, h i h1 (by omega), h (i + 1) (by omega) (by omega)]

theorem SameOn.u32At {lo hi i : Nat} {p q : Bytes} (h : SameOn lo hi p q) (h1 : lo ≤ i)
    (h2 : i + 4 ≤ hi) : u32At p i = u32At q i := by
  rw [Lib.u32At, Lib.u32At, h.u16At h1 (by omega), h.u16At (by omega) (by omega)]

end DnsRelay.Lib
