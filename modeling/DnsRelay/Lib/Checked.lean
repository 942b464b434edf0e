import DnsRelay.Lib.Bytes

/-!
# Accesses that may panic

Rust checks every index and every range of a slice, and panics outside of it.
`Checked` is a computation that may panic.  Each access has a lemma for the case
that it is inside: it then gives what the total readers of byte strings give.

A computation that does not panic is rewritten with these lemmas from its first
access to its last.
-/

namespace DnsRelay.Lib

inductive Panic where
  | index
  | range
  | mismatch
  /-- An `expect` fails. -/
  | expect
deriving DecidableEq, Repr

/-- A computation that may panic. -/
abbrev Checked (α : Type) := Except Panic α

theorem ok_bind {α β : Type} (a : α) (f : α → Checked β) : (Except.ok a : Checked α) >>= f = f a :=
  rfl

section Accesses

variable {α : Type}

/-- `xs[i]`. -/
def index (xs : List α) (i : Nat) : Checked α :=
  match xs[i]? with
  | some x => .ok x
  | none => .error .index

/-- `xs[i] = x`. -/
def assign (xs : List α) (i : Nat) (x : α) : Checked (List α) :=
  if i < xs.length then .ok (xs.set i x) else .error .index

/-- `xs[i..j]`. -/
def range (xs : List α) (i j : Nat) : Checked (List α) :=
  if i ≤ j ∧ j ≤ xs.length then .ok ((xs.take j).drop i) else .error .range

/-- `xs[i..j].copy_from_slice(src)`. -/
def copyFromSlice (xs : List α) (i j : Nat) (src : List α) : Checked (List α) := do
  let dest ← range xs i j
  if dest.length = src.length then return xs.take i ++ src ++ xs.drop j else throw .mismatch

/-- `xs.splice(i..i, new)`. -/
def splice (xs : List α) (i : Nat) (new : List α) : Checked (List α) :=
  if i ≤ xs.length then .ok (xs.take i ++ new ++ xs.drop i) else .error .range

end Accesses

/-- `Option::expect`. -/
def expect {α : Type} : Option α → Checked α
  | some x => .ok x
  | none => .error .expect

/-- `u16::from_be_bytes([b[i], b[i + 1]])`. -/
def u16FromBeBytes (b : Bytes) (i : Nat) : Checked Nat := do
  let hi ← index b i
  let lo ← index b (i + 1)
  return be16 hi lo

/-- `u32::from_be_bytes` of a slice that is turned into an array of four. -/
def u32FromSlice : Bytes → Option Nat
  | [b0, b1, b2, b3] => some (be16 b0 b1 * 65536 + be16 b2 b3)
  | _ => none

/-! ## Accesses inside -/

section Inside

variable {b : Bytes} {i j : Nat}

theorem index_inside (h : i < b.length) : index b i = .ok (byteAt b i) := by
  rw [index, List.getElem?_eq_getElem h, byteAt, List.getD_eq_getElem _ _ h]

theorem u16FromBeBytes_inside (h : i + 2 ≤ b.length) : u16FromBeBytes b i = .ok (u16At b i) := by
  rw [u16FromBeBytes, index_inside (by omega), index_inside (by omega)]
  rfl

theorem range_inside (h : i ≤ j) (hj : j ≤ b.length) : range b i j = .ok (slice b i j) :=
  if_pos ⟨h, hj⟩

/-! A computation that goes on after an access inside. -/

theorem index_bind {β : Type} {f : UInt8 → Checked β} (h : i < b.length) :
    index b i >>= f = f (byteAt b i) := by
  rw [index_inside h, ok_bind]

theorem u16FromBeBytes_bind {β : Type} {f : Nat → Checked β} (h : i + 2 ≤ b.length) :
    u16FromBeBytes b i >>= f = f (u16At b i) := by
  rw [u16FromBeBytes_inside h, ok_bind]

theorem range_bind {β : Type} {f : Bytes → Checked β} (h : i ≤ j) (hj : j ≤ b.length) :
    range b i j >>= f = f (slice b i j) := by
  rw [range_inside h hj, ok_bind]

theorem slice_four (h : i + 4 ≤ b.length) : slice b i (i + 4) =
    [byteAt b i, byteAt b (i + 1), byteAt b (i + 2), byteAt b (i + 3)] := by
  refine ext_byteAt ?_ fun k hk => ?_
  · rw [slice_length h]
    exact Nat.add_sub_cancel_left i 4
  · rw [slice_length h] at hk
    rw [byteAt_slice (by omega)]
    obtain rfl | rfl | rfl | rfl : k = 0 ∨ k = 1 ∨ k = 2 ∨ k = 3 := by omega
    · rfl
    · rfl
    · rfl
    · rfl

/-- Four bytes are a field of 32 bits. -/
theorem u32FromSlice_slice (h : i + 4 ≤ b.length) :
    u32FromSlice (slice b i (i + 4)) = some (u32At b i) := by
  rw [slice_four h]
  rfl

theorem copyFromSlice_inside {src : Bytes} (h : i + src.length ≤ b.length) :
    copyFromSlice b i (i + src.length) src = .ok (overwrite b i src) := by
  have hlen : (slice b i (i + src.length)).length = src.length := by
    rw [slice_length h]
    exact Nat.add_sub_cancel_left i src.length
  rw [copyFromSlice, range_inside (Nat.le_add_right ..) h]
  exact if_pos hlen

/-- Two bytes that are written one after the other. -/
theorem assign_two (h : i + 2 ≤ b.length) (x y : UInt8) :
    (do let b ← assign b i x
        assign b (i + 1) y) = (.ok (overwrite b i [x, y]) : Checked Bytes) := by
  have hfit : i + [x, y].length ≤ b.length := h
  have hset : (b.set i x).set (i + 1) y = overwrite b i [x, y] := by
    refine ext_byteAt ?_ fun k hk => ?_
    · rw [List.length_set, List.length_set, overwrite_length hfit]
    · rw [List.length_set, List.length_set] at hk
      have hk' : k < ((b.set i x).set (i + 1) y).length := by
        rw [List.length_set, List.length_set]
        exact hk
      rw [byteAt, List.getD_eq_getElem _ _ hk', List.getElem_set, List.getElem_set]
      split
      · next heq =>
          subst heq
          exact (byteAt_overwrite_inside (j := 1) hfit Nat.one_lt_two).symm
      · split
        · next hne heq =>
            subst heq
            exact (byteAt_overwrite_inside (j := 0) hfit Nat.two_pos).symm
        · next hne hne' =>
            have hout : k < i ∨ i + [x, y].length ≤ k := by
              show k < i ∨ i + 2 ≤ k
              omega
            rw [byteAt_overwrite_outside hfit hout, byteAt, List.getD_eq_getElem _ _ hk]
  have hfirst : assign b i x = .ok (b.set i x) := if_pos (by omega)
  have hsecond : assign (b.set i x) (i + 1) y = .ok ((b.set i x).set (i + 1) y) := by
    refine if_pos ?_
    rw [List.length_set]
    omega
  rw [hfirst, ← hset]
  exact hsecond

theorem splice_inside {new : Bytes} (h : i ≤ b.length) :
    splice b i new = .ok (b.take i ++ new ++ b.drop i) := if_pos h

end Inside

end DnsRelay.Lib
