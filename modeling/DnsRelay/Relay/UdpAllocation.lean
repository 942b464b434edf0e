import Mathlib.Data.Finset.Card
import Mathlib.Data.Nat.Find
import DnsRelay.Relay.UdpDispatcher

/-!
# Taking a free identifier

`resolve` looks for a free identifier from the counter on, under the lock of
the pending map.  The counter wraps.  With fewer than 65536 entries one of the
identifiers behind the counter is free, and at most as many of them are passed
as there are entries.

`allocate` is given the number of attempts that it may make.  The loop of the
source has no such number, so the result here is about all of them: from some
number on the attempts make no difference.
-/

namespace DnsRelay

open Lib

namespace UdpDispatcher

/-- `pending_len`: the number of entries. -/
def pendingLen (pending : UInt16 → Option PendingUdp) : Nat :=
  ((Finset.range 65536).filter fun i => (pending (UInt16.ofNat i)).isSome).card

section Search

variable {pending : UInt16 → Option PendingUdp} {next : UInt16}

/-- The identifiers behind the counter are different until it comes round. -/
theorem toNat_add_inj {i j : Nat} (hi : i < 65536) (hj : j < 65536)
    (h : (next + UInt16.ofNat i).toNat = (next + UInt16.ofNat j).toNat) : i = j := by
  have hnext := next.toNat_lt
  rw [UInt16.toNat_add, UInt16.toNat_add, UInt16.toNat_ofNat', UInt16.toNat_ofNat'] at h
  omega

/-- Not all of one more identifier than there are entries are taken. -/
theorem exists_free (next : UInt16) (hroom : pendingLen pending < 65536) :
    ∃ k ≤ pendingLen pending, pending (next + UInt16.ofNat k) = none := by
  by_contra hnone
  have htaken : ∀ k ≤ pendingLen pending, (pending (next + UInt16.ofNat k)).isSome = true := by
    intro k hk
    rw [Option.isSome_iff_ne_none]
    exact fun hfree => hnone ⟨k, hk, hfree⟩
  have hcard : (Finset.range (pendingLen pending + 1)).card ≤ pendingLen pending := by
    refine Finset.card_le_card_of_injOn (fun k => (next + UInt16.ofNat k).toNat) ?_ ?_
    · intro k hk
      have hk' := Finset.mem_range.mp (Finset.mem_coe.mp hk)
      refine Finset.mem_coe.mpr (Finset.mem_filter.mpr ⟨?_, ?_⟩)
      · exact Finset.mem_range.mpr (UInt16.toNat_lt _)
      · rw [UInt16.ofNat_toNat]
        exact htaken k (by omega)
    · intro i hi j hj h
      have hi' := Finset.mem_range.mp (Finset.mem_coe.mp hi)
      have hj' := Finset.mem_range.mp (Finset.mem_coe.mp hj)
      exact toNat_add_inj (by omega) (by omega) h
  rw [Finset.card_range] at hcard
  omega

/-- The first free identifier behind the counter, and how far it is. -/
theorem exists_first_free (next : UInt16) (hroom : pendingLen pending < 65536) :
    ∃ k ≤ pendingLen pending, pending (next + UInt16.ofNat k) = none ∧
      ∀ j < k, (pending (next + UInt16.ofNat j)).isSome = true := by
  have hfree := exists_free next hroom
  have hex : ∃ k, pending (next + UInt16.ofNat k) = none := by
    obtain ⟨k, -, hk⟩ := hfree
    exact ⟨k, hk⟩
  refine ⟨Nat.find hex, ?_, Nat.find_spec hex, fun j hj => ?_⟩
  · obtain ⟨k, hk, hnone⟩ := hfree
    exact (Nat.find_min' hex hnone).trans hk
  · rw [Option.isSome_iff_ne_none]
    exact Nat.find_min hex hj

/-- The loop passes the identifiers that are taken and stops. -/
theorem allocate_eq {k : Nat} (htaken : ∀ j < k, (pending (next + UInt16.ofNat j)).isSome = true)
    (hfree : pending (next + UInt16.ofNat k) = none) (attempts : Nat) :
    allocate pending attempts next =
      if k < attempts then some (next + UInt16.ofNat k, next + UInt16.ofNat k + 1) else none := by
  induction attempts generalizing next k with
  | zero => rfl
  | succ attempts ih =>
      have hzero : next + UInt16.ofNat 0 = next := by simp
      rw [allocate]
      cases k with
      | zero =>
          rw [hzero] at hfree ⊢
          rw [hfree, Option.isSome_none, if_neg Bool.false_ne_true, if_pos (Nat.succ_pos attempts)]
      | succ k =>
          have hstep : ∀ j, next + 1 + UInt16.ofNat j = next + UInt16.ofNat (j + 1) := by
            intro j
            rw [UInt16.ofNat_add, UInt16.add_assoc, UInt16.add_comm (UInt16.ofNat j)]
            rfl
          have hhead := htaken 0 (Nat.succ_pos k)
          rw [hzero] at hhead
          rw [if_pos hhead, ih (k := k) (fun j hj => ?_) (by rw [hstep]; exact hfree), hstep]
          · simp only [Nat.succ_lt_succ_iff]
          · rw [hstep]
            exact htaken (j + 1) (Nat.succ_lt_succ hj)

end Search

/-- With room in the map the loop passes no more identifiers than there are
entries.  It ends with a free one, and the map gets one entry under it. -/
theorem allocation_terminates (s : UdpDispatcher) (hroom : pendingLen s.pending < 65536) :
    ∃ k ≤ pendingLen s.pending, let id := s.nextId + UInt16.ofNat k
      s.pending id = none ∧ (∀ j < k, (s.pending (s.nextId + UInt16.ofNat j)).isSome = true) ∧
      (∀ attempts, allocate s.pending attempts s.nextId =
        if k < attempts then some (id, id + 1) else none) ∧
      ∀ upstream payload, ∃ s', s.register upstream payload = some s' ∧ s'.nextId = id + 1 ∧
        s'.pending id = some ⟨upstream, s.nextCall⟩ ∧
        ∀ other, other ≠ id → s'.pending other = s.pending other := by
  obtain ⟨k, hk, hfree, htaken⟩ := exists_first_free s.nextId hroom
  have hloop := allocate_eq htaken hfree
  refine ⟨k, hk, hfree, htaken, hloop, fun upstream payload => ?_⟩
  have halloc := hloop 65536
  rw [if_pos (by omega)] at halloc
  rw [register, halloc]
  refine ⟨_, rfl, rfl, ?_, fun other hother => ?_⟩
  · exact Function.update_self ..
  · exact Function.update_of_ne hother ..

/-- The counter is about to wrap, and both identifiers there are taken. -/
def wrappingDispatcher : UdpDispatcher :=
  { new with
    nextId := 65535
    pending := fun id => if id = 65535 ∨ id = 0 then some ⟨.v4 ⟨9, 9, 9, 9⟩ 53, 0⟩ else none }

theorem pendingLen_wrapping : pendingLen wrappingDispatcher.pending ≤ 2 := by
  have hsub : ((Finset.range 65536).filter fun i =>
      (wrappingDispatcher.pending (UInt16.ofNat i)).isSome) ⊆ {65535, 0} := by
    intro i hi
    obtain ⟨hrange, hsome⟩ := Finset.mem_filter.mp hi
    have hlt := Finset.mem_range.mp hrange
    have hid : UInt16.ofNat i = 65535 ∨ UInt16.ofNat i = 0 := by
      by_contra hother
      simp only [wrappingDispatcher, if_neg hother] at hsome
      cases hsome
    have hnat : (UInt16.ofNat i).toNat = i := by
      rw [UInt16.toNat_ofNat']
      omega
    rw [Finset.mem_insert, Finset.mem_singleton]
    rcases hid with hid | hid
    · rw [hid] at hnat
      exact .inl hnat.symm
    · rw [hid] at hnat
      exact .inr hnat.symm
  exact (Finset.card_le_card hsub).trans Finset.card_le_two

theorem allocation_terminates_wrapping :
    pendingLen wrappingDispatcher.pending < 65536 ∧
      ∃ k ≤ 2, wrappingDispatcher.pending (65535 + UInt16.ofNat k) = none ∧
        ∀ attempts, allocate wrappingDispatcher.pending attempts 65535 =
          if k < attempts then some (65535 + UInt16.ofNat k, 65535 + UInt16.ofNat k + 1)
          else none := by
  have hle := pendingLen_wrapping
  have hroom : pendingLen wrappingDispatcher.pending < 65536 := by omega
  obtain ⟨k, hk, hfree, -, hloop, -⟩ := allocation_terminates wrappingDispatcher hroom
  exact ⟨hroom, k, hk.trans hle, hfree, hloop⟩

end UdpDispatcher

end DnsRelay
