import DnsRelay.Relay.Resolver

/-!
# Merging discovered resolvers

The finder adds what it discovers to the healthy resolvers.  Both lists are
sorted by latency, the first entry of each address stays, and the list is cut
to its bound.

`Merged` says what one merge leaves: the entries with the smallest latencies,
one for each address.  Over a sequence of merges the best resolver that was ever
merged is the first one of the list.
-/

namespace DnsRelay

open Lib

/-! ## The first entry of each address -/

/-- Sorted by latency. -/
def ByLatency (rs : List Resolver) : Prop := rs.Pairwise fun a b => a.latency ≤ b.latency

section Retain

variable {seen : List Str} {rs : List Resolver}

/-- An address that stays is new and stays once. -/
theorem retainNew_nodup (seen : List Str) (rs : List Resolver) :
    ((retainNew seen rs).map Resolver.addr).Nodup ∧
      ∀ r ∈ retainNew seen rs, r.addr ∉ seen := by
  fun_induction retainNew seen rs with
  | case1 => simp
  | case2 seen r rest hin ih => exact ih
  | case3 seen r rest hin ih =>
      obtain ⟨hnodup, hnew⟩ := ih
      refine ⟨List.nodup_cons.mpr ⟨?_, hnodup⟩, ?_⟩
      · intro hmem
        obtain ⟨r', hr', haddr⟩ := List.mem_map.mp hmem
        exact hnew r' hr' (haddr ▸ List.mem_cons_self)
      · rintro r' (_ | ⟨_, hr'⟩)
        · exact hin
        · exact fun h => hnew r' hr' (List.mem_cons_of_mem _ h)

/-- The entry of an address that stays is the first one, and so has the smallest
latency. -/
theorem retainNew_smallest (hsorted : ByLatency rs) {r s : Resolver} (hr : r ∈ retainNew seen rs)
    (hs : s ∈ rs) (haddr : s.addr = r.addr) : r.latency ≤ s.latency := by
  fun_induction retainNew seen rs with
  | case1 => cases hr
  | case2 seen head rest hin ih =>
      cases hs with
      | head => exact absurd hin (haddr ▸ (retainNew_nodup _ _).2 r hr)
      | tail _ hs => exact ih (List.pairwise_cons.mp hsorted).2 hr hs
  | case3 seen head rest hin ih =>
      obtain ⟨hhead, hrest⟩ := List.pairwise_cons.mp hsorted
      cases hr with
      | head =>
          cases hs with
          | head => exact Nat.le_refl _
          | tail _ hs => exact hhead s hs
      | tail _ hr =>
          cases hs with
          | head =>
              have hnew := (retainNew_nodup _ _).2 r hr
              exact absurd (haddr ▸ List.mem_cons_self) hnew
          | tail _ hs => exact ih hrest hr hs

theorem retainNew_covers {s : Resolver} (hs : s ∈ rs) (hnew : s.addr ∉ seen) :
    ∃ r ∈ retainNew seen rs, r.addr = s.addr := by
  fun_induction retainNew seen rs with
  | case1 => cases hs
  | case2 seen head rest hin ih =>
      cases hs with
      | head => exact absurd hin hnew
      | tail _ hs => exact ih hs hnew
  | case3 seen head rest hin ih =>
      by_cases hhead : s.addr = head.addr
      · exact ⟨head, List.mem_cons_self, hhead.symm⟩
      · cases hs with
        | head => exact absurd rfl hhead
        | tail _ hs =>
            obtain ⟨r, hr, haddr⟩ := ih hs (by simp [hhead, hnew])
            exact ⟨r, List.mem_cons_of_mem _ hr, haddr⟩

end Retain

/-! ## One merge -/

/-- What a merge of some inputs leaves under a bound. -/
structure Merged (inputs : List Resolver) (maxLen : Nat) (out : List Resolver) : Prop where
  sorted : ByLatency out
  nodup : (out.map Resolver.addr).Nodup
  length : out.length ≤ maxLen
  best : ∀ r ∈ out, r ∈ inputs ∧ ∀ s ∈ inputs, s.addr = r.addr → r.latency ≤ s.latency
  full : ∀ s ∈ inputs, s.addr ∉ out.map Resolver.addr →
    out.length = maxLen ∧ ∀ r ∈ out, r.latency ≤ s.latency

theorem merged (S : UnstableSort) (healthy discovered : List Resolver) (maxLen : Nat) :
    Merged (healthy ++ discovered) maxLen
      (mergeDiscoveredIntoHealthy S healthy discovered maxLen) := by
  have hsorted : ByLatency (S.sortByKey Resolver.latency (healthy ++ discovered)) :=
    S.sorted Resolver.latency _
  have hmem : ∀ {r}, r ∈ S.sortByKey Resolver.latency (healthy ++ discovered) ↔
      r ∈ healthy ++ discovered := S.mem_sortByKey
  rw [mergeDiscoveredIntoHealthy]
  generalize S.sortByKey Resolver.latency (healthy ++ discovered) = rs at hsorted hmem
  have hkept : ByLatency (retainNew [] rs) := hsorted.sublist (retainNew_sublist _ _)
  constructor
  case sorted => exact hkept.sublist (List.take_sublist _ _)
  case nodup => exact (retainNew_nodup [] rs).1.sublist ((List.take_sublist _ _).map _)
  case length => exact List.length_take_le _ _
  case best =>
    intro r hr
    have hr := List.mem_of_mem_take hr
    exact ⟨hmem.mp ((retainNew_sublist _ _).subset hr),
      fun s hs => retainNew_smallest hsorted hr (hmem.mpr hs)⟩
  case full =>
    intro s hs hout
    -- the entry of this address stands behind the cut
    obtain ⟨best, hbest, haddr⟩ := retainNew_covers (hmem.mpr hs) List.not_mem_nil
    have hle := retainNew_smallest hsorted hbest (hmem.mpr hs) haddr.symm
    rw [← List.take_append_drop maxLen (retainNew [] rs)] at hbest hkept
    have hdrop : best ∈ (retainNew [] rs).drop maxLen := by
      refine (List.mem_append.mp hbest).resolve_left fun h => hout ?_
      exact haddr ▸ List.mem_map_of_mem h
    have hlong : maxLen ≤ (retainNew [] rs).length := by
      have hpos := List.length_pos_of_mem hdrop
      rw [List.length_drop] at hpos
      omega
    refine ⟨by rw [List.length_take, Nat.min_eq_left hlong], fun r hr => ?_⟩
    exact ((List.pairwise_append.mp hkept).2.2 r hr best hdrop).trans hle

/-- A merge that keeps something keeps something as good as each input. -/
theorem Merged.covers {inputs out : List Resolver} {maxLen : Nat} (h : Merged inputs maxLen out)
    (hmax : 0 < maxLen) {s : Resolver} (hs : s ∈ inputs) : ∃ r ∈ out, r.latency ≤ s.latency := by
  by_cases hmem : s.addr ∈ out.map Resolver.addr
  · obtain ⟨r, hr, haddr⟩ := List.mem_map.mp hmem
    exact ⟨r, hr, (h.best r hr).2 s hs haddr.symm⟩
  · obtain ⟨hfull, hle⟩ := h.full s hs hmem
    obtain ⟨r, hr⟩ := List.exists_mem_of_length_pos (hfull ▸ hmax)
    exact ⟨r, hr, hle r hr⟩

/-! ## Many merges -/

/-- The healthy resolvers after a sequence of merges, each with its bound. -/
def mergeAll (S : UnstableSort) (healthy : List Resolver)
    (merges : List (List Resolver × Nat)) : List Resolver :=
  merges.foldl (fun healthy m => mergeDiscoveredIntoHealthy S healthy m.1 m.2) healthy

def everMerged (healthy : List Resolver) (merges : List (List Resolver × Nat)) : List Resolver :=
  healthy ++ merges.flatMap Prod.fst

section Runs

variable {S : UnstableSort} {healthy : List Resolver} {merges : List (List Resolver × Nat)}

/-- What is in the list was merged. -/
theorem mergeAll_subset : mergeAll S healthy merges ⊆ everMerged healthy merges := by
  induction merges generalizing healthy with
  | nil => simp [mergeAll, everMerged]
  | cons m merges ih =>
      intro r hr
      have hlater := ih hr
      rw [everMerged, List.mem_append] at hlater
      rw [everMerged, List.flatMap_cons, ← List.append_assoc, List.mem_append]
      exact hlater.imp_left fun h => ((merged S healthy m.1 m.2).best r h).1

/-- After one merge the list is sorted. -/
theorem mergeAll_sorted (hne : merges ≠ []) : ByLatency (mergeAll S healthy merges) := by
  induction merges generalizing healthy with
  | nil => exact absurd rfl hne
  | cons m merges ih =>
      cases merges with
      | nil => exact (merged S healthy m.1 m.2).sorted
      | cons m' merges => exact ih (List.cons_ne_nil _ _)

/-- The list has something as good as each resolver that was merged. -/
theorem mergeAll_covers (hmax : ∀ m ∈ merges, 0 < m.2) {s : Resolver}
    (hs : s ∈ everMerged healthy merges) :
    ∃ r ∈ mergeAll S healthy merges, r.latency ≤ s.latency := by
  induction merges generalizing healthy s with
  | nil => exact ⟨s, by simpa [everMerged, mergeAll] using hs, Nat.le_refl _⟩
  | cons m merges ih =>
      rw [List.forall_mem_cons] at hmax
      rw [everMerged, List.flatMap_cons, ← List.append_assoc, List.mem_append] at hs
      cases hs with
      | inl hs =>
          -- the merge leaves something as good, and the later ones do too
          obtain ⟨mid, hmid, hle⟩ := (merged S healthy m.1 m.2).covers hmax.1 hs
          obtain ⟨r, hr, hle'⟩ := ih hmax.2 (List.mem_append_left _ hmid)
          exact ⟨r, hr, hle'.trans hle⟩
      | inr hs => exact ih hmax.2 (List.mem_append_right _ hs)

/-- The first of a sorted list that has something as good as each of some
resolvers is the best of them. -/
theorem head_best {out all : List Resolver} (hsorted : ByLatency out) (hsub : out ⊆ all)
    (hcovers : ∀ s ∈ all, ∃ r ∈ out, r.latency ≤ s.latency) (hne : all ≠ []) :
    ∃ best rest, out = best :: rest ∧ best ∈ all ∧ ∀ s ∈ all, best.latency ≤ s.latency := by
  cases out with
  | nil =>
      obtain ⟨s, hs⟩ := List.exists_mem_of_ne_nil all hne
      obtain ⟨r, hr, -⟩ := hcovers s hs
      cases hr
  | cons best rest =>
      refine ⟨best, rest, rfl, hsub List.mem_cons_self, fun s hs => ?_⟩
      obtain ⟨r, hr, hle⟩ := hcovers s hs
      cases hr with
      | head => exact hle
      | tail _ hr => exact ((List.pairwise_cons.mp hsorted).1 r hr).trans hle

end Runs

/-- A merge keeps the best resolvers.  After any number of merges the first one
is the best that was ever merged, and a list with resolvers stays one. -/
theorem merge_keeps_best (S : UnstableSort) (healthy : List Resolver) :
    (∀ (discovered : List Resolver) (maxLen : Nat), Merged (healthy ++ discovered) maxLen
      (mergeDiscoveredIntoHealthy S healthy discovered maxLen)) ∧
    ∀ merges : List (List Resolver × Nat), (∀ m ∈ merges, 0 < m.2) →
      (healthy ≠ [] → mergeAll S healthy merges ≠ []) ∧
      (merges ≠ [] → everMerged healthy merges ≠ [] →
        ∃ best rest, mergeAll S healthy merges = best :: rest ∧
          best ∈ everMerged healthy merges ∧
          ∀ s ∈ everMerged healthy merges, best.latency ≤ s.latency) := by
  refine ⟨merged S healthy, fun merges hmax => ⟨?_, ?_⟩⟩
  · intro hne hnil
    obtain ⟨s, hs⟩ := List.exists_mem_of_ne_nil healthy hne
    obtain ⟨r, hr, -⟩ := mergeAll_covers (S := S) hmax (List.mem_append_left _ hs)
    rw [hnil] at hr
    cases hr
  · intro hmerges hne
    exact head_best (mergeAll_sorted hmerges) mergeAll_subset (fun _ => mergeAll_covers hmax) hne

/-- A repeated address, and a bound that leaves one out. -/
example :
    mergeDiscoveredIntoHealthy .insertion [⟨['a'], 9⟩, ⟨['b'], 5⟩] [⟨['a'], 3⟩, ⟨['c'], 7⟩] 2 =
      [⟨['a'], 3⟩, ⟨['b'], 5⟩] := by
  decide

end DnsRelay
