import Mathlib.Data.List.Sort

/-!
# Unstable sorting

`slice::sort_unstable_by_key` orders a list by a key and says nothing about
the order of elements with equal keys.  `UnstableSort` is any function that
does so, and results about a program that sorts hold for all of them.
Insertion sort is one.
-/

namespace DnsRelay.Lib

/-- A sorting routine that may permute elements with equal keys. -/
structure UnstableSort where
  /-- `sort_unstable_by_key`. -/
  sortByKey : {α κ : Type} → [LinearOrder κ] → (α → κ) → List α → List α
  perm : ∀ {α κ : Type} [LinearOrder κ] (key : α → κ) (l : List α), (sortByKey key l).Perm l
  sorted : ∀ {α κ : Type} [LinearOrder κ] (key : α → κ) (l : List α),
    (sortByKey key l).Pairwise fun a b => key a ≤ key b

namespace UnstableSort

variable (S : UnstableSort) {α κ : Type} [LinearOrder κ] {key : α → κ} {l : List α}

@[simp] theorem mem_sortByKey {a : α} : a ∈ S.sortByKey key l ↔ a ∈ l := (S.perm key l).mem_iff

@[simp] theorem sortByKey_eq_nil : S.sortByKey key l = [] ↔ l = [] := by
  rw [← List.length_eq_zero_iff, (S.perm key l).length_eq, List.length_eq_zero_iff]

def insertion : UnstableSort where
  sortByKey key l := l.insertionSort fun a b => key a ≤ key b
  perm _ l := l.perm_insertionSort _
  sorted key := List.pairwise_insertionSort fun a b => key a ≤ key b

end UnstableSort

end DnsRelay.Lib
