import DnsRelay.Lib.EvictingMap

/-!
# Tries

A trie is a value and children by key.  `Trie.insert` sets the value at a path
and creates the nodes on the way with a default value.  `Trie.valueAt` reads
the value at a path, where a missing node has the default value, and
`Trie.valueAt_insert` is the law of the two.

`Trie.firstSet` walks a path from below the root and stops at the first value
that is not the default.  Two lemmas say which front of the path it stops at.
-/

namespace DnsRelay.Lib

/-- A node with its value and its children. -/
inductive Trie (κ ν : Type) where
  | node (value : ν) (children : List (κ × Trie κ ν))

namespace Trie

variable {κ ν : Type} [DecidableEq κ]

def value : Trie κ ν → ν
  | .node v _ => v

def children : Trie κ ν → List (κ × Trie κ ν)
  | .node _ cs => cs

def leaf (v : ν) : Trie κ ν := .node v []

def child (t : Trie κ ν) (k : κ) : Option (Trie κ ν) := t.children.lookup k

def setChild (t : Trie κ ν) (k : κ) (c : Trie κ ν) : Trie κ ν :=
  .node t.value ((k, c) :: EvictingMap.without t.children k)

def insert (default : ν) : List κ → ν → Trie κ ν → Trie κ ν
  | [], v, t => .node v t.children
  | k :: path, v, t => t.setChild k (insert default path v ((t.child k).getD (leaf default)))

def valueAt (default : ν) : Trie κ ν → List κ → ν
  | t, [] => t.value
  | t, k :: path =>
      match t.child k with
      | none => default
      | some c => valueAt default c path

/-- The first value on a path, below the root, that is not the default. -/
def firstSet [DecidableEq ν] (default : ν) : Trie κ ν → List κ → ν
  | _, [] => default
  | t, k :: path =>
      match t.child k with
      | none => default
      | some next => if next.value ≠ default then next.value else firstSet default next path

theorem child_setChild_self (t c : Trie κ ν) (k : κ) : (t.setChild k c).child k = some c := by
  simp [setChild, child, children]

theorem child_setChild_other (t c : Trie κ ν) {k k' : κ} (h : k' ≠ k) :
    (t.setChild k c).child k' = t.child k' := by
  have hk : (k' == k) = false := beq_false_of_ne h
  show ((k, c) :: EvictingMap.without t.children k).lookup k' = t.children.lookup k'
  rw [List.lookup_cons, hk, EvictingMap.lookup_without_other _ h]

theorem valueAt_leaf (default : ν) (path : List κ) :
    valueAt default (leaf default) path = default := by
  cases path with
  | nil => rfl
  | cons k path => rfl

theorem valueAt_insert (default v : ν) (path path' : List κ) (t : Trie κ ν) :
    valueAt default (insert default path v t) path' =
      if path' = path then v else valueAt default t path' := by
  induction path generalizing t path' with
  | nil =>
      cases path' with
      | nil => rfl
      | cons k' path' => simp [insert, valueAt, child, children]
  | cons k path ih =>
      cases path' with
      | nil => rfl
      | cons k' path' =>
          by_cases hk : k' = k
          · subst hk
            have hold : valueAt default ((t.child k').getD (leaf default)) path' =
                valueAt default t (k' :: path') := by
              cases hc : t.child k' with
              | none => simp only [Option.getD_none, valueAt_leaf, valueAt, hc]
              | some c => simp only [Option.getD_some, valueAt, hc]
            simp only [insert, valueAt, child_setChild_self, ih, List.cons.injEq, true_and]
            rw [hold, valueAt]
          · simp [insert, valueAt, child_setChild_other _ _ hk, hk]

variable [DecidableEq ν] {default : ν}

/-- Where the walk stops: every shorter front has the default value. -/
theorem firstSet_ne {t : Trie κ ν} {path : List κ} (h : firstSet default t path ≠ default) :
    ∃ front, front ≠ [] ∧ front <+: path ∧ valueAt default t front = firstSet default t path ∧
      ∀ front', front' ≠ [] → front' <+: path → front'.length < front.length →
        valueAt default t front' = default := by
  induction path generalizing t with
  | nil => exact absurd rfl h
  | cons k path ih =>
      cases hc : t.child k with
      | none => simp [firstSet, hc] at h
      | some next =>
          by_cases hv : next.value = default
          · have hfirst : firstSet default t (k :: path) = firstSet default next path := by
              simp [firstSet, hc, hv]
            rw [hfirst] at h ⊢
            obtain ⟨front, hne, hpre, hval, hmin⟩ := ih h
            refine ⟨k :: front, List.cons_ne_nil _ _, List.cons_prefix_cons.mpr ⟨rfl, hpre⟩, ?_, ?_⟩
            · simpa only [valueAt, hc] using hval
            · intro front' hne' hpre' hlt
              cases front' with
              | nil => exact absurd rfl hne'
              | cons k' front' =>
                  obtain ⟨rfl, hrest⟩ := List.cons_prefix_cons.mp hpre'
                  simp only [valueAt, hc]
                  cases front' with
                  | nil => exact hv
                  | cons k' front' =>
                      exact hmin _ (List.cons_ne_nil _ _) hrest (Nat.lt_of_succ_lt_succ hlt)
          · refine ⟨[k], List.cons_ne_nil _ _, ⟨path, rfl⟩, by simp [firstSet, valueAt, hc, hv], ?_⟩
            intro front' hne' _ hlt
            exact absurd (List.length_eq_zero_iff.mp (Nat.lt_one_iff.mp hlt)) hne'

/-- The walk finds nothing when every front has the default value. -/
theorem valueAt_of_firstSet {t : Trie κ ν} {path : List κ} (h : firstSet default t path = default)
    {front : List κ} (hne : front ≠ []) (hpre : front <+: path) :
    valueAt default t front = default := by
  induction path generalizing t front with
  | nil => exact absurd (List.prefix_nil.mp hpre) hne
  | cons k path ih =>
      cases front with
      | nil => exact absurd rfl hne
      | cons k' front =>
          obtain ⟨rfl, hrest⟩ := List.cons_prefix_cons.mp hpre
          cases hc : t.child k' with
          | none => simp [valueAt, hc]
          | some next =>
              have hv : next.value = default := by
                by_contra hv
                simp [firstSet, hc, hv] at h
              simp only [valueAt, hc]
              cases front with
              | nil => exact hv
              | cons k front =>
                  refine ih ?_ (List.cons_ne_nil _ _) hrest
                  simpa [firstSet, hc, hv] using h

end Trie

end DnsRelay.Lib
