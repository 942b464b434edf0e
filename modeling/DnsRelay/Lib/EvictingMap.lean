import Mathlib.Tactic.Common

/-!
# Maps that evict

A cache of bounded size is a map whose `put` may drop other keys.
`EvictingMap` has the operations of such a map and their laws.  Nothing is said
about which key is dropped, so results over it hold for every policy.

`recent` is an instance, a list with the most recent key first.
-/

namespace DnsRelay.Lib

/-- A map that may drop keys when another one is put. -/
structure EvictingMap (κ ν : Type) where
  State : Type
  empty : State
  find : State → κ → Option ν
  put : State → κ → ν → State
  touch : State → κ → State
  pop : State → κ → State
  clear : State → State
  find_empty : ∀ k, find empty k = none
  find_put_self : ∀ s k v, find (put s k v) k = some v
  find_put_other : ∀ s k v k', k' ≠ k →
    find (put s k v) k' = find s k' ∨ find (put s k v) k' = none
  find_touch : ∀ s k k', find (touch s k) k' = find s k'
  find_pop_self : ∀ s k, find (pop s k) k = none
  find_pop_other : ∀ s k k', k' ≠ k → find (pop s k) k' = find s k'
  find_clear : ∀ s k, find (clear s) k = none

namespace EvictingMap

variable {κ ν : Type}

/-- No operation but `put` of the same key gives a key a value. -/
theorem find_put_back (M : EvictingMap κ ν) {s : M.State} {k k' : κ} {v w : ν} (hne : k' ≠ k)
    (h : M.find (M.put s k v) k' = some w) : M.find s k' = some w := by
  cases M.find_put_other s k v k' hne with
  | inl hkeep => exact hkeep.symm.trans h
  | inr hgone => exact absurd (hgone.symm.trans h) nofun

theorem find_pop_back (M : EvictingMap κ ν) [DecidableEq κ] {s : M.State} {k k' : κ} {w : ν}
    (h : M.find (M.pop s k) k' = some w) : M.find s k' = some w := by
  by_cases hk : k' = k
  · subst hk
    exact absurd ((M.find_pop_self s k').symm.trans h) nofun
  · exact (M.find_pop_other s k k' hk).symm.trans h

/-! ## Least recently used -/

section Recent

variable [DecidableEq κ]

def without (l : List (κ × ν)) (k : κ) : List (κ × ν) := l.filter fun e => e.1 ≠ k

theorem lookup_without_self (l : List (κ × ν)) (k : κ) : (without l k).lookup k = none := by
  rw [List.lookup_eq_none_iff]
  intro e he
  have hne : e.1 ≠ k := by simpa using (List.mem_filter.mp he).2
  simpa using Ne.symm hne

theorem lookup_without_other (l : List (κ × ν)) {k k' : κ} (hne : k' ≠ k) :
    (without l k).lookup k' = l.lookup k' := by
  induction l with
  | nil => rfl
  | cons e l ih =>
      rw [without] at ih ⊢
      by_cases he : e.1 = k
      · have hb : (k' == e.1) = false := beq_eq_false_iff_ne.mpr fun h => hne (h.trans he)
        rw [List.filter_cons_of_neg (by simpa using he), ih, List.lookup_cons, hb]
      · rw [List.filter_cons_of_pos (by simpa using he), List.lookup_cons, List.lookup_cons, ih]

theorem lookup_take (l : List (κ × ν)) (k : κ) (n : Nat) :
    (l.take n).lookup k = l.lookup k ∨ (l.take n).lookup k = none := by
  induction l generalizing n with
  | nil => simp
  | cons e l ih =>
      cases n with
      | zero => exact .inr rfl
      | succ n =>
          rw [List.take_succ_cons, List.lookup_cons, List.lookup_cons]
          cases k == e.1 with
          | true => exact .inl rfl
          | false => exact ih n

def toFront (l : List (κ × ν)) (k : κ) : List (κ × ν) :=
  match l.lookup k with
  | none => l
  | some v => (k, v) :: without l k

theorem lookup_toFront (l : List (κ × ν)) (k k' : κ) :
    (toFront l k).lookup k' = l.lookup k' := by
  unfold toFront
  cases hk : l.lookup k with
  | none => rfl
  | some v =>
      simp only [List.lookup_cons]
      by_cases h : k' = k
      · subst h
        simp [hk]
      · have hb : (k' == k) = false := beq_eq_false_iff_ne.mpr h
        rw [hb, lookup_without_other l h]

/-- A list of at most `cap + 1` pairs, the most recent first. -/
def recent (κ ν : Type) [DecidableEq κ] (cap : Nat) : EvictingMap κ ν where
  State := List (κ × ν)
  empty := []
  find l k := l.lookup k
  put l k v := ((k, v) :: without l k).take (cap + 1)
  touch := toFront
  pop := without
  clear _ := []
  find_empty _ := rfl
  find_put_self l k v := by simp
  find_put_other l k v k' hne := by
    have hb : (k' == k) = false := beq_eq_false_iff_ne.mpr hne
    rw [List.take_succ_cons, List.lookup_cons, hb]
    cases lookup_take (without l k) k' cap with
    | inl h => exact .inl (h.trans (lookup_without_other l hne))
    | inr h => exact .inr h
  find_touch := lookup_toFront
  find_pop_self := lookup_without_self
  find_pop_other l _ _ hne := lookup_without_other l hne
  find_clear _ _ := rfl

end Recent

end EvictingMap

end DnsRelay.Lib
