import Mathlib.Data.List.Perm.Basic
import Mathlib.Data.List.Nodup

/-!
# Sets without an order

A `HashSet` is a list without duplicates.  Its order carries no meaning: a loop
over a set takes its elements in any order, which is a permutation of the list.
-/

namespace DnsRelay.Lib

structure HashSet (α : Type) where
  elems : List α
  nodup : elems.Nodup
deriving DecidableEq

namespace HashSet

variable {α : Type}

instance : Membership α (HashSet α) := ⟨fun s a => a ∈ s.elems⟩

def empty : HashSet α := ⟨[], List.nodup_nil⟩

@[simp] theorem not_mem_empty (a : α) : a ∉ (empty : HashSet α) := List.not_mem_nil

variable [DecidableEq α]

/-- `HashSet::insert`. -/
def insert (s : HashSet α) (a : α) : HashSet α := ⟨s.elems.insert a, s.nodup.insert⟩

/-- `HashSet::remove`. -/
def remove (s : HashSet α) (a : α) : HashSet α := ⟨s.elems.erase a, s.nodup.erase a⟩

instance (s : HashSet α) (a : α) : Decidable (a ∈ s) := inferInstanceAs (Decidable (a ∈ s.elems))

@[simp] theorem mem_insert {s : HashSet α} {a b : α} : b ∈ s.insert a ↔ b = a ∨ b ∈ s :=
  List.mem_insert_iff

@[simp] theorem mem_remove {s : HashSet α} {a b : α} : b ∈ s.remove a ↔ b ≠ a ∧ b ∈ s :=
  s.nodup.mem_erase_iff

end HashSet

end DnsRelay.Lib
