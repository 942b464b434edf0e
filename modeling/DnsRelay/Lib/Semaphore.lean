import Mathlib.Tactic.Common

/-!
# Semaphores and bounded channels

A semaphore hands out permits.  Whoever finds none may leave or queue up.  A
permit that is returned goes to the first in the queue, and only when nobody
waits is it free again.  So a free permit and a waiter never exist together.
That is a field of the structure.

A waiter that has been given its permit is `assigned` until it runs and claims
it.  `pending` are the waiters of both kinds.  They are served in the order in
which they came.

A channel is a queue with a capacity.  `trySend` fails when it is full.
-/

namespace DnsRelay.Lib

/-! ## Semaphores -/

/-- A semaphore with the waiters of type `ω` in its queue. -/
structure Semaphore (ω : Type) where
  free : Nat
  /-- The waiters without a permit, first come first. -/
  waiting : List ω
  /-- The waiters whose permit is there and not yet claimed. -/
  assigned : List ω
  fair : waiting = [] ∨ free = 0

namespace Semaphore

variable {ω : Type} {s s' : Semaphore ω}

/-- `Semaphore::new`. -/
def new (permits : Nat) : Semaphore ω := ⟨permits, [], [], .inl rfl⟩

/-- `try_acquire`.  The caller holds the permit at once. -/
def tryAcquire (s : Semaphore ω) : Option (Semaphore ω) :=
  match h : s.free with
  | 0 => none
  | n + 1 => some { s with
      free := n
      fair := .inl (s.fair.resolve_right (by omega)) }

/-- The first poll of `acquire`. -/
def acquire (s : Semaphore ω) (w : ω) : Semaphore ω :=
  match h : s.free with
  | 0 => { s with waiting := s.waiting ++ [w], fair := .inr h }
  | n + 1 => { s with
      free := n
      assigned := s.assigned ++ [w]
      fair := .inl (s.fair.resolve_right (by omega)) }

def claim (s : Semaphore ω) : Option (ω × Semaphore ω) :=
  match s.assigned with
  | [] => none
  | w :: rest => some (w, { s with assigned := rest })

def release (s : Semaphore ω) : Semaphore ω :=
  match h : s.waiting with
  | [] => { s with free := s.free + 1, fair := .inl h }
  | w :: rest => { s with
      waiting := rest
      assigned := s.assigned ++ [w]
      fair := .inr (s.fair.resolve_left (by rw [h]; exact List.cons_ne_nil w rest)) }

def pending (s : Semaphore ω) : List ω := s.assigned ++ s.waiting

def unused (s : Semaphore ω) : Nat := s.free + s.assigned.length

theorem tryAcquire_eq_none : s.tryAcquire = none ↔ s.free = 0 := by
  unfold tryAcquire
  split
  · next h => exact iff_of_true rfl h
  · next n h => exact iff_of_false (by simp) (by omega)

/-- A permit is taken and nobody else is touched. -/
theorem tryAcquire_spec (h : s.tryAcquire = some s') :
    s'.unused + 1 = s.unused ∧ s'.pending = s.pending := by
  unfold tryAcquire at h
  split at h
  · cases h
  · next n hfree =>
      cases h
      refine ⟨?_, rfl⟩
      show n + s.assigned.length + 1 = s.free + s.assigned.length
      omega

/-- A waiter is the last in the queue, with or without its permit. -/
theorem acquire_spec (s : Semaphore ω) (w : ω) :
    (s.acquire w).unused = s.unused ∧ (s.acquire w).pending = s.pending ++ [w] := by
  unfold acquire
  split
  · next hfree =>
      refine ⟨rfl, ?_⟩
      show s.assigned ++ (s.waiting ++ [w]) = s.assigned ++ s.waiting ++ [w]
      rw [List.append_assoc]
  · next n hfree =>
      have hnone : s.waiting = [] := s.fair.resolve_right (by omega)
      constructor
      · show n + (s.assigned ++ [w]).length = s.free + s.assigned.length
        rw [List.length_append, List.length_singleton]
        omega
      · show s.assigned ++ [w] ++ s.waiting = s.assigned ++ s.waiting ++ [w]
        rw [hnone, List.append_nil, List.append_nil]

/-- The next waiter leaves with its permit. -/
theorem claim_spec {w : ω} (h : s.claim = some (w, s')) :
    s'.unused + 1 = s.unused ∧ s.pending = w :: s'.pending := by
  unfold claim at h
  split at h
  · cases h
  · next first rest hassigned =>
      cases h
      constructor
      · show s.free + rest.length + 1 = s.free + s.assigned.length
        rw [hassigned, List.length_cons]
        omega
      · show s.assigned ++ s.waiting = w :: (rest ++ s.waiting)
        rw [hassigned, List.cons_append]

/-- A permit comes back and the queue keeps its order. -/
theorem release_spec (s : Semaphore ω) :
    s.release.unused = s.unused + 1 ∧ s.release.pending = s.pending := by
  unfold release
  split
  · refine ⟨?_, rfl⟩
    show s.free + 1 + s.assigned.length = s.free + s.assigned.length + 1
    omega
  · next w rest hwaiting =>
      constructor
      · show s.free + (s.assigned ++ [w]).length = s.free + s.assigned.length + 1
        rw [List.length_append, List.length_singleton]
        omega
      · show s.assigned ++ [w] ++ rest = s.assigned ++ s.waiting
        rw [hwaiting, List.append_assoc, List.singleton_append]

/-- When some permit is not in use, the next waiter can run. -/
theorem claim_isSome (hunused : s.unused ≠ 0) (hpending : s.pending ≠ []) :
    ∃ w s', s.claim = some (w, s') := by
  unfold claim
  split
  · next hnone =>
      have hfree : s.free ≠ 0 := by
        rw [unused, hnone] at hunused
        exact hunused
      rw [pending, hnone, s.fair.resolve_right hfree] at hpending
      exact absurd rfl hpending
  · next w rest _ => exact ⟨w, _, rfl⟩

end Semaphore

/-! ## Bounded channels -/

/-- A channel that holds at most `cap` items. -/
structure Channel (α : Type) (cap : Nat) where
  items : List α
  bounded : items.length ≤ cap

namespace Channel

variable {α : Type} {cap : Nat} {c c' : Channel α cap}

/-- `mpsc::channel`. -/
def new (α : Type) (cap : Nat) : Channel α cap := ⟨[], Nat.zero_le cap⟩

/-- `Sender::try_send`. -/
def trySend (c : Channel α cap) (x : α) : Option (Channel α cap) :=
  if h : c.items.length < cap then
    some ⟨c.items ++ [x], by rw [List.length_append]; exact h⟩
  else none

/-- `Receiver::recv`, when an item is there. -/
def recv (c : Channel α cap) : Option (α × Channel α cap) :=
  match h : c.items with
  | [] => none
  | x :: rest => some (x, ⟨rest, by
      have := c.bounded
      rw [h, List.length_cons] at this
      omega⟩)

theorem trySend_spec {x : α} (h : c.trySend x = some c') : c'.items = c.items ++ [x] := by
  unfold trySend at h
  split at h
  · cases h
    rfl
  · cases h

theorem trySend_eq_none {x : α} : c.trySend x = none ↔ c.items.length = cap := by
  have := c.bounded
  unfold trySend
  split
  · exact iff_of_false (by simp) (by omega)
  · exact iff_of_true rfl (by omega)

theorem recv_spec {x : α} (h : c.recv = some (x, c')) : c.items = x :: c'.items := by
  unfold recv at h
  split at h
  · cases h
  · next first rest hitems =>
      cases h
      exact hitems

theorem recv_isSome (h : c.items ≠ []) : ∃ x c', c.recv = some (x, c') := by
  unfold recv
  split
  · next hnone => exact absurd hnone h
  · next x rest hitems => exact ⟨x, _, rfl⟩

end Channel

end DnsRelay.Lib
