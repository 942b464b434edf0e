import Mathlib.Tactic.Common

/-!
# Watch channels

A watch channel is one slot shared by senders and receivers.  A send replaces
the value and raises the version.  A receiver remembers the version it has
seen and waits for another one.

Two rules decide what a late receiver gets.  `send` discards its argument when
no receiver exists at that moment, and `changed` fails once the last sender is
gone, but reports an unseen version first.
-/

namespace DnsRelay.Lib

/-- The shared state of a watch channel. -/
structure Watch (α : Type) where
  value : α
  /-- The number of values stored since the channel was made. -/
  version : Nat
  senders : Nat
  receivers : Nat
deriving DecidableEq, Repr

namespace Watch

variable {α : Type}

def channel (v : α) : Watch α := ⟨v, 0, 1, 1⟩

/-- `Sender::clone`. -/
def cloneSender (w : Watch α) : Watch α := { w with senders := w.senders + 1 }

def dropSender (w : Watch α) : Watch α := { w with senders := w.senders - 1 }

/-- `Sender::subscribe`.  The new receiver has seen the current version. -/
def subscribe (w : Watch α) : Watch α := { w with receivers := w.receivers + 1 }

def dropReceiver (w : Watch α) : Watch α := { w with receivers := w.receivers - 1 }

/-- `Sender::send`.  Without a receiver the value is returned to the caller
and the slot stays as it is. -/
def send (w : Watch α) (v : α) : Watch α :=
  if w.receivers = 0 then w else { w with value := v, version := w.version + 1 }

/-- What one poll of `Receiver::changed` reports. -/
inductive Change where
  | ready
  | closed
  | pending
deriving DecidableEq, Repr

/-- Poll `Receiver::changed` for a receiver that has seen version `seen`. -/
def changed (w : Watch α) (seen : Nat) : Change :=
  if w.version ≠ seen then .ready else if w.senders = 0 then .closed else .pending

@[simp] theorem dropSender_senders (w : Watch α) : w.dropSender.senders = w.senders - 1 := rfl

@[simp] theorem subscribe_receivers (w : Watch α) : w.subscribe.receivers = w.receivers + 1 := rfl

@[simp] theorem dropReceiver_receivers (w : Watch α) :
    w.dropReceiver.receivers = w.receivers - 1 := rfl

@[simp] theorem send_senders (w : Watch α) (v : α) : (w.send v).senders = w.senders := by
  unfold send
  split <;> rfl

@[simp] theorem send_receivers (w : Watch α) (v : α) : (w.send v).receivers = w.receivers := by
  unfold send
  split <;> rfl

/-- A send without a receiver is lost. -/
theorem send_unheard {w : Watch α} (v : α) (h : w.receivers = 0) : w.send v = w := by
  rw [send, if_pos h]

/-- A send with a receiver is stored under a new version. -/
theorem send_heard {w : Watch α} (v : α) (h : w.receivers ≠ 0) :
    w.send v = { w with value := v, version := w.version + 1 } := by
  rw [send, if_neg h]

/-- An unseen version is reported even after the last sender is gone. -/
theorem changed_of_ne {w : Watch α} {seen : Nat} (h : w.version ≠ seen) :
    w.changed seen = .ready := by
  rw [changed, if_pos h]

/-- The receiver is refused only when it has seen everything and nobody can
send any more. -/
theorem changed_closed {w : Watch α} {seen : Nat} (h : w.changed seen = .closed) :
    w.version = seen ∧ w.senders = 0 := by
  unfold changed at h
  split at h
  · cases h
  · next hv =>
      split at h
      · next hs => exact ⟨not_not.mp hv, hs⟩
      · cases h

end Watch

end DnsRelay.Lib
