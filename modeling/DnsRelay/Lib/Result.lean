import Mathlib.Tactic.Common

/-!
# Results

Rust's `?` is the bind of `Except`.  A computation that gives a value is read
backwards with these lemmas: each of its steps gave one.

A loop that returns the first success keeps the last error.  `firstOk` is that
loop over the results.
-/

namespace DnsRelay.Lib

variable {ε ε' α β : Type}

/-- The first step gives a value and the rest goes on with it. -/
theorem bind_eq_ok {x : Except ε α} {f : α → Except ε β} {b : β} :
    x >>= f = .ok b ↔ ∃ a, x = .ok a ∧ f a = .ok b := by
  cases x with
  | error e => simp [bind, Except.bind]
  | ok a => simp [bind, Except.bind]

/-- `map_err` changes errors only. -/
theorem mapError_eq_ok {x : Except ε α} {f : ε → ε'} {a : α} :
    x.mapError f = .ok a ↔ x = .ok a := by
  cases x with
  | error e => simp [Except.mapError]
  | ok a => simp [Except.mapError]

theorem toOption_eq_some {x : Except ε α} {a : α} : x.toOption = some a ↔ x = .ok a := by
  cases x with
  | error e => simp [Except.toOption]
  | ok a => simp [Except.toOption]

def firstOk : List (Except ε α) → ε → Except ε α
  | [], lastErr => .error lastErr
  | .ok a :: _, _ => .ok a
  | .error e :: results, _ => firstOk results e

/-- None of the results is a success. -/
def Failed (results : List (Except ε α)) : Prop := ∀ r ∈ results, ∃ e, r = .error e

theorem Failed.cons {results : List (Except ε α)} (e : ε) (h : Failed results) :
    Failed (.error e :: results) :=
  List.forall_mem_cons.mpr ⟨⟨e, rfl⟩, h⟩

theorem firstOk_append {failed : List (Except ε α)} (h : Failed failed) (a : α)
    (results : List (Except ε α)) (lastErr : ε) :
    firstOk (failed ++ .ok a :: results) lastErr = .ok a := by
  induction failed generalizing lastErr with
  | nil => rfl
  | cons r failed ih =>
      obtain ⟨⟨e, rfl⟩, hrest⟩ := List.forall_mem_cons.mp h
      exact ih hrest e

/-- There is a first success, or all have failed. -/
theorem firstOk_cases (results : List (Except ε α)) (lastErr : ε) :
    (∃ failed a rest, results = failed ++ .ok a :: rest ∧ Failed failed ∧
        firstOk results lastErr = .ok a) ∨
      (Failed results ∧ ∃ e, firstOk results lastErr = .error e) := by
  induction results generalizing lastErr with
  | nil => exact .inr ⟨by simp [Failed], lastErr, rfl⟩
  | cons r results ih =>
      cases r with
      | ok a => exact .inl ⟨[], a, results, rfl, by simp [Failed], rfl⟩
      | error e =>
          rcases ih e with ⟨failed, a, rest, rfl, hfailed, hok⟩ | ⟨hfailed, herror⟩
          · exact .inl ⟨.error e :: failed, a, rest, rfl, hfailed.cons e, hok⟩
          · exact .inr ⟨hfailed.cons e, herror⟩

theorem not_failed {failed : List (Except ε α)} {a : α} {results : List (Except ε α)} :
    ¬Failed (failed ++ .ok a :: results) := by
  intro h
  obtain ⟨e, he⟩ := h (.ok a) (List.mem_append_right _ List.mem_cons_self)
  cases he

end DnsRelay.Lib
