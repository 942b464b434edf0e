import DnsRelay.Relay.History

/-!
# The steps of the history buffer

A flush is found by its `Slot`, so that tasks and `close` are treated alike.
`Move` says what a step of the machine can do.
-/

namespace DnsRelay

open Lib

namespace HistoryBuffer

/-! ## Flushes -/

inductive Slot where
  | task (i : Nat)
  /-- In `close`. -/
  | close
deriving DecidableEq

def Slot.act : Slot → Act
  | .task i => .task i
  | .close => .closing

def Task.flush : Task → Option Flush
  | .flushing f => some f
  | _ => none

/-- The flush of `close`. -/
def Close.flush : Close → Option Flush
  | .flushing f => some f
  | _ => none

/-- The entries that a flush has taken from the queue. -/
def Flush.batch : Flush → List HistoryEntry
  | .popping batch | .reading batch | .writing batch _ => batch
  | .done => []

/-- A flush that has no entries and no business with the file. -/
def Flush.Idle (f : Flush) : Prop := f = .popping [] ∨ f = .done

namespace State

def flushAt (s : State) : Slot → Option Flush
  | .task i => s.tasks[i]?.bind Task.flush
  | .close => s.closing.flush

def put (s : State) : Slot → Flush → State
  | .task i, f => { s with tasks := s.tasks.set i (.flushing f) }
  | .close, f => { s with closing := .flushing f }

def flushOf (s : State) : Act → Option Flush
  | .task i => s.flushAt (.task i)
  | .closing => s.flushAt .close
  | _ => none

variable {s s' : State} {a b : Slot} {f g : Flush}

theorem flushOf_act (s : State) (a : Slot) : s.flushOf a.act = s.flushAt a := by
  cases a with
  | task i => rfl
  | close => rfl

theorem put_frame (s : State) (a : Slot) (g : Flush) :
    (s.put a g).queue = s.queue ∧ (s.put a g).flushing = s.flushing ∧
      (s.put a g).file = s.file ∧ (s.put a g).pushes = s.pushes ∧
      (s.put a g).accepted = s.accepted := by
  cases a with
  | task i => exact ⟨rfl, rfl, rfl, rfl, rfl⟩
  | close => exact ⟨rfl, rfl, rfl, rfl, rfl⟩

theorem flushAt_congr (htasks : s'.tasks = s.tasks) (hclosing : s'.closing = s.closing)
    (b : Slot) : s'.flushAt b = s.flushAt b := by
  cases b with
  | task i => rw [flushAt, flushAt, htasks]
  | close => rw [flushAt, flushAt, hclosing]

theorem flushAt_task {i : Nat} :
    s.flushAt (.task i) = some f ↔ s.tasks[i]? = some (.flushing f) := by
  rw [flushAt, Option.bind_eq_some_iff]
  constructor
  · rintro ⟨t, ht, hf⟩
    cases t with
    | flushing g =>
        cases hf
        exact ht
    | checking | respawning | ended => cases hf
  · exact fun h => ⟨_, h, rfl⟩

theorem flushAt_close : s.flushAt .close = some f ↔ s.closing = .flushing f := by
  rw [flushAt]
  cases s.closing with
  | flushing g => simp [Close.flush]
  | notCalled | spinning => simp [Close.flush]

theorem flushAt_put_self (h : s.flushAt a = some f) (g : Flush) :
    (s.put a g).flushAt a = some g := by
  cases a with
  | task i =>
      obtain ⟨hi, -⟩ := List.getElem?_eq_some_iff.mp (flushAt_task.mp h)
      exact flushAt_task.mpr (List.getElem?_set_self hi)
  | close => rfl

theorem flushAt_put_other (h : b ≠ a) (g : Flush) : (s.put a g).flushAt b = s.flushAt b := by
  cases a with
  | task i =>
      cases b with
      | task j =>
          have hne : i ≠ j := by
            rintro rfl
            exact h rfl
          rw [put, flushAt, flushAt, List.getElem?_set_ne hne]
      | close => rfl
  | close =>
      cases b with
      | task j => rfl
      | close => exact absurd rfl h

/-- A flush after one slot was replaced. -/
theorem flushAt_put (h : s.flushAt a = some f) {f' : Flush}
    (hb : (s.put a g).flushAt b = some f') :
    (b = a ∧ f' = g) ∨ (b ≠ a ∧ s.flushAt b = some f') := by
  by_cases heq : b = a
  · subst heq
    rw [flushAt_put_self h] at hb
    exact .inl ⟨rfl, (Option.some.inj hb).symm⟩
  · rw [flushAt_put_other heq] at hb
    exact .inr ⟨heq, hb⟩

/-- Setting a task to something that does not flush. -/
theorem flushAt_set {i : Nat} {t : Task} (ht : t.flush = none) :
    { s with tasks := s.tasks.set i t }.flushAt b =
      if b = .task i then none else s.flushAt b := by
  cases b with
  | task j =>
      by_cases hij : i = j
      · subst hij
        rw [if_pos rfl, flushAt, List.getElem?_set]
        simp only [if_true]
        split
        · exact ht
        · rfl
      · rw [if_neg (fun h => hij (Slot.task.inj h).symm), flushAt, flushAt,
          List.getElem?_set_ne hij]
  | close => rfl

theorem trySpawnFlush_frame (s : State) :
    s.trySpawnFlush.queue = s.queue ∧ s.trySpawnFlush.file = s.file ∧
      s.trySpawnFlush.pushes = s.pushes ∧ s.trySpawnFlush.closing = s.closing ∧
      s.trySpawnFlush.accepted = s.accepted := by
  rw [trySpawnFlush]
  split
  · exact ⟨rfl, rfl, rfl, rfl, rfl⟩
  · exact ⟨rfl, rfl, rfl, rfl, rfl⟩

/-- A new task flushes with an empty batch. -/
theorem flushAt_trySpawnFlush (hb : s.trySpawnFlush.flushAt b = some f) :
    s.flushAt b = some f ∨ (s.flushing = false ∧ b = .task s.tasks.length ∧ f = .popping []) := by
  rw [trySpawnFlush] at hb
  split at hb
  · exact .inl hb
  · next hflag =>
      cases b with
      | task j =>
          rw [flushAt_task] at hb
          simp only [List.getElem?_append] at hb
          split at hb
          · exact .inl (flushAt_task.mpr hb)
          · next hj =>
              have hlast : j = s.tasks.length := by
                obtain ⟨hlt, -⟩ := List.getElem?_eq_some_iff.mp hb
                rw [List.length_singleton] at hlt
                omega
              subst hlast
              rw [Nat.sub_self] at hb
              cases hb
              exact .inr ⟨Bool.eq_false_iff.mpr hflag, rfl, rfl⟩
      | close => exact .inl hb

theorem flushAt_trySpawnFlush_of (h : s.flushAt b = some f) :
    s.trySpawnFlush.flushAt b = some f := by
  rw [trySpawnFlush]
  split
  · exact h
  · cases b with
    | task j =>
        have hget := flushAt_task.mp h
        obtain ⟨hj, -⟩ := List.getElem?_eq_some_iff.mp hget
        refine flushAt_task.mpr ?_
        show (s.tasks ++ [Task.flushing (.popping [])])[j]? = _
        rw [List.getElem?_append_left hj]
        exact hget
    | close => exact h

end State

/-! ## Moves -/

/-- What one step of a flush does. -/
inductive FlushMove (conf : Conf) (s : State) : Flush → State → Flush → Prop where
  | pop {batch : List HistoryEntry} {e : HistoryEntry} {rest : List HistoryEntry}
      (hqueue : s.queue = e :: rest) :
      FlushMove conf s (.popping batch) { s with queue := rest } (.popping (batch ++ [e]))
  | idle (hqueue : s.queue = []) : FlushMove conf s (.popping []) { s with dropped := 0 } .done
  | collect {batch : List HistoryEntry} (hqueue : s.queue = []) (hne : batch ≠ []) :
      FlushMove conf s (.popping batch) { s with dropped := 0 } (.reading batch)
  | read {batch : List HistoryEntry} :
      FlushMove conf s (.reading batch) s (.writing batch s.file)
  | write {batch : List HistoryEntry} {content text : Str}
      (htext : flushedText conf.linesCount content batch = some text) :
      FlushMove conf s (.writing batch content) { s with file := text } .done
  | panic {batch : List HistoryEntry} {content : Str}
      (htext : flushedText conf.linesCount content batch = none) :
      FlushMove conf s (.writing batch content) s .done

/-- A step of a flush touches no party but its own. -/
theorem FlushMove.frame {conf : Conf} {s s' : State} {f f' : Flush} (h : FlushMove conf s f s' f') :
    s'.tasks = s.tasks ∧ s'.closing = s.closing ∧ s'.flushing = s.flushing ∧
      s'.pushes = s.pushes ∧ s'.accepted = s.accepted := by
  cases h with
  | pop | idle | collect | read | write | panic => exact ⟨rfl, rfl, rfl, rfl, rfl⟩

theorem FlushMove.flushAt {conf : Conf} {s s' : State} {f f' : Flush}
    (h : FlushMove conf s f s' f') (b : Slot) : s'.flushAt b = s.flushAt b :=
  State.flushAt_congr h.frame.1 h.frame.2.1 b

theorem flushMove_of_flush {conf : Conf} {s s' : State} {f f' : Flush}
    (h : s.flush conf f = some (s', f')) : FlushMove conf s f s' f' := by
  cases f with
  | popping batch =>
      rw [State.flush] at h
      split at h
      · next e rest hqueue =>
          cases h
          exact .pop hqueue
      · next hqueue =>
          cases batch with
          | nil =>
              cases h
              exact .idle hqueue
          | cons e batch =>
              cases h
              exact .collect hqueue (List.cons_ne_nil e batch)
  | reading batch =>
      cases h
      exact .read
  | writing batch content =>
      rw [State.flush] at h
      cases htext : flushedText conf.linesCount content batch with
      | some text =>
          rw [htext] at h
          cases h
          exact .write htext
      | none =>
          rw [htext] at h
          cases h
          exact .panic htext
  | done => cases h

inductive Move (conf : Conf) (s : State) : Act → State → Prop where
  /-- `push_many` is called. -/
  | call {e : HistoryEntry} (hopen : s.closing = .notCalled) :
      Move conf s (.call e) { s with pushes := s.pushes ++ [conf.pushMany e] }
  | accept {i : Nat} {e : HistoryEntry} (found : s.pushes[i]? = some (.pushing e)) :
      Move conf s (.push i) { s with
        queue := s.queue ++ [e]
        accepted := s.accepted ++ [e]
        pushes := s.pushes.set i .counting }
  | refuse {i : Nat} {e : HistoryEntry} (found : s.pushes[i]? = some (.pushing e)) :
      Move conf s (.push i)
        { s with dropped := s.dropped + 1, pushes := s.pushes.set i .spawning }
  | count {i : Nat} {p : Push} (found : s.pushes[i]? = some .counting)
      (hp : p = .spawning ∨ p = .returned) :
      Move conf s (.push i) { s with pushes := s.pushes.set i p }
  | spawn {i : Nat} (found : s.pushes[i]? = some .spawning) :
      Move conf s (.push i) { s with pushes := s.pushes.set i .returned }.trySpawnFlush
  | flush {a : Slot} {f f' : Flush} {s1 : State} (found : s.flushAt a = some f)
      (move : FlushMove conf s f s1 f') : Move conf s a.act (s1.put a f')
  | clear {i : Nat} (found : s.tasks[i]? = some (.flushing .done)) :
      Move conf s (.task i) { s with flushing := false, tasks := s.tasks.set i .checking }
  | check {i : Nat} {t : Task} (found : s.tasks[i]? = some .checking)
      (ht : t = .ended ∨ t = .respawning) :
      Move conf s (.task i) { s with tasks := s.tasks.set i t }
  | respawn {i : Nat} (found : s.tasks[i]? = some .respawning) :
      Move conf s (.task i) { s with tasks := s.tasks.set i .ended }.trySpawnFlush
  /-- `close` is called. -/
  | close (hopen : s.closing = .notCalled) (hreturned : ∀ p ∈ s.pushes, p = .returned) :
      Move conf s .close { s with closing := .spinning }
  /-- `close` sees the flag set. -/
  | spin : Move conf s .closing s
  /-- `close` sees the flag clear. -/
  | enter (hspin : s.closing = .spinning) (hclear : s.flushing = false) :
      Move conf s .closing { s with closing := .flushing (.popping []) }

theorem move_of_push {conf : Conf} {s s' : State} {i : Nat} (h : s.push i = some s') :
    Move conf s (.push i) s' := by
  rw [State.push] at h
  split at h
  · next e found =>
      split at h
      · cases h
        exact .accept found
      · cases h
        exact .refuse found
  · next found =>
      cases h
      refine .count found ?_
      split
      · exact .inl rfl
      · exact .inr rfl
  · next found =>
      cases h
      exact .spawn found
  · cases h

theorem move_of_task {conf : Conf} {s s' : State} {i : Nat} (h : s.task conf i = some s') :
    Move conf s (.task i) s' := by
  rw [State.task] at h
  split at h
  · next found =>
      cases h
      exact .clear found
  · next f _ found =>
      obtain ⟨⟨s1, f'⟩, hflush, rfl⟩ := Option.map_eq_some_iff.mp h
      exact @Move.flush conf s (.task i) f f' s1 (State.flushAt_task.mpr found)
        (flushMove_of_flush hflush)
  · next found =>
      cases h
      refine .check found ?_
      split
      · exact .inl rfl
      · exact .inr rfl
  · next found =>
      cases h
      exact .respawn found
  · cases h

theorem move_of_close {conf : Conf} {s s' : State} (h : s.close conf = some s') :
    Move conf s .closing s' := by
  rw [State.close] at h
  split at h
  · cases h
  · next hspin =>
      split at h
      · cases h
        exact .spin
      · next hflag =>
          cases h
          exact .enter hspin (Bool.eq_false_iff.mpr hflag)
  · next f found =>
      obtain ⟨⟨s1, f'⟩, hflush, rfl⟩ := Option.map_eq_some_iff.mp h
      exact @Move.flush conf s .close f f' s1 (State.flushAt_close.mpr found)
        (flushMove_of_flush hflush)

theorem step_move {conf : Conf} {s s' : State} {a : Act} (h : step conf s a = some s') :
    Move conf s a s' := by
  cases a with
  | call e =>
      rw [step] at h
      split at h
      · next hopen =>
          cases h
          exact .call hopen
      · cases h
  | push i => exact move_of_push h
  | task i => exact move_of_task h
  | close =>
      rw [step] at h
      split at h
      · next hclose =>
          cases h
          exact .close hclose.1 hclose.2
      · cases h
  | closing => exact move_of_close h

end HistoryBuffer

end DnsRelay
