import DnsRelay.Relay.HistoryMoves

/-!
# No entry of the history is lost

`close` may see the flag clear while a task that has ended its flush has not
looked at the queue again.  That task may then start another one beside the
flush of `close`, and of two overlapping flushes the first write is lost.

`Careful` rules this window out.  `Locked` is the invariant about the flag and
the window, and `Kept` the one about the entries.
-/

namespace DnsRelay

open Lib

namespace HistoryBuffer

/-! ## The flag -/

/-- What a flush is about to write is within the limit on the lines. -/
def Flush.Fits (conf : Conf) : Flush → Prop
  | .writing batch content => (mergeHistory content batch).order.length ≤ conf.linesCount
  | _ => True

instance (conf : Conf) : (f : Flush) → Decidable (f.Fits conf)
  | .writing _ _ => inferInstanceAs (Decidable (_ ≤ _))
  | .popping _ | .reading _ | .done => inferInstanceAs (Decidable True)

/-- The limit on the lines of the file is not reached. -/
def WithinLimit (conf : Conf) (s : State) (a : Act) : Prop := ∀ f ∈ s.flushOf a, f.Fits conf

instance (conf : Conf) (s : State) (a : Act) : Decidable (WithinLimit conf s a) :=
  inferInstanceAs (Decidable (∀ f ∈ s.flushOf a, f.Fits conf))

/-- Only words are pushed.  When `close` sees the flag clear, the queue is empty
or no task has yet to look at it again. -/
def Careful (s : State) : Act → Prop
  | .call e => e.Plain
  | .closing => s.closing = .spinning → s.flushing = false →
      s.queue = [] ∨ ∀ t ∈ s.tasks, t ≠ .checking ∧ t ≠ .respawning
  | _ => True

instance (s : State) : (a : Act) → Decidable (Careful s a)
  | .call e => inferInstanceAs (Decidable e.Plain)
  | .closing => inferInstanceAs (Decidable (_ → _ → _ ∨ _))
  | .push _ | .task _ | .close => inferInstanceAs (Decidable True)

/-- At most one task flushes, and none while the flag is clear. -/
structure Flag (s : State) : Prop where
  clear : s.flushing = false → ∀ i, s.flushAt (.task i) = none
  single : ∀ {i j f g}, s.flushAt (.task i) = some f → s.flushAt (.task j) = some g → i = j

variable {conf : Conf} {s s' : State}

theorem Flag.congr (h : Flag s) (hflag : s'.flushing = s.flushing) (htasks : s'.tasks = s.tasks) :
    Flag s' := by
  have hat : ∀ i, s'.flushAt (.task i) = s.flushAt (.task i) := by
    intro i
    rw [State.flushAt, State.flushAt, htasks]
  refine ⟨fun hclear i => ?_, fun {i j f g} hi hj => ?_⟩
  · rw [hat]
    exact h.clear (hflag ▸ hclear) i
  · rw [hat] at hi hj
    exact h.single hi hj

theorem Flag.put (h : Flag s) {a : Slot} {f : Flush} (found : s.flushAt a = some f) (g : Flush) :
    Flag (s.put a g) := by
  have hold : ∀ {i f'}, (s.put a g).flushAt (.task i) = some f' →
      ∃ f0, s.flushAt (.task i) = some f0 := by
    intro i f' hi
    rcases State.flushAt_put found hi with ⟨rfl, -⟩ | ⟨-, hi⟩
    · exact ⟨f, found⟩
    · exact ⟨f', hi⟩
  obtain ⟨-, hflag, -⟩ := s.put_frame a g
  refine ⟨fun hclear i => ?_, fun {i j f1 g1} hi hj => ?_⟩
  · by_contra hne
    obtain ⟨f', hf'⟩ := Option.ne_none_iff_exists'.mp hne
    obtain ⟨f0, hf0⟩ := hold hf'
    rw [h.clear (hflag ▸ hclear) i] at hf0
    cases hf0
  · obtain ⟨f0, hf0⟩ := hold hi
    obtain ⟨g0, hg0⟩ := hold hj
    exact h.single hf0 hg0

/-- A task stops flushing, or goes on without. -/
theorem Flag.set (h : Flag s) {i : Nat} {t : Task} (ht : t.flush = none) :
    Flag { s with tasks := s.tasks.set i t } := by
  have hold : ∀ {j f}, { s with tasks := s.tasks.set i t }.flushAt (.task j) = some f →
      s.flushAt (.task j) = some f := by
    intro j f hj
    rw [State.flushAt_set ht] at hj
    split at hj
    · cases hj
    · exact hj
  refine ⟨fun hclear j => ?_, fun hi hj => h.single (hold hi) (hold hj)⟩
  rw [State.flushAt_set ht]
  split
  · rfl
  · exact h.clear hclear j

/-- The task with the flag clears it. -/
theorem Flag.release (h : Flag s) {i : Nat} (found : s.tasks[i]? = some (.flushing .done)) :
    Flag { s with flushing := false, tasks := s.tasks.set i .checking } := by
  have hset : Flag { s with tasks := s.tasks.set i .checking } := h.set rfl
  refine ⟨fun _ j => ?_, hset.single⟩
  have hj : { s with flushing := false, tasks := s.tasks.set i .checking }.flushAt (.task j) =
      { s with tasks := s.tasks.set i .checking }.flushAt (.task j) := rfl
  rw [hj, State.flushAt_set rfl]
  split
  · rfl
  · next hne =>
      by_contra hsome
      obtain ⟨g, hg⟩ := Option.ne_none_iff_exists'.mp hsome
      exact hne (congrArg Slot.task (h.single hg (State.flushAt_task.mpr found)))

theorem Flag.trySpawnFlush (h : Flag s) : Flag s.trySpawnFlush := by
  by_cases hflag : s.flushing = true
  · rw [State.trySpawnFlush, if_pos hflag]
    exact h
  · have hset : s.trySpawnFlush.flushing = true := by
      rw [State.trySpawnFlush, if_neg hflag]
    have hnone := h.clear (Bool.eq_false_iff.mpr hflag)
    refine ⟨fun hclear => absurd (hset.symm.trans hclear) (by decide), fun {i j f g} hi hj => ?_⟩
    have hlast : ∀ {k f'}, s.trySpawnFlush.flushAt (.task k) = some f' → k = s.tasks.length := by
      intro k f' hk
      rcases State.flushAt_trySpawnFlush hk with hk | ⟨-, hk, -⟩
      · cases (hnone k).symm.trans hk
      · exact Slot.task.inj hk
    rw [hlast hi, hlast hj]

/-! ## The window -/

/-- Nothing is queued and nothing is being written. -/
def Quiet (s : State) : Prop := s.queue = [] ∧ ∀ b f, s.flushAt b = some f → f.Idle

/-- What the flag and the calls guarantee. -/
structure Locked (s : State) : Prop extends Flag s where
  /-- When `close` is called, all calls of `push_many` have returned. -/
  returned : s.closing ≠ .notCalled → ∀ p ∈ s.pushes, p = .returned
  /-- While `close` flushes, no task runs or none has anything to write. -/
  alone : ∀ {f}, s.flushAt .close = some f → (∀ t ∈ s.tasks, t = .ended) ∨ Quiet s
  /-- `close` leaves an empty queue. -/
  drained : ∀ {f}, s.flushAt .close = some f → (∃ batch, f = .popping batch) ∨ s.queue = []

theorem Flag.locked (h : Flag s) (hopen : s.closing = .notCalled) : Locked s := by
  have hnone : ∀ {f}, s.flushAt .close ≠ some f := by
    intro f hf
    cases hopen.symm.trans (State.flushAt_close.mp hf)
  exact ⟨h, fun hne => absurd hopen hne, fun hf => absurd hf hnone, fun hf => absurd hf hnone⟩

/-- A call that has not returned keeps `close` from being called. -/
theorem Locked.notCalled (h : Locked s) {i : Nat} {p : Push} (found : s.pushes[i]? = some p)
    (hp : p ≠ .returned) : s.closing = .notCalled := by
  by_contra hne
  exact hp (h.returned hne p (List.mem_of_getElem? found))

/-- A task that runs beside the flush of `close` has nothing to do. -/
theorem Locked.quiet (h : Locked s) {i : Nat} {t : Task} (found : s.tasks[i]? = some t)
    (ht : t ≠ .ended) {f : Flush} (hf : s.flushAt .close = some f) : Quiet s := by
  rcases h.alone hf with hended | hquiet
  · exact absurd (hended t (List.mem_of_getElem? found)) ht
  · exact hquiet

theorem Locked.quiet_of_flush (h : Locked s) {i : Nat} {f g : Flush}
    (htask : s.flushAt (.task i) = some f) (hclose : s.flushAt .close = some g) : Quiet s :=
  h.quiet (State.flushAt_task.mp htask) Task.noConfusion hclose

/-- Two flushes that are not idle are one. -/
theorem Locked.exclusive (h : Locked s) {a b : Slot} {f g : Flush} (ha : s.flushAt a = some f)
    (hb : s.flushAt b = some g) (hf : ¬ f.Idle) (hg : ¬ g.Idle) : a = b := by
  cases a with
  | task i =>
      cases b with
      | task j => rw [h.single ha hb]
      | close => exact absurd ((h.quiet_of_flush ha hb).2 _ _ ha) hf
  | close =>
      cases b with
      | task j => exact absurd ((h.quiet_of_flush hb ha).2 _ _ hb) hg
      | close => rfl

theorem Quiet.set (h : Quiet s) {i : Nat} {t : Task} (ht : t.flush = none) :
    Quiet { s with tasks := s.tasks.set i t } := by
  refine ⟨h.1, fun b g hg => ?_⟩
  rw [State.flushAt_set ht] at hg
  split at hg
  · cases hg
  · exact h.2 b g hg

theorem Quiet.trySpawnFlush (h : Quiet s) : Quiet s.trySpawnFlush := by
  refine ⟨s.trySpawnFlush_frame.1.trans h.1, fun b g hg => ?_⟩
  rcases State.flushAt_trySpawnFlush hg with hg | ⟨-, -, rfl⟩
  · exact h.2 b g hg
  · exact .inl rfl

/-- A flush that goes on in the quiet ends. -/
theorem Quiet.flush (h : Quiet s) {a : Slot} {f f' : Flush} {s1 : State}
    (found : s.flushAt a = some f) (move : FlushMove conf s f s1 f') :
    Quiet (s1.put a f') := by
  have hidle := h.2 a f found
  obtain ⟨hput, -⟩ := s1.put_frame a f'
  have hcases : s1.queue = [] ∧ f' = .done := by
    cases move with
    | pop hqueue => cases h.1.symm.trans hqueue
    | idle => exact ⟨h.1, rfl⟩
    | @collect batch _ hne =>
        rcases hidle with hbatch | hbatch
        · cases hbatch
          exact absurd rfl hne
        · cases hbatch
    | read | write | panic =>
        rcases hidle with hbatch | hbatch
        · cases hbatch
        · cases hbatch
  refine ⟨hput.trans hcases.1, fun b g hg => ?_⟩
  rcases State.flushAt_put ((move.flushAt a).trans found) hg with ⟨-, rfl⟩ | ⟨-, hb⟩
  · exact .inr hcases.2
  · exact h.2 b g ((move.flushAt b).symm.trans hb)

/-- A step of a task that is not a step of its flush. -/
theorem Locked.set (h : Locked s) {i : Nat} {t t' : Task} (found : s.tasks[i]? = some t)
    (ht : t ≠ .ended) (ht' : t'.flush = none) : Locked { s with tasks := s.tasks.set i t' } :=
  ⟨h.toFlag.set ht', h.returned, fun hf => .inr ((h.quiet found ht hf).set ht'), h.drained⟩

/-- The flag is tried for while `close` does not flush or nothing is queued. -/
theorem Locked.trySpawnFlush (h : Locked s)
    (hquiet : ∀ {f}, s.flushAt .close = some f → Quiet s) : Locked s.trySpawnFlush := by
  obtain ⟨hqueue, -, hpushes, hclosing, -⟩ := s.trySpawnFlush_frame
  have hclose : ∀ {f}, s.trySpawnFlush.flushAt .close = some f → s.flushAt .close = some f := by
    intro f hf
    rw [State.flushAt_close, hclosing] at hf
    exact State.flushAt_close.mpr hf
  refine ⟨h.toFlag.trySpawnFlush, fun hne => ?_, fun hf => ?_, fun hf => ?_⟩
  · rw [hpushes]
    exact h.returned (hclosing ▸ hne)
  · exact .inr (hquiet (hclose hf)).trySpawnFlush
  · rw [hqueue]
    exact h.drained (hclose hf)

theorem FlushMove.drained {f f' : Flush} (h : FlushMove conf s f s' f')
    (hf : (∃ batch, f = .popping batch) ∨ s.queue = []) :
    (∃ batch, f' = .popping batch) ∨ s'.queue = [] := by
  cases h with
  | pop => exact .inl ⟨_, rfl⟩
  | idle hqueue => exact .inr hqueue
  | collect hqueue => exact .inr hqueue
  | read | write | panic =>
      rcases hf with ⟨batch, hf⟩ | hqueue
      · cases hf
      · exact .inr hqueue

theorem Locked.flush (h : Locked s) {a : Slot} {f f' : Flush} {s1 : State}
    (found : s.flushAt a = some f) (move : FlushMove conf s f s1 f') :
    Locked (s1.put a f') := by
  obtain ⟨htasks, hclosing, hflag, hpushes, -⟩ := move.frame
  obtain ⟨hqueue, -, -, hputPushes, -⟩ := s1.put_frame a f'
  have found1 := (move.flushAt a).trans found
  refine ⟨(h.toFlag.congr hflag htasks).put found1 f', fun hne => ?_, fun {g} hg => ?_,
    fun {g} hg => ?_⟩
  · rw [hputPushes, hpushes]
    refine h.returned fun hopen => ?_
    cases a with
    | task i => exact hne (hclosing.trans hopen)
    | close => cases hopen.symm.trans (State.flushAt_close.mp found)
  · cases a with
    | task i =>
        have hclose : s.flushAt .close = some g := (move.flushAt .close).symm.trans hg
        exact .inr ((h.quiet_of_flush found hclose).flush found move)
    | close =>
        rcases h.alone found with hended | hquiet
        · exact .inl (htasks.symm ▸ hended)
        · exact .inr (hquiet.flush found move)
  · rw [hqueue]
    cases a with
    | task i =>
        have hclose : s.flushAt .close = some g := (move.flushAt .close).symm.trans hg
        exact .inr ((h.quiet_of_flush found hclose).flush found move).1
    | close =>
        cases hg
        exact move.drained (h.drained found)

/-- `close` sees the flag clear. -/
theorem Locked.enter (h : Locked s) (hspin : s.closing = .spinning) (hclear : s.flushing = false)
    (hok : s.queue = [] ∨ ∀ t ∈ s.tasks, t ≠ .checking ∧ t ≠ .respawning) :
    Locked { s with closing := .flushing (.popping []) } := by
  have hreturned : ∀ p ∈ s.pushes, p = .returned := by
    refine h.returned ?_
    rw [hspin]
    decide
  refine ⟨h.toFlag.congr rfl rfl, fun _ => hreturned, fun hf => ?_, fun hf => ?_⟩
  · rcases hok with hqueue | htasks
    · refine .inr ⟨hqueue, fun b g hg => ?_⟩
      cases b with
      | task i => cases (h.clear hclear i).symm.trans hg
      | close =>
          cases hg
          exact .inl rfl
    · refine .inl fun t ht => ?_
      obtain ⟨i, hi⟩ := List.getElem?_of_mem ht
      cases t with
      | flushing f => cases (h.clear hclear i).symm.trans (State.flushAt_task.mpr hi)
      | checking => exact absurd rfl (htasks _ ht).1
      | respawning => exact absurd rfl (htasks _ ht).2
      | ended => rfl
  · cases hf
    exact .inl ⟨[], rfl⟩

theorem Locked.step {a : Act} (h : Locked s) (hok : Careful s a) (hmove : Move conf s a s') :
    Locked s' := by
  cases hmove with
  | call hopen => exact Flag.locked (h.toFlag.congr rfl rfl) hopen
  | accept found | refuse found | count found =>
      exact Flag.locked (h.toFlag.congr rfl rfl) (h.notCalled found Push.noConfusion)
  | @spawn i found =>
      have hflag : Flag { s with pushes := s.pushes.set i .returned } := h.toFlag.congr rfl rfl
      exact hflag.trySpawnFlush.locked
        ((State.trySpawnFlush_frame _).2.2.2.1.trans (h.notCalled found Push.noConfusion))
  | flush found move => exact h.flush found move
  | @clear i found =>
      have hset : Locked { s with tasks := s.tasks.set i .checking } :=
        h.set found Task.noConfusion rfl
      exact ⟨h.toFlag.release found, hset.returned, hset.alone, hset.drained⟩
  | check found ht =>
      rcases ht with rfl | rfl
      · exact h.set found Task.noConfusion rfl
      · exact h.set found Task.noConfusion rfl
  | respawn found =>
      refine (h.set found Task.noConfusion rfl).trySpawnFlush fun hf => ?_
      exact (h.quiet found Task.noConfusion hf).set rfl
  | close hopen hreturned =>
      refine ⟨h.toFlag.congr rfl rfl, fun _ => hreturned, fun hf => ?_, fun hf => ?_⟩
      · cases hf
      · cases hf
  | spin => exact h
  | enter hspin hclear => exact h.enter hspin hclear (hok hspin hclear)

/-! ## The entries -/

/-- An entry waits in the queue or in the batch of a flush. -/
def InBuffer (s : State) (e : HistoryEntry) : Prop :=
  e ∈ s.queue ∨ ∃ b f, s.flushAt b = some f ∧ e ∈ f.batch

/-- Where the entries are. -/
structure Kept (s : State) : Prop where
  accepted : ∀ e ∈ s.accepted, InBuffer s e ∨ Recorded s.file e
  plain : ∀ e, InBuffer s e → e.Plain
  pushing : ∀ e, Push.pushing e ∈ s.pushes → e.Plain
  fresh : ∀ {b batch content}, s.flushAt b = some (.writing batch content) → content = s.file

/-- A step that leaves the entries and the file alone. -/
theorem Kept.mono (h : Kept s) (hbuffer : ∀ e, InBuffer s' e ↔ InBuffer s e)
    (haccepted : s'.accepted = s.accepted) (hfile : s'.file = s.file)
    (hpushing : ∀ e, Push.pushing e ∈ s'.pushes → e.Plain)
    (hwriting : ∀ {b batch content}, s'.flushAt b = some (.writing batch content) →
      content = s.file) : Kept s' where
  accepted e he := by
    rw [hbuffer, hfile]
    exact h.accepted e (haccepted ▸ he)
  plain e he := h.plain e ((hbuffer e).mp he)
  pushing := hpushing
  fresh hb := (hwriting hb).trans hfile.symm

theorem inBuffer_congr (hqueue : s'.queue = s.queue) (hat : ∀ b, s'.flushAt b = s.flushAt b)
    (e : HistoryEntry) : InBuffer s' e ↔ InBuffer s e := by
  simp only [InBuffer, hqueue, hat]

/-- A call that goes on pushes nothing else. -/
theorem Kept.pushing_set (h : Kept s) {i : Nat} {p : Push} (hp : ∀ e, p ≠ .pushing e)
    (e : HistoryEntry) (he : Push.pushing e ∈ s.pushes.set i p) : e.Plain := by
  rcases List.mem_or_eq_of_mem_set he with he | he
  · exact h.pushing e he
  · exact absurd he.symm (hp e)

/-- A call of `push_many` goes on without touching the queue. -/
theorem Kept.setPush (h : Kept s) {i : Nat} {p : Push} (hp : ∀ e, p ≠ .pushing e) (n : Nat) :
    Kept { s with dropped := n, pushes := s.pushes.set i p } :=
  h.mono (inBuffer_congr rfl (State.flushAt_congr rfl rfl)) rfl rfl (h.pushing_set hp)
    (fun hb => h.fresh hb)

theorem Kept.trySpawnFlush (h : Kept s) : Kept s.trySpawnFlush := by
  obtain ⟨hqueue, hfile, hpushes, -, haccepted⟩ := s.trySpawnFlush_frame
  refine h.mono (fun e => ?_) haccepted hfile (hpushes ▸ h.pushing) fun {b batch content} hb => ?_
  · rw [InBuffer, InBuffer, hqueue]
    refine or_congr_right ⟨?_, ?_⟩
    · rintro ⟨b, f, hb, he⟩
      rcases State.flushAt_trySpawnFlush hb with hb | ⟨-, -, rfl⟩
      · exact ⟨b, f, hb, he⟩
      · cases he
    · rintro ⟨b, f, hb, he⟩
      exact ⟨b, f, State.flushAt_trySpawnFlush_of hb, he⟩
  · rcases State.flushAt_trySpawnFlush hb with hb | ⟨-, -, hf⟩
    · exact h.fresh hb
    · cases hf

/-- A task goes on without a flush. -/
theorem Kept.setTask (h : Kept s) {i : Nat} {t t' : Task} (found : s.tasks[i]? = some t)
    (ht : ∀ f, t = .flushing f → f.batch = []) (ht' : t'.flush = none) (flag : Bool) :
    Kept { s with flushing := flag, tasks := s.tasks.set i t' } := by
  have hat : ∀ b, { s with flushing := flag, tasks := s.tasks.set i t' }.flushAt b =
      if b = .task i then none else s.flushAt b := fun b => State.flushAt_set ht'
  refine h.mono (fun e => or_congr_right ⟨?_, ?_⟩) rfl rfl h.pushing fun {b batch content} hb => ?_
  · rintro ⟨b, f, hb, he⟩
    rw [hat] at hb
    split at hb
    · cases hb
    · exact ⟨b, f, hb, he⟩
  · rintro ⟨b, f, hb, he⟩
    refine ⟨b, f, ?_, he⟩
    rw [hat, if_neg]
    · exact hb
    · -- the task that goes on had no batch
      rintro rfl
      have hf := Option.some.inj (found.symm.trans (State.flushAt_task.mp hb))
      rw [ht f hf] at he
      cases he
  · rw [hat] at hb
    split at hb
    · cases hb
    · exact h.fresh hb

/-- `close` goes on without a batch. -/
theorem Kept.setClosing (h : Kept s) {c : Close} (hs : s.closing.flush = none)
    (hc : ∀ f, c.flush = some f → f = .popping []) : Kept { s with closing := c } := by
  have hold : ∀ {b f}, s.flushAt b = some f → { s with closing := c }.flushAt b = some f := by
    intro b f hb
    cases b with
    | task i => exact hb
    | close => cases hs.symm.trans hb
  have hnew : ∀ {b f}, { s with closing := c }.flushAt b = some f →
      s.flushAt b = some f ∨ f = .popping [] := by
    intro b f hb
    cases b with
    | task i => exact .inl hb
    | close => exact .inr (hc f hb)
  refine h.mono (fun e => or_congr_right ⟨?_, ?_⟩) rfl rfl h.pushing fun {b batch content} hb => ?_
  · rintro ⟨b, f, hb, he⟩
    rcases hnew hb with hb | rfl
    · exact ⟨b, f, hb, he⟩
    · cases he
  · rintro ⟨b, f, hb, he⟩
    exact ⟨b, f, hold hb, he⟩
  · rcases hnew hb with hb | hf
    · exact h.fresh hb
    · cases hf

theorem Kept.accept (h : Kept s) {i : Nat} {e : HistoryEntry}
    (found : s.pushes[i]? = some (.pushing e)) :
    Kept { s with
      queue := s.queue ++ [e]
      accepted := s.accepted ++ [e]
      pushes := s.pushes.set i .counting } := by
  refine ⟨fun e' he' => ?_, fun e' he' => ?_, h.pushing_set fun _ => Push.noConfusion,
    fun hb => h.fresh hb⟩
  · rcases List.mem_append.mp he' with he' | he'
    · rcases h.accepted e' he' with (hqueue | hbatch) | hfile
      · exact .inl (.inl (List.mem_append_left _ hqueue))
      · exact .inl (.inr hbatch)
      · exact .inr hfile
    · exact .inl (.inl (List.mem_append_right _ he'))
  · rcases he' with hqueue | hbatch
    · rcases List.mem_append.mp hqueue with hqueue | hlast
      · exact h.plain e' (.inl hqueue)
      · rw [List.mem_singleton.mp hlast]
        exact h.pushing e (List.mem_of_getElem? found)
    · exact h.plain e' (.inr hbatch)

/-- The batch of one flush, apart from the rest of the buffer. -/
theorem inBuffer_iff {a : Slot} {f : Flush} (found : s.flushAt a = some f) (e : HistoryEntry) :
    InBuffer s e ↔ e ∈ s.queue ∨ e ∈ f.batch ∨
      ∃ b g, b ≠ a ∧ s.flushAt b = some g ∧ e ∈ g.batch := by
  refine or_congr_right ⟨?_, ?_⟩
  · rintro ⟨b, g, hb, he⟩
    by_cases hab : b = a
    · subst hab
      cases found.symm.trans hb
      exact .inl he
    · exact .inr ⟨b, g, hab, hb, he⟩
  · rintro (he | ⟨b, g, -, hb, he⟩)
    · exact ⟨a, f, found, he⟩
    · exact ⟨b, g, hb, he⟩

/-- The buffer after a step of a flush. -/
theorem FlushMove.inBuffer {a : Slot} {f f' : Flush} (h : FlushMove conf s f s' f')
    (found : s.flushAt a = some f) (e : HistoryEntry) :
    InBuffer (s'.put a f') e ↔ e ∈ s'.queue ∨ e ∈ f'.batch ∨
      ∃ b g, b ≠ a ∧ s.flushAt b = some g ∧ e ∈ g.batch := by
  rw [inBuffer_iff (State.flushAt_put_self ((h.flushAt a).trans found) f'),
    (s'.put_frame a f').1]
  refine or_congr_right (or_congr_right ⟨?_, ?_⟩)
  · rintro ⟨b, g, hab, hb, he⟩
    rw [State.flushAt_put_other hab, h.flushAt] at hb
    exact ⟨b, g, hab, hb, he⟩
  · rintro ⟨b, g, hab, hb, he⟩
    refine ⟨b, g, hab, ?_, he⟩
    rw [State.flushAt_put_other hab, h.flushAt]
    exact hb

/-- A step of a flush that does not write. -/
theorem Kept.flush (h : Kept s) {a : Slot} {f f' : Flush} (found : s.flushAt a = some f)
    (move : FlushMove conf s f s' f') (hfile : s'.file = s.file)
    (hentries : ∀ e, e ∈ s'.queue ∨ e ∈ f'.batch ↔ e ∈ s.queue ∨ e ∈ f.batch)
    (hwriting : ∀ batch content, f' = .writing batch content → content = s.file) :
    Kept (s'.put a f') := by
  obtain ⟨-, -, -, hpushes, haccepted⟩ := move.frame
  obtain ⟨-, -, hputFile, hputPushes, hputAccepted⟩ := s'.put_frame a f'
  refine h.mono (fun e => ?_) (hputAccepted.trans haccepted) (hputFile.trans hfile) ?_
    fun {b batch content} hb => ?_
  · rw [move.inBuffer found, inBuffer_iff found, ← or_assoc, ← or_assoc, hentries]
  · rw [hputPushes, hpushes]
    exact h.pushing
  · rcases State.flushAt_put ((move.flushAt a).trans found) hb with ⟨-, hf⟩ | ⟨-, hb⟩
    · exact hwriting batch content hf.symm
    · exact h.fresh ((move.flushAt b).symm.trans hb)

theorem Flush.writing_not_idle (batch : List HistoryEntry) (content : Str) :
    ¬ (Flush.writing batch content).Idle := by
  rintro (h | h)
  · cases h
  · cases h

/-- A flush writes.  No other flush has read the file, so what it overwrites is
what it has read. -/
theorem Kept.write (h : Kept s) (hlock : Locked s) {a : Slot} {batch : List HistoryEntry}
    {content text : Str} (found : s.flushAt a = some (.writing batch content))
    (hfit : (mergeHistory content batch).order.length ≤ conf.linesCount)
    (htext : flushedText conf.linesCount content batch = some text) :
    Kept ({ s with file := text }.put a .done) := by
  have hplain : ∀ e ∈ batch, e.Plain := fun e he => h.plain e (.inr ⟨a, _, found, he⟩)
  obtain ⟨text', htext', hbatch, hkept⟩ := flushedText_spec hplain hfit
  obtain rfl : text' = text := Option.some.inj (htext'.symm.trans htext)
  have move : FlushMove conf s (.writing batch content) { s with file := text' } .done :=
    .write htext
  obtain ⟨-, -, hfile, hpushes, haccepted⟩ := State.put_frame { s with file := text' } a .done
  refine ⟨fun e he => ?_, fun e he => ?_, ?_, fun {b batch1 content1} hb => ?_⟩
  · rw [hfile, move.inBuffer found]
    rw [haccepted] at he
    rcases h.accepted e he with hbuffer | hrecorded
    · rcases (inBuffer_iff found e).mp hbuffer with hqueue | he | helse
      · exact .inl (.inl hqueue)
      · exact .inr (hbatch e he)
      · exact .inl (.inr (.inr helse))
    · rw [← h.fresh found] at hrecorded
      exact .inr (hkept e hrecorded)
  · refine h.plain e ((inBuffer_iff found e).mpr ?_)
    rcases (move.inBuffer found e).mp he with hqueue | he | helse
    · exact .inl hqueue
    · cases he
    · exact .inr (.inr helse)
  · rw [hpushes]
    exact h.pushing
  · rcases State.flushAt_put ((move.flushAt a).trans found) hb with ⟨-, hf⟩ | ⟨hne, hb⟩
    · cases hf
    · have hb := (move.flushAt b).symm.trans hb
      exact absurd (hlock.exclusive hb found (Flush.writing_not_idle _ _)
        (Flush.writing_not_idle _ _)) hne

theorem Kept.flushMove (h : Kept s) (hlock : Locked s) {a : Slot} {f f' : Flush}
    (hfits : f.Fits conf) (found : s.flushAt a = some f)
    (move : FlushMove conf s f s' f') : Kept (s'.put a f') := by
  have hmove := move
  cases move with
  | pop hqueue =>
      refine h.flush found hmove rfl (fun e => ?_) fun _ _ => Flush.noConfusion
      rw [hqueue]
      simp only [Flush.batch, List.mem_append, List.mem_cons, List.not_mem_nil, or_false]
      tauto
  | idle | collect =>
      exact h.flush found hmove rfl (fun e => Iff.rfl) fun _ _ => Flush.noConfusion
  | read =>
      refine h.flush found hmove rfl (fun e => Iff.rfl) fun _ _ hf => ?_
      cases hf
      rfl
  | @write batch content text htext =>
      exact h.write hlock found hfits htext
  | @panic batch content htext =>
      -- a batch of words always has a text
      obtain ⟨text, hsome, -⟩ := flushedText_spec
        (fun e he => h.plain e (.inr ⟨a, _, found, he⟩)) hfits
      cases htext.symm.trans hsome

theorem Kept.step {a : Act} (h : Kept s) (hlock : Locked s) (hlimit : WithinLimit conf s a)
    (hok : Careful s a) (hmove : Move conf s a s') : Kept s' := by
  cases hmove with
  | @call e =>
      refine h.mono (inBuffer_congr rfl (State.flushAt_congr rfl rfl)) rfl rfl (fun e' he' => ?_)
        fun hb => h.fresh hb
      rcases List.mem_append.mp he' with he' | he'
      · exact h.pushing e' he'
      · have hpush := List.mem_singleton.mp he'
        rw [Conf.pushMany] at hpush
        split_ifs at hpush
        cases hpush
        exact hok
  | accept found => exact h.accept found
  | refuse => exact h.setPush (fun _ => Push.noConfusion) _
  | count found hp =>
      rcases hp with rfl | rfl
      · exact h.setPush (fun _ => Push.noConfusion) _
      · exact h.setPush (fun _ => Push.noConfusion) _
  | spawn => exact (h.setPush (fun _ => Push.noConfusion) _).trySpawnFlush
  | @flush a _ _ _ found move =>
      refine h.flushMove hlock (hlimit _ ?_) found move
      rw [State.flushOf_act]
      exact found
  | clear found =>
      refine h.setTask found (fun f hf => ?_) rfl false
      cases hf
      rfl
  | check found ht =>
      rcases ht with rfl | rfl
      · exact h.setTask found (fun _ => Task.noConfusion) rfl _
      · exact h.setTask found (fun _ => Task.noConfusion) rfl _
  | respawn found =>
      exact (h.setTask found (fun _ => Task.noConfusion) rfl _).trySpawnFlush
  | close hopen =>
      refine h.setClosing ?_ fun _ hf => ?_
      · rw [hopen]
        rfl
      · cases hf
  | spin => exact h
  | enter hspin =>
      refine h.setClosing ?_ fun _ hf => ?_
      · rw [hspin]
        rfl
      · cases hf
        rfl

/-! ## Runs -/

theorem locked_new (file : Str) : Locked (new file) := by
  refine Flag.locked ⟨fun _ _ => rfl, fun hi => ?_⟩ rfl
  cases hi

theorem kept_new (file : Str) : Kept (new file) := by
  have hnone : ∀ {b f}, (new file).flushAt b ≠ some f := by
    intro b f hb
    cases b with
    | task i => cases hb
    | close => cases hb
  refine ⟨fun e he => ?_, fun e he => ?_, fun e he => ?_, fun hb => absurd hb hnone⟩
  · cases he
  · rcases he with he | ⟨b, f, hb, -⟩
    · cases he
    · exact absurd hb hnone
  · cases he

/-- In a careful run no two flushes are between the read and the write of the
file, and when `close` and all tasks are over, the file has every entry that
the queue took. -/
theorem history_keeps_entries {conf : Conf} {file : Str} {s : State}
    (h : (machine conf file).ReachBy (fun s a => WithinLimit conf s a ∧ Careful s a) s) :
    (∀ a b batch content batch' content', s.flushAt a = some (.writing batch content) →
      s.flushAt b = some (.writing batch' content') → a = b) ∧
    (s.closing = .flushing .done → (∀ t ∈ s.tasks, t = .ended) →
      ∀ e ∈ s.accepted, Recorded s.file e) := by
  have hinv : Locked s ∧ Kept s := by
    refine Machine.ReachBy.invariant (P := fun s => Locked s ∧ Kept s)
      ⟨locked_new file, kept_new file⟩ ?_ h
    rintro s a s' ⟨hlock, hkept⟩ ⟨hlimit, hok⟩ hs
    have hmove := step_move hs
    exact ⟨hlock.step hok hmove, hkept.step hlock hlimit hok hmove⟩
  obtain ⟨hlock, hkept⟩ := hinv
  refine ⟨fun a b _ _ _ _ ha hb => ?_, fun hdone hended e he => ?_⟩
  · exact hlock.exclusive ha hb (Flush.writing_not_idle _ _) (Flush.writing_not_idle _ _)
  · have hclose := State.flushAt_close.mpr hdone
    rcases hkept.accepted e he with (hqueue | ⟨b, f, hb, hbatch⟩) | hrecorded
    · rcases hlock.drained hclose with ⟨batch, hf⟩ | hempty
      · cases hf
      · rw [hempty] at hqueue
        cases hqueue
    · cases b with
      | task i =>
          have htask := State.flushAt_task.mp hb
          cases hended _ (List.mem_of_getElem? htask)
      | close =>
          cases hclose.symm.trans hb
          cases hbatch
    · exact hrecorded

def sampleConf : Conf := ⟨100000, []⟩

def sampleEntry (c : Char) : HistoryEntry := ⟨[c], [['1']]⟩

/-- A call of `push_many`, up to its look at the length of the queue. -/
def pushed (e : HistoryEntry) (i : Nat) : List Act := [.call e, .push i, .push i]

/-- An entry is pushed, and `close` writes it. -/
def closingRun : List Act :=
  pushed (sampleEntry 'x') 0 ++ [.close] ++ List.replicate 5 .closing

theorem history_keeps_entries_closing :
    ∃ s, (machine sampleConf []).ReachBy (fun s a => WithinLimit sampleConf s a ∧ Careful s a) s ∧
      s.closing = .flushing .done ∧ sampleEntry 'x' ∈ s.accepted ∧
      Recorded s.file (sampleEntry 'x') := by
  have hrun : ((machine sampleConf []).runIf (fun s a => WithinLimit sampleConf s a ∧ Careful s a)
      (new []) closingRun).any (fun s => decide (s.closing = .flushing .done ∧
        (∀ t ∈ s.tasks, t = .ended) ∧ sampleEntry 'x' ∈ s.accepted)) = true := by
    decide +kernel
  obtain ⟨s, hs, hend⟩ := (Option.any_eq_true _ _).mp hrun
  obtain ⟨hdone, hended, haccepted⟩ := of_decide_eq_true hend
  have hreach := (Machine.runBy_of_runIf hs).reachBy .init
  exact ⟨s, hreach, hdone, haccepted, (history_keeps_entries hreach).2 hdone hended _ haccepted⟩

/-- A full queue starts a task.  Two more entries are pushed after its write.
`close` takes one of them, and a second task the other. -/
def losingRun : List Act :=
  (List.range 100).flatMap (pushed (sampleEntry 'a')) ++ [.push 99] ++
    List.replicate 103 (.task 0) ++
    (pushed (sampleEntry 'x') 100 ++ pushed (sampleEntry 'y') 101) ++
    -- the task clears the flag, `close` takes one entry, and the task sees the other
    [.task 0, .close, .closing, .closing, .task 0, .task 0, .task 1, .task 1,
      -- `close` and the second task read and write in turn
      .closing, .task 1, .closing, .task 1, .closing, .task 1, .task 1]

/-- The write of the task is overwritten by that of `close`. -/
theorem overlapping_flushes_lose_entry :
    ∃ s, (machine sampleConf []).ReachBy (WithinLimit sampleConf) s ∧
      s.closing = .flushing .done ∧ (∀ t ∈ s.tasks, t = .ended) ∧
      sampleEntry 'y' ∈ s.accepted ∧ ¬ Recorded s.file (sampleEntry 'y') := by
  have hrun : ((machine sampleConf []).runIf (WithinLimit sampleConf) (new []) losingRun).any
      (fun s => decide (s.closing = .flushing .done ∧ (∀ t ∈ s.tasks, t = .ended) ∧
        sampleEntry 'y' ∈ s.accepted ∧ ¬ Recorded s.file (sampleEntry 'y'))) = true := by
    decide +kernel
  obtain ⟨s, hs, hend⟩ := (Option.any_eq_true _ _).mp hrun
  exact ⟨s, (Machine.runBy_of_runIf hs).reachBy .init, of_decide_eq_true hend⟩

end HistoryBuffer

end DnsRelay
