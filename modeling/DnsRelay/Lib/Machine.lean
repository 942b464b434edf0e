import Mathlib.Algebra.GroupWithZero.Nat
import Mathlib.Logic.Function.Basic
import Mathlib.Tactic.Common

/-!
# Machines and their runs

A machine is a state type, a start state and a partial step function.  The
actions of all parties are labels of one step function, so a list of actions
is an interleaving.  `Machine.run` executes such a list.

`Machine.ReachBy ok` holds of the states reached by runs in which every step
meets the side condition `ok` on the state before it.  `Machine.Reach` is the
case without a condition, and `Machine.RunBy` is a stretch of such a run.
Safety results are proved with `Machine.ReachBy.invariant`, results about a
stretch with `Machine.RunBy.unless`, and concrete runs enter through
`Machine.reach_of_run`, or `Machine.runBy_of_runIf` where their steps have a
condition to meet.  `Machine.Reach.simulate` carries a result from a
machine to one with smaller steps, and `Machine.RunBy.lockstep` compares two
runs with the same actions.
-/

namespace DnsRelay.Lib

/-- A transition system.  `step s a = none` says that `a` is not enabled. -/
structure Machine (σ α : Type) where
  init : σ
  step : σ → α → Option σ

namespace Machine

variable {σ α : Type} {M : Machine σ α}

def run (M : Machine σ α) : σ → List α → Option σ
  | s, [] => some s
  | s, a :: as => (M.step s a).bind (run M · as)

/-- Execute a list of actions, each only where it meets `ok`. -/
def runIf (M : Machine σ α) (ok : σ → α → Prop) [∀ s a, Decidable (ok s a)] :
    σ → List α → Option σ
  | s, [] => some s
  | s, a :: as => if ok s a then (M.step s a).bind (runIf M ok · as) else none

theorem run_cons {s s1 s' : σ} {a : α} {as : List α} (hs : M.step s a = some s1)
    (hr : M.run s1 as = some s') : M.run s (a :: as) = some s' :=
  Option.bind_eq_some_iff.mpr ⟨s1, hs, hr⟩

theorem run_append (s : σ) (as bs : List α) :
    M.run s (as ++ bs) = (M.run s as).bind (M.run · bs) := by
  induction as generalizing s with
  | nil => rfl
  | cons a as ih =>
      show (M.step s a).bind (M.run · (as ++ bs)) = ((M.step s a).bind (M.run · as)).bind _
      rw [Option.bind_assoc]
      exact congrArg _ (funext fun s => ih s)

/-- A run is cut at one of its actions. -/
theorem run_split {s s' : σ} {a : α} {as : List α} (hrun : M.run s as = some s') (ha : a ∈ as) :
    ∃ before after mid next, as = before ++ a :: after ∧ M.run s before = some mid ∧
      M.step mid a = some next ∧ M.run next after = some s' := by
  obtain ⟨before, after, rfl⟩ := List.append_of_mem ha
  rw [run_append] at hrun
  obtain ⟨mid, hbefore, hrest⟩ := Option.bind_eq_some_iff.mp hrun
  obtain ⟨next, hstep, hafter⟩ := Option.bind_eq_some_iff.mp hrest
  exact ⟨before, after, mid, next, rfl, hbefore, hstep, hafter⟩

/-- The states reached by runs whose every step meets `ok`. -/
inductive ReachBy (M : Machine σ α) (ok : σ → α → Prop) : σ → Prop where
  | init : ReachBy M ok M.init
  | step {s s' : σ} (a : α) :
      ReachBy M ok s → ok s a → M.step s a = some s' → ReachBy M ok s'

/-- A stretch of a run whose every step meets `ok`, with its actions. -/
inductive RunBy (M : Machine σ α) (ok : σ → α → Prop) : σ → List α → σ → Prop where
  | nil {s : σ} : RunBy M ok s [] s
  | cons {s s' t : σ} {a : α} {as : List α} :
      ok s a → M.step s a = some s' → RunBy M ok s' as t → RunBy M ok s (a :: as) t

/-- The reachable states. -/
def Reach (M : Machine σ α) : σ → Prop := M.ReachBy fun _ _ => True

/-- An invariant holds initially and survives every step that meets `ok`. -/
theorem ReachBy.invariant {ok : σ → α → Prop} {P : σ → Prop} (hinit : P M.init)
    (hstep : ∀ s a s', P s → ok s a → M.step s a = some s' → P s') {s : σ}
    (h : M.ReachBy ok s) : P s := by
  induction h with
  | init => exact hinit
  | step a _ hok hs ih => exact hstep _ a _ ih hok hs

/-- What every step keeps unless it is one of `ends` is there at the end of a
stretch, unless one of its actions is. -/
theorem RunBy.unless {ok : σ → α → Prop} {P : σ → Prop} {ends : α → Prop}
    (hstep : ∀ s a s', M.ReachBy ok s → P s → M.step s a = some s' → P s' ∨ ends a) {s t : σ}
    {as : List α} (hrun : M.RunBy ok s as t) (h : M.ReachBy ok s) (hp : P s) :
    P t ∨ ∃ a ∈ as, ends a := by
  induction hrun with
  | nil => exact .inl hp
  | @cons s s' t a as hok hs _ ih =>
      rcases hstep s a s' h hp hs with hp' | hend
      · rcases ih (h.step a hok hs) hp' with hp' | ⟨b, hb, hend⟩
        · exact .inl hp'
        · exact .inr ⟨b, List.mem_cons_of_mem a hb, hend⟩
      · exact .inr ⟨a, List.mem_cons_self, hend⟩

/-- A weaker side condition reaches more states. -/
theorem ReachBy.mono {ok ok' : σ → α → Prop} (hle : ∀ s a, ok s a → ok' s a) {s : σ}
    (h : M.ReachBy ok s) : M.ReachBy ok' s := by
  induction h with
  | init => exact .init
  | step a _ hok hs ih => exact .step a ih (hle _ _ hok) hs

theorem ReachBy.reach {ok : σ → α → Prop} {s : σ} (h : M.ReachBy ok s) : M.Reach s :=
  h.mono fun _ _ _ => trivial

theorem Reach.next {s s' : σ} (h : M.Reach s) (a : α) (hs : M.step s a = some s') :
    M.Reach s' :=
  ReachBy.step a h trivial hs

/-- A run of actions that always meet the side condition. -/
theorem runBy_of_run {ok : σ → α → Prop} {s s' : σ} {as : List α} (hok : ∀ a ∈ as, ∀ s, ok s a)
    (hr : M.run s as = some s') : M.RunBy ok s as s' := by
  induction as generalizing s with
  | nil =>
      cases hr
      exact .nil
  | cons a as ih =>
      obtain ⟨s1, hs, hr⟩ := Option.bind_eq_some_iff.mp hr
      exact .cons (hok a List.mem_cons_self s) hs
        (ih (fun b hb => hok b (List.mem_cons_of_mem a hb)) hr)

theorem RunBy.append {ok : σ → α → Prop} {s t u : σ} {as bs : List α} (h : M.RunBy ok s as t)
    (h' : M.RunBy ok t bs u) : M.RunBy ok s (as ++ bs) u := by
  induction h with
  | nil => exact h'
  | cons hok hs _ ih => exact .cons hok hs (ih h')

/-- A stretch leads from reachable states to reachable states. -/
theorem RunBy.reachBy {ok : σ → α → Prop} {s t : σ} {as : List α} (h : M.RunBy ok s as t)
    (hs : M.ReachBy ok s) : M.ReachBy ok t := by
  induction h with
  | nil => exact hs
  | cons hok hstep _ ih => exact ih (hs.step _ hok hstep)

theorem runBy_of_runIf {ok : σ → α → Prop} [∀ s a, Decidable (ok s a)] {s s' : σ} {as : List α}
    (hr : M.runIf ok s as = some s') : M.RunBy ok s as s' := by
  induction as generalizing s with
  | nil =>
      cases hr
      exact .nil
  | cons a as ih =>
      rw [runIf] at hr
      split at hr
      · next hok =>
          obtain ⟨s1, hs, hr⟩ := Option.bind_eq_some_iff.mp hr
          exact .cons hok hs (ih hr)
      · cases hr

theorem ReachBy.run {ok : σ → α → Prop} {s s' : σ} {as : List α} (h : M.ReachBy ok s)
    (hok : ∀ a ∈ as, ∀ s, ok s a) (hr : M.run s as = some s') : M.ReachBy ok s' :=
  (runBy_of_run hok hr).reachBy h

/-- Two machines in lockstep.  While every step of the first is matched by the
same step of the second, the second runs along. -/
theorem RunBy.lockstep {τ : Type} {N : Machine τ α} {R : σ → τ → Prop} {ok : σ → α → Prop}
    (hstep : ∀ s a s' t, ok s a → R s t → M.step s a = some s' →
      ∃ t', N.step t a = some t' ∧ R s' t')
    {s s' : σ} {t : τ} {as : List α} (h : M.RunBy ok s as s') (hR : R s t) :
    ∃ t', N.run t as = some t' ∧ R s' t' := by
  induction h generalizing t with
  | nil => exact ⟨t, rfl, hR⟩
  | @cons s s1 s' a as hok hs _ ih =>
      obtain ⟨t1, ht, hR1⟩ := hstep s a s1 t hok hR hs
      obtain ⟨t', hrun, hR'⟩ := ih hR1
      exact ⟨t', run_cons ht hrun, hR'⟩

/-- Running from a reachable state ends in a reachable state. -/
theorem Reach.run {s s' : σ} {as : List α} (h : M.Reach s) (hr : M.run s as = some s') :
    M.Reach s' :=
  ReachBy.run h (fun _ _ _ => trivial) hr

/-- What every step from a reachable state keeps is there at the end of a
run. -/
theorem Reach.run_keeps {P : σ → Prop}
    (hstep : ∀ s a s', M.Reach s → P s → M.step s a = some s' → P s') {s s' : σ} {as : List α}
    (h : M.Reach s) (hp : P s) (hr : M.run s as = some s') : P s' := by
  induction as generalizing s with
  | nil =>
      cases hr
      exact hp
  | cons a as ih =>
      obtain ⟨s1, hs, hr⟩ := Option.bind_eq_some_iff.mp hr
      exact ih (h.next a hs) (hstep s a s1 h hp hs) hr

/-- Steps that lower a measure are at most as many as the measure says. -/
theorem Reach.run_length_le {P : α → Prop} {μ : σ → Nat}
    (hstep : ∀ s a s', M.Reach s → P a → M.step s a = some s' → μ s' < μ s) {s s' : σ}
    {as : List α} (h : M.Reach s) (hP : ∀ a ∈ as, P a) (hr : M.run s as = some s') :
    as.length + μ s' ≤ μ s := by
  induction as generalizing s with
  | nil =>
      cases hr
      exact Nat.le_of_eq (Nat.zero_add _)
  | cons a as ih =>
      obtain ⟨s1, hs, hr⟩ := Option.bind_eq_some_iff.mp hr
      have hlt := hstep s a s1 h (hP a List.mem_cons_self) hs
      have hle := ih (h.next a hs) (fun b hb => hP b (List.mem_cons_of_mem a hb)) hr
      rw [List.length_cons]
      omega

/-- What holds at the end of a run and not at its start was caused at some
moment of the run. -/
theorem Reach.run_traced {P Q : σ → Prop}
    (hstep : ∀ s a s', M.Reach s → M.step s a = some s' → P s' → P s ∨ Q s) {s s' : σ}
    {as : List α} (h : M.Reach s) (hr : M.run s as = some s') (hp : P s') :
    P s ∨ ∃ before after mid, as = before ++ after ∧ M.run s before = some mid ∧ Q mid := by
  induction as generalizing s with
  | nil =>
      cases hr
      exact .inl hp
  | cons a as ih =>
      obtain ⟨s1, hs, hr⟩ := Option.bind_eq_some_iff.mp hr
      rcases ih (h.next a hs) hr with hp | ⟨before, after, mid, rfl, hrun, hq⟩
      · rcases hstep s a s1 h hs hp with hp | hq
        · exact .inl hp
        · exact .inr ⟨[], a :: as, s, rfl, rfl, hq⟩
      · exact .inr ⟨a :: before, after, mid, rfl, run_cons hs hrun, hq⟩

theorem reach_of_run {s : σ} {as : List α} (hr : M.run M.init as = some s) : M.Reach s :=
  Reach.run ReachBy.init hr

/-- Every reachable state of a machine has a partner in another machine that
can follow its steps. -/
theorem Reach.simulate {τ β : Type} {N : Machine τ β} {R : σ → τ → Prop} (hinit : R M.init N.init)
    (hstep : ∀ s a s' t, R s t → N.Reach t → M.step s a = some s' → ∃ t', N.Reach t' ∧ R s' t')
    {s : σ} (h : M.Reach s) : ∃ t, N.Reach t ∧ R s t := by
  refine ReachBy.invariant (P := fun s => ∃ t, N.Reach t ∧ R s t) ⟨N.init, .init, hinit⟩ ?_ h
  rintro s a s' ⟨t, ht, hR⟩ - hs
  exact hstep s a s' t hR ht hs

end Machine

/-! ## Processes in a list

A state that has processes in a list replaces the one that makes a step. -/

theorem set_split {α : Type} {xs : List α} {i : Nat} {x : α} (h : xs[i]? = some x) :
    ∃ before after, xs = before ++ x :: after ∧ before.length = i ∧
      ∀ y, xs.set i y = before ++ y :: after := by
  obtain ⟨hi, rfl⟩ := List.getElem?_eq_some_iff.mp h
  refine ⟨xs.take i, xs.drop (i + 1), ?_, ?_, ?_⟩
  · rw [List.getElem_cons_drop, List.take_append_drop]
  · rw [List.length_take]
    omega
  · intro y
    rw [List.set_eq_take_append_cons_drop, if_pos hi]

/-- What the processes have together changes by what one of them has. -/
theorem sum_map_set {α : Type} {f : α → Nat} {xs : List α} {i : Nat} {x : α}
    (h : xs[i]? = some x) (y : α) :
    ((xs.set i y).map f).sum + f x = (xs.map f).sum + f y := by
  obtain ⟨before, after, hxs, -, hset⟩ := set_split h
  rw [hset, hxs]
  simp only [List.map_append, List.map_cons, List.sum_append, List.sum_cons]
  omega

end DnsRelay.Lib
