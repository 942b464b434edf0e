/-!
# Effects that may fail

`Effect σ ε α` is a computation over a state.  It returns a value or fails, and
a failure keeps the changes that were made before it.

`Effect.Triple P m Q E` says how a run of `m` from a state with `P` ends: with a
value and a state in `Q`, or with a failure and a state in `E`.  There is one
rule for every way to put computations together.

`Effect.After R m` says how the states before and after a run are related,
whether it fails or not.
-/

namespace DnsRelay.Lib

/-- A computation over the state `σ` that may fail with an `ε`. -/
def Effect (σ ε α : Type) : Type := σ → Except ε α × σ

namespace Effect

variable {σ ε α β : Type}

instance : Monad (Effect σ ε) where
  pure a := fun s => (.ok a, s)
  bind m f := fun s =>
    match m s with
    | (.ok a, s') => f a s'
    | (.error e, s') => (.error e, s')

def ofExcept (r : Except ε α) : Effect σ ε α := fun s => (r, s)

/-- An operation that leaves the state alone and may fail. -/
def check (fault : Option ε) : Effect σ ε Unit :=
  match fault with
  | none => pure ()
  | some e => ofExcept (.error e)

def read (f : σ → α) : Effect σ ε α := fun s => (.ok (f s), s)

def modify (f : σ → σ) : Effect σ ε Unit := fun s => (.ok (), f s)

/-- Run `cleanup` after a failure that is caught, and fail then.  A failure of the
cleanup takes the place of the first one. -/
def onError (caught : ε → Bool) (m : Effect σ ε α) (cleanup : Effect σ ε Unit) :
    Effect σ ε α := fun s =>
  match m s with
  | (.ok a, s') => (.ok a, s')
  | (.error e, s') =>
      if caught e then
        match cleanup s' with
        | (.ok _, s'') => (.error e, s'')
        | (.error e', s'') => (.error e', s'')
      else (.error e, s')

def orElse (m m' : Effect σ ε α) : Effect σ ε α := fun s =>
  match m s with
  | (.ok a, s') => (.ok a, s')
  | (.error _, s') => m' s'

def orElseIf (caught : ε → Bool) (m m' : Effect σ ε α) : Effect σ ε α := fun s =>
  match m s with
  | (.ok a, s') => (.ok a, s')
  | (.error e, s') => if caught e then m' s' else (.error e, s')

theorem bind_ok {m : Effect σ ε α} {f : α → Effect σ ε β} {s s' : σ} {a : α}
    (h : m s = (.ok a, s')) : (m >>= f) s = f a s' := by
  show (match m s with
    | (.ok a, s') => f a s'
    | (.error e, s') => (.error e, s')) = f a s'
  rw [h]

theorem bind_error {m : Effect σ ε α} {f : α → Effect σ ε β} {s s' : σ} {e : ε}
    (h : m s = (.error e, s')) : (m >>= f) s = (.error e, s') := by
  show (match m s with
    | (.ok a, s') => f a s'
    | (.error e, s') => (.error e, s')) = (.error e, s')
  rw [h]

theorem bind_assoc {γ : Type} (m : Effect σ ε α) (f : α → Effect σ ε β) (g : β → Effect σ ε γ)
    (s : σ) : ((m >>= f) >>= g) s = (m >>= fun a => f a >>= g) s := by
  obtain ⟨r, s', h⟩ : ∃ r s', m s = (r, s') := ⟨_, _, rfl⟩
  cases r with
  | ok a =>
      show (match (m >>= f) s with
        | (.ok b, s') => g b s'
        | (.error e, s') => (.error e, s')) = _
      rw [bind_ok h, bind_ok h]
      rfl
  | error e => rw [bind_error h, bind_error (bind_error h)]

theorem read_bind (f : σ → α) (g : α → Effect σ ε β) (s : σ) :
    (read f >>= g) s = g (f s) s := rfl

/-- A result that does not depend on the state comes first. -/
theorem ofExcept_bind (r : Except ε α) (g : α → Effect σ ε β) (s : σ) :
    (ofExcept r >>= g) s =
      match r with
      | .ok a => g a s
      | .error e => (.error e, s) := by
  cases r with
  | ok a => rfl
  | error e => rfl

theorem orElse_ok {m m' : Effect σ ε α} {s s' : σ} {a : α} (h : m s = (.ok a, s')) :
    orElse m m' s = (.ok a, s') := by
  rw [orElse, h]

theorem orElse_error {m m' : Effect σ ε α} {s s' : σ} {e : ε} (h : m s = (.error e, s')) :
    orElse m m' s = m' s' := by
  rw [orElse, h]

/-! ## Triples -/

/-- How a run has ended. -/
def Ends (Q : α → σ → Prop) (E : σ → Prop) : Except ε α × σ → Prop
  | (.ok a, s) => Q a s
  | (.error _, s) => E s

/-- From a state with `P`, a run ends in `Q` or fails in `E`. -/
def Triple (P : σ → Prop) (m : Effect σ ε α) (Q : α → σ → Prop) (E : σ → Prop) : Prop :=
  ∀ s, P s → Ends Q E (m s)

namespace Triple

variable {P P' : σ → Prop} {Q Q' : α → σ → Prop} {E E' : σ → Prop} {m : Effect σ ε α}

theorem pure {a : α} (h : ∀ s, P s → Q a s) : Triple P (Pure.pure a : Effect σ ε α) Q E := h

theorem ofExcept {r : Except ε α} (hok : ∀ a s, r = .ok a → P s → Q a s)
    (herror : ∀ s, P s → E s) : Triple P (ofExcept r) Q E := by
  intro s hs
  cases r with
  | ok a => exact hok a s rfl hs
  | error e => exact herror s hs

theorem check {fault : Option ε} (herror : ∀ s, P s → E s) :
    Triple P (check fault) (fun _ => P) E := by
  intro s hs
  cases fault with
  | none => exact hs
  | some e => exact herror s hs

theorem read {f : σ → α} (h : ∀ s, P s → Q (f s) s) :
    Triple P (read f : Effect σ ε α) Q E := h

theorem modify {f : σ → σ} {Q : Unit → σ → Prop} (h : ∀ s, P s → Q () (f s)) :
    Triple P (modify f : Effect σ ε Unit) Q E := h

/-- A part of the precondition that does not depend on the state. -/
theorem pull {p : Prop} (h : p → Triple P m Q E) : Triple (fun s => P s ∧ p) m Q E :=
  fun s hs => h hs.2 s hs.1

theorem some_pre {ι : Type} {P : ι → σ → Prop} (h : ∀ i, Triple (P i) m Q E) :
    Triple (fun s => ∃ i, P i s) m Q E := by
  rintro s ⟨i, hs⟩
  exact h i s hs

theorem bind {f : α → Effect σ ε β} {R : α → σ → Prop} {Q : β → σ → Prop}
    (hm : Triple P m R E) (hf : ∀ a, Triple (R a) (f a) Q E) : Triple P (m >>= f) Q E := by
  intro s hs
  have hends := hm s hs
  show Ends Q E (match m s with
    | (.ok a, s') => f a s'
    | (.error e, s') => (.error e, s'))
  generalize m s = final at hends ⊢
  obtain ⟨r, s'⟩ := final
  cases r with
  | ok a => exact hf a s' hends
  | error e => exact hends

/-- The first two of three computations are taken together. -/
theorem assoc {γ : Type} {f : α → Effect σ ε β} {g : β → Effect σ ε γ} {Q : γ → σ → Prop}
    (h : Triple P ((m >>= f) >>= g) Q E) : Triple P (m >>= fun a => f a >>= g) Q E := by
  intro s hs
  have hends := h s hs
  rwa [Effect.bind_assoc] at hends

/-- A failure is followed by its cleanup, if it is caught. -/
theorem onError {caught : ε → Bool} {cleanup : Effect σ ε Unit} (hm : Triple P m Q E')
    (hcleanup : Triple E' cleanup (fun _ => E) E)
    (hleft : ∀ e s, caught e = false → E' s → E s) :
    Triple P (onError caught m cleanup) Q E := by
  intro s hs
  have hends := hm s hs
  unfold Effect.onError
  generalize m s = final at hends ⊢
  obtain ⟨r, s'⟩ := final
  cases r with
  | ok a => exact hends
  | error e =>
      show Ends Q E (if caught e = true then _ else _)
      split
      · have hclean := hcleanup s' hends
        generalize cleanup s' = final at hclean ⊢
        obtain ⟨r', s''⟩ := final
        cases r' with
        | ok _ => exact hclean
        | error e' => exact hclean
      · next hcaught => exact hleft e s' (Bool.eq_false_iff.mpr hcaught) hends

theorem orElseIf {caught : ε → Bool} {m' : Effect σ ε α} (hm : Triple P m Q E')
    (hm' : Triple E' m' Q E) (hleft : ∀ e s, caught e = false → E' s → E s) :
    Triple P (orElseIf caught m m') Q E := by
  intro s hs
  have hends := hm s hs
  unfold Effect.orElseIf
  generalize m s = final at hends ⊢
  obtain ⟨r, s'⟩ := final
  cases r with
  | ok a => exact hends
  | error e =>
      show Ends Q E (if caught e = true then _ else _)
      split
      · exact hm' s' hends
      · next hcaught => exact hleft e s' (Bool.eq_false_iff.mpr hcaught) hends

theorem conseq (h : Triple P m Q E) (hpre : ∀ s, P' s → P s) (hpost : ∀ a s, Q a s → Q' a s)
    (herror : ∀ s, E s → E' s) : Triple P' m Q' E' := by
  intro s hs
  have hends := h s (hpre s hs)
  generalize m s = final at hends ⊢
  obtain ⟨r, s'⟩ := final
  cases r with
  | ok a => exact hpost a s' hends
  | error e => exact herror s' hends

end Triple

/-! ## Before and after -/

/-- Whatever comes out of a run, it takes a state to one that is related to it. -/
def After (R : σ → σ → Prop) (m : Effect σ ε α) : Prop := ∀ s, R s (m s).2

namespace After

variable {R R' R'' : σ → σ → Prop} {m : Effect σ ε α}

theorem ofExcept {r : Except ε α} (h : ∀ s, R s s) : After R (Effect.ofExcept r) := h

theorem pure {a : α} (h : ∀ s, R s s) : After R (Pure.pure a : Effect σ ε α) := h

/-- One computation after another, of which the second may not be reached. -/
theorem bind {f : α → Effect σ ε β} (hm : After R m) (hf : ∀ a, After R' (f a))
    (hboth : ∀ s t u, R s t → R' t u → R'' s u) (hfirst : ∀ s t, R s t → R'' s t) :
    After R'' (m >>= f) := by
  intro s
  have hs := hm s
  show R'' s (match m s with
    | (.ok a, s') => f a s'
    | (.error e, s') => (.error e, s')).2
  generalize m s = final at hs ⊢
  obtain ⟨r, s'⟩ := final
  cases r with
  | ok a => exact hboth s s' _ hs (hf a s')
  | error e => exact hfirst s s' hs

theorem orElse {m' : Effect σ ε α} (hm : After R m) (hm' : After R m')
    (htrans : ∀ s t u, R s t → R t u → R s u) : After R (Effect.orElse m m') := by
  intro s
  have hs := hm s
  unfold Effect.orElse
  generalize m s = final at hs ⊢
  obtain ⟨r, s'⟩ := final
  cases r with
  | ok a => exact hs
  | error e => exact htrans s s' _ hs (hm' s')

end After

end Effect

end DnsRelay.Lib
