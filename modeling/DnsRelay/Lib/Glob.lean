import Mathlib.Data.List.Infix

/-!
# Glob patterns

A glob pattern is a list of characters in which one character stands for any
list.  `GlobMatches` is its language.  The lemmas say how a pattern is read
from the left: an ordinary character consumes itself, a literal front consumes
itself, and a star leaves a suffix of the value.

A matcher can scan from left to right and remember only the last star.  When
it gets stuck, it lets that star stand for one more character.
`GlobScan` is the invariant of such a scan, and its lemmas are the four moves
and the end.  An earlier star need not be revisited: what it could give up, the
later star can take.
-/

namespace DnsRelay.Lib

variable {α : Type}

/-- The values that a pattern stands for.  Every star stands for any list. -/
inductive GlobMatches (star : α) : List α → List α → Prop where
  | nil : GlobMatches star [] []
  | char {c : α} {pattern value : List α} :
      c ≠ star → GlobMatches star pattern value → GlobMatches star (c :: pattern) (c :: value)
  | star (skipped : List α) {pattern value : List α} :
      GlobMatches star pattern value → GlobMatches star (star :: pattern) (skipped ++ value)

namespace GlobMatches

variable {s c d : α} {pattern value literal : List α}

theorem char_cons (hc : c ≠ s) :
    GlobMatches s (c :: pattern) value ↔
      ∃ rest, value = c :: rest ∧ GlobMatches s pattern rest := by
  constructor
  · intro h
    cases h with
    | char _ h => exact ⟨_, rfl, h⟩
    | star skipped h => exact absurd rfl hc
  · rintro ⟨rest, rfl, h⟩
    exact .char hc h

theorem star_cons :
    GlobMatches s (s :: pattern) value ↔ ∃ rest, rest <:+ value ∧ GlobMatches s pattern rest := by
  constructor
  · intro h
    cases h with
    | char hc _ => exact absurd rfl hc
    | star skipped h => exact ⟨_, List.suffix_append skipped _, h⟩
  · rintro ⟨rest, ⟨skipped, rfl⟩, h⟩
    exact .star skipped h

theorem nil_pattern : GlobMatches s [] value ↔ value = [] := by
  constructor
  · intro h
    cases h
    rfl
  · rintro rfl
    exact .nil

/-- A literal front of the pattern is a front of the value. -/
theorem literal_append (hl : s ∉ literal) : GlobMatches s (literal ++ pattern) value ↔
    ∃ rest, value = literal ++ rest ∧ GlobMatches s pattern rest := by
  induction literal generalizing value with
  | nil => simp
  | cons c literal ih =>
      rw [List.mem_cons, not_or] at hl
      rw [List.cons_append, char_cons (Ne.symm hl.1)]
      constructor
      · rintro ⟨rest, rfl, h⟩
        obtain ⟨rest, rfl, hrest⟩ := (ih hl.2).mp h
        exact ⟨rest, rfl, hrest⟩
      · rintro ⟨rest, rfl, h⟩
        exact ⟨literal ++ rest, rfl, (ih hl.2).mpr ⟨rest, rfl, h⟩⟩

theorem nil_value : GlobMatches s pattern [] ↔ ∀ c ∈ pattern, c = s := by
  induction pattern with
  | nil => simp [nil_pattern]
  | cons c pattern ih =>
      by_cases hc : c = s
      · subst hc
        simp [star_cons, ih]
      · simp [char_cons hc, hc]

/-- A star stands for nothing, or for one more character. -/
theorem star_cons_cons : GlobMatches s (s :: pattern) (c :: value) ↔
    GlobMatches s pattern (c :: value) ∨ GlobMatches s (s :: pattern) value := by
  rw [star_cons, star_cons]
  constructor
  · rintro ⟨rest, hsuf, h⟩
    rcases List.suffix_cons_iff.mp hsuf with rfl | hsuf
    · exact .inl h
    · exact .inr ⟨rest, hsuf, h⟩
  · rintro (h | ⟨rest, hsuf, h⟩)
    · exact ⟨_, List.suffix_rfl, h⟩
    · exact ⟨rest, hsuf.trans (List.suffix_cons c value), h⟩

theorem star_cons_nil : GlobMatches s (s :: pattern) [] ↔ GlobMatches s pattern [] := by
  simp [star_cons]

/-- Two different ordinary characters do not match. -/
theorem not_of_ne (hc : c ≠ s) (hcd : c ≠ d) : ¬GlobMatches s (c :: pattern) (d :: value) := by
  rw [char_cons hc]
  rintro ⟨rest, heq, -⟩
  exact hcd (List.cons.inj heq).1.symm

end GlobMatches

/-! ## Scanning with one point of return -/

/-- The last star may still take one more character.  `back` holds the pattern
after that star and the value from where it now ends. -/
def MayReturn (star : α) (back : Option (List α × List α)) : Prop :=
  ∃ pattern c value, back = some (pattern, c :: value) ∧ GlobMatches star (star :: pattern) value

/-- The state of a scan that decides `goal`: the rest of the pattern, the rest
of the value and the point of return. -/
structure GlobScan (star : α) (goal : Prop) (pattern value : List α)
    (back : Option (List α × List α)) : Prop where
  /-- The goal is that the rests match, or that the scan succeeds from the
  point of return. -/
  goal_iff : goal ↔ GlobMatches star pattern value ∨ MayReturn star back
  /-- Since the point of return the scan has read the same literal in the
  pattern and in the value. -/
  literal : ∀ b ∈ back, ∃ lit, star ∉ lit ∧ b.1 = lit ++ pattern ∧ b.2 = lit ++ value

namespace GlobScan

variable {s c d : α} {goal : Prop} {pattern value : List α} {back : Option (List α × List α)}

theorem start (s : α) (pattern value : List α) :
    GlobScan s (GlobMatches s pattern value) pattern value none where
  goal_iff := by simp [MayReturn]
  literal := nofun

/-- An ordinary character of the pattern consumes itself. -/
theorem advance (h : GlobScan s goal (c :: pattern) (c :: value) back) (hc : c ≠ s) :
    GlobScan s goal pattern value back where
  goal_iff := by
    have hcons : GlobMatches s (c :: pattern) (c :: value) ↔ GlobMatches s pattern value := by
      simp [GlobMatches.char_cons hc]
    rw [h.goal_iff, hcons]
  literal b hb := by
    obtain ⟨lit, hlit, hp, hv⟩ := h.literal b hb
    refine ⟨lit ++ [c], ?_, by simp [hp], by simp [hv]⟩
    simp [hlit, Ne.symm hc]

/-- At a star, an earlier one need not be kept. -/
theorem commit (h : GlobScan s goal (s :: pattern) value back) (hback : MayReturn s back) :
    GlobMatches s (s :: pattern) value := by
  obtain ⟨ps, c, r, rfl, hmatch⟩ := hback
  obtain ⟨lit, hlit, hp, hv⟩ := h.literal _ rfl
  simp only at hp hv
  subst hp
  obtain ⟨rest, hrest, hfront⟩ := GlobMatches.star_cons.mp hmatch
  obtain ⟨rest, rfl, hstar⟩ := (GlobMatches.literal_append hlit).mp hfront
  obtain ⟨last, hlast, hmatch⟩ := GlobMatches.star_cons.mp hstar
  -- What the earlier star leaves is a suffix of the whole and shorter than the rest.
  refine GlobMatches.star_cons.mpr ⟨last, ?_, hmatch⟩
  have hwhole : last <:+ lit ++ value :=
    hv ▸ (hlast.trans (List.suffix_append lit rest)).trans (hrest.trans (List.suffix_cons c r))
  refine List.suffix_of_suffix_length_le hwhole (List.suffix_append lit value) ?_
  have h1 := hlast.length_le
  have h2 := hrest.length_le
  have h3 := congrArg List.length hv
  simp only [List.length_append, List.length_cons] at h2 h3
  omega

/-- A star becomes the point of return. -/
theorem mark (h : GlobScan s goal (s :: pattern) (c :: value) back) :
    GlobScan s goal pattern (c :: value) (some (pattern, c :: value)) where
  goal_iff := by
    have hgoal : goal ↔ GlobMatches s (s :: pattern) (c :: value) := by
      rw [h.goal_iff]
      exact ⟨fun hor => hor.elim id h.commit, .inl⟩
    rw [hgoal, GlobMatches.star_cons_cons]
    simp [MayReturn]
  literal b hb := by
    cases hb
    exact ⟨[], List.not_mem_nil, rfl, rfl⟩

/-- A scan that is stuck lets the last star take one more character. -/
theorem retry {back : List α × List α} (h : GlobScan s goal pattern (c :: value) (some back))
    (hstuck : ¬GlobMatches s pattern (c :: value)) :
    GlobScan s goal back.1 back.2.tail (some (back.1, back.2.tail)) where
  goal_iff := by
    obtain ⟨lit, -, -, hv⟩ := h.literal back rfl
    obtain ⟨d, r, hr⟩ : ∃ d r, back.2 = d :: r := List.exists_cons_of_ne_nil (by simp [hv])
    have hgoal : goal ↔ GlobMatches s (s :: back.1) r := by
      rw [h.goal_iff, or_iff_right hstuck]
      constructor
      · rintro ⟨ps, d', r', heq, hm⟩
        cases heq
        cases hr
        exact hm
      · intro hm
        exact ⟨back.1, d, r, by rw [← hr], hm⟩
    rw [hgoal, hr, List.tail_cons]
    cases r with
    | nil => simp [GlobMatches.star_cons_nil, MayReturn]
    | cons d r => simp [GlobMatches.star_cons_cons, MayReturn]
  literal b hb := by
    cases hb
    exact ⟨[], List.not_mem_nil, rfl, rfl⟩

theorem stuck (h : GlobScan s goal pattern value none) (hstuck : ¬GlobMatches s pattern value) :
    ¬goal := by
  rw [h.goal_iff]
  simp [hstuck, MayReturn]

/-- At the end of the value the rest of the pattern decides. -/
theorem finish (h : GlobScan s goal pattern [] back) : goal ↔ ∀ c ∈ pattern, c = s := by
  rw [h.goal_iff, GlobMatches.nil_value, or_iff_left]
  rintro ⟨ps, c, r, rfl, hmatch⟩
  obtain ⟨lit, hlit, hp, hv⟩ := h.literal _ rfl
  simp only [List.append_nil] at hp hv
  subst hp
  obtain ⟨rest, hrest, hmatch⟩ := GlobMatches.star_cons.mp hmatch
  obtain ⟨rest, rfl, -⟩ := (GlobMatches.literal_append hlit).mp hmatch
  have h1 := hrest.length_le
  have h2 := congrArg List.length hv
  simp only [List.length_append, List.length_cons] at h1 h2
  omega

end GlobScan

/-! ## Scanning a value that has stars

A scan that compares before it looks for a star reads a star of the value as
the star of the pattern, and does not come back to it. -/

/-- The values that such a scan finds.  A star stands for nothing, for itself,
or for a list that does not start with a star. -/
inductive TameMatches (star : α) : List α → List α → Prop where
  | nil : TameMatches star [] []
  | same (c : α) {pattern value : List α} :
      TameMatches star pattern value → TameMatches star (c :: pattern) (c :: value)
  | empty {pattern value : List α} :
      TameMatches star pattern value → TameMatches star (star :: pattern) value
  | skip {c : α} (skipped : List α) {pattern value : List α} :
      c ≠ star → TameMatches star pattern value →
        TameMatches star (star :: pattern) (c :: (skipped ++ value))

namespace TameMatches

variable {s : α} {pattern value : List α}

theorem glob (h : TameMatches s pattern value) : GlobMatches s pattern value := by
  induction h with
  | nil => exact .nil
  | same c _ ih =>
      by_cases hc : c = s
      · subst hc
        exact .star [c] ih
      · exact .char hc ih
  | empty _ ih => exact .star [] ih
  | @skip c skipped _ _ _ _ ih => exact .star (c :: skipped) ih

theorem refl (s : α) (value : List α) : TameMatches s value value := by
  induction value with
  | nil => exact .nil
  | cons c value ih => exact .same c ih

theorem append {pattern' value' : List α} (h : TameMatches s pattern value)
    (h' : TameMatches s pattern' value') :
    TameMatches s (pattern ++ pattern') (value ++ value') := by
  induction h with
  | nil => exact h'
  | same c _ ih => exact .same c ih
  | empty _ ih => exact .empty ih
  | skip skipped hc _ ih =>
      rw [List.cons_append, List.cons_append, List.append_assoc]
      exact .skip skipped hc ih

/-- The value splits where the pattern does. -/
theorem split {pattern' : List α} (h : TameMatches s (pattern ++ pattern') value) :
    ∃ v v', value = v ++ v' ∧ TameMatches s pattern v ∧ TameMatches s pattern' v' := by
  induction pattern generalizing value with
  | nil => exact ⟨[], value, rfl, .nil, h⟩
  | cons c pattern ih =>
      cases h with
      | same _ h =>
          obtain ⟨v, v', rfl, hv, hv'⟩ := ih h
          exact ⟨c :: v, v', rfl, .same c hv, hv'⟩
      | empty h =>
          obtain ⟨v, v', rfl, hv, hv'⟩ := ih h
          exact ⟨v, v', rfl, .empty hv, hv'⟩
      | @skip d skipped _ _ hd h =>
          obtain ⟨v, v', rfl, hv, hv'⟩ := ih h
          refine ⟨d :: (skipped ++ v), v', ?_, .skip skipped hd hv, hv'⟩
          rw [List.cons_append, List.append_assoc]

/-- Stars in front of a value that was found are not needed. -/
theorem drop_stars {stars : List α} (hstars : ∀ c ∈ stars, c = s)
    (h : TameMatches s pattern (stars ++ value)) :
    ∃ rest, rest <:+ value ∧ TameMatches s pattern rest := by
  generalize hv : stars ++ value = whole at h
  induction h generalizing stars with
  | nil =>
      obtain ⟨-, rfl⟩ := List.append_eq_nil_iff.mp hv
      exact ⟨[], List.suffix_rfl, .nil⟩
  | same c hrest ih =>
      cases stars with
      | nil =>
          cases hv
          exact ⟨_, List.suffix_rfl, .same c hrest⟩
      | cons d stars =>
          cases hv
          obtain ⟨rest, hsuf, htame⟩ := ih (fun x hx => hstars x (List.mem_cons_of_mem c hx)) rfl
          obtain rfl := hstars c List.mem_cons_self
          exact ⟨rest, hsuf, .empty htame⟩
  | empty _ ih =>
      obtain ⟨rest, hsuf, htame⟩ := ih hstars hv
      exact ⟨rest, hsuf, .empty htame⟩
  | @skip c skipped _ _ hc hrest ih =>
      cases stars with
      | nil =>
          cases hv
          exact ⟨_, List.suffix_rfl, .skip skipped hc hrest⟩
      | cons d stars =>
          obtain rfl := (List.cons.inj hv).1
          exact absurd (hstars d List.mem_cons_self) hc

theorem char_cons {c : α} (hc : c ≠ s) : TameMatches s (c :: pattern) value ↔
    ∃ rest, value = c :: rest ∧ TameMatches s pattern rest := by
  constructor
  · intro h
    cases h with
    | same _ h => exact ⟨_, rfl, h⟩
    | empty => exact absurd rfl hc
    | skip => exact absurd rfl hc
  · rintro ⟨rest, rfl, h⟩
    exact .same c h

/-- A star that meets a star takes it alone or leaves it. -/
theorem of_star_star (h : TameMatches s (s :: pattern) (s :: value)) :
    TameMatches s pattern value ∨ TameMatches s pattern (s :: value) := by
  generalize hv : s :: value = whole at h
  cases h with
  | same _ h =>
      cases hv
      exact .inl h
  | empty h => exact .inr h
  | skip _ hc _ => exact absurd (List.cons.inj hv).1.symm hc

/-- A common front with a mismatch behind it.  The stars of the front can only
stand for themselves. -/
theorem not_of_stuck (lit : List α) {d : α} (hstuck : ∀ c ∈ pattern.head?, c ≠ s ∧ c ≠ d) :
    ¬TameMatches s (lit ++ pattern) (lit ++ d :: value) := by
  -- a star of the front that stands for nothing leaves one more star to read
  have hmore : ∀ n, ¬TameMatches s (lit ++ pattern)
      (List.replicate n s ++ (lit ++ d :: value)) := by
    induction lit with
    | nil =>
        intro n h
        cases pattern with
        | nil =>
            have hnil := GlobMatches.nil_pattern.mp h.glob
            simp at hnil
        | cons c pattern =>
            obtain ⟨hs, hd⟩ := hstuck c rfl
            obtain ⟨rest, heq, -⟩ := (char_cons hs).mp h
            cases n with
            | zero => exact hd (List.cons.inj heq).1.symm
            | succ n => exact hs (List.cons.inj heq).1.symm
    | cons c lit ih =>
        intro n h
        by_cases hc : c = s
        · subst hc
          have hn : List.replicate n c ++ (c :: lit ++ d :: value) =
              c :: (List.replicate n c ++ (lit ++ d :: value)) := by
            rw [List.cons_append, List.append_cons, ← List.replicate_succ', List.replicate_succ,
              List.cons_append]
          rw [hn] at h
          rcases of_star_star h with h | h
          · exact ih n h
          · exact ih (n + 1) h
        · obtain ⟨rest, heq, h⟩ := (char_cons hc).mp h
          cases n with
          | zero =>
              obtain rfl := (List.cons.inj heq).2
              exact ih 0 h
          | succ n => exact hc (List.cons.inj heq).1.symm
  exact hmore 0

theorem stars (h : ∀ c ∈ pattern, c = s) : TameMatches s pattern [] := by
  induction pattern with
  | nil => exact .nil
  | cons c pattern ih =>
      obtain rfl := h c List.mem_cons_self
      exact .empty (ih fun d hd => h d (List.mem_cons_of_mem c hd))

/-- What a star leaves of a value. -/
theorem of_star_cons (h : TameMatches s (s :: pattern) value) :
    ∃ skipped rest, value = skipped ++ rest ∧ TameMatches s pattern rest := by
  cases h with
  | same _ h => exact ⟨[s], _, rfl, h⟩
  | empty h => exact ⟨[], value, rfl, h⟩
  | @skip c skipped _ rest _ h => exact ⟨c :: skipped, rest, rfl, h⟩

section Count

variable [DecidableEq α]

/-- Every character of the pattern but the stars is in the value. -/
theorem countP_le (h : TameMatches s pattern value) :
    pattern.countP (· ≠ s) ≤ value.countP (· ≠ s) := by
  induction h with
  | nil => exact Nat.le_refl 0
  | same c _ ih =>
      rw [List.countP_cons, List.countP_cons]
      exact Nat.add_le_add_right ih _
  | empty _ ih => simpa using ih
  | skip skipped _ _ ih =>
      rw [List.countP_cons_of_neg (by simp)]
      refine ih.trans (List.Sublist.countP_le ?_)
      exact (List.sublist_append_right skipped _).cons _

/-- A value that is no longer than a front of the pattern leaves stars only. -/
theorem finish {lit : List α} (h : TameMatches s (lit ++ pattern) value)
    (hvalue : value <:+ lit) : ∀ c ∈ pattern, c = s := by
  have hle := h.countP_le
  have hsub := hvalue.sublist.countP_le (p := (· ≠ s))
  rw [List.countP_append] at hle
  have hzero : pattern.countP (· ≠ s) = 0 := by omega
  simpa using List.countP_eq_zero.mp hzero

/-- At a star that meets another character, an earlier one need not be kept. -/
theorem commit {lit before rest : List α} (h : TameMatches s (lit ++ s :: pattern) rest)
    (hrest : before ++ rest = lit ++ value) :
    ∃ rest, rest <:+ value ∧ TameMatches s pattern rest := by
  obtain ⟨x, y, rfl, hx, hy⟩ := h.split
  obtain ⟨skipped, r, rfl, htame⟩ := of_star_cons hy
  rw [← List.append_assoc, ← List.append_assoc] at hrest
  rcases List.append_eq_append_iff.mp hrest with ⟨more, hlit, rfl⟩ | ⟨more, -, rfl⟩
  · -- the front uses all of its characters but stars, so stars are left
    refine htame.drop_stars fun c hc => ?_
    have hle := hx.countP_le
    rw [hlit] at hle
    simp only [List.countP_append] at hle
    have hzero : more.countP (· ≠ s) = 0 := by omega
    simpa using List.countP_eq_zero.mp hzero c hc
  · exact ⟨r, List.suffix_append more r, htame⟩

end Count

end TameMatches

/-- A suffix of the value is found, as behind a star. -/
def TameSuffix (star : α) (pattern value : List α) : Prop :=
  ∃ rest, rest <:+ value ∧ TameMatches star pattern rest

/-- The state of a scan that decides `goal`, as for `GlobScan`.  What it has read
is a common front of the pattern and the value. -/
inductive TameScan (star : α) (goal : Prop) (pattern value : List α) :
    Option (List α × List α) → Prop where
  | first (lit : List α) :
      (goal ↔ TameMatches star (lit ++ pattern) (lit ++ value)) →
        TameScan star goal pattern value none
  | behind (lit : List α) :
      (goal ↔ TameSuffix star (lit ++ pattern) (lit ++ value)) →
        TameScan star goal pattern value (some (lit ++ pattern, lit ++ value))

namespace TameScan

variable {s c d : α} {goal : Prop} {pattern value : List α} {back : Option (List α × List α)}

theorem start (s : α) (pattern value : List α) :
    TameScan s (TameMatches s pattern value) pattern value none :=
  .first [] Iff.rfl

/-- Equal characters consume each other, stars among them. -/
theorem advance (h : TameScan s goal (c :: pattern) (c :: value) back) :
    TameScan s goal pattern value back := by
  cases h with
  | first lit hgoal =>
      rw [List.append_cons lit c pattern, List.append_cons lit c value] at hgoal
      exact .first (lit ++ [c]) hgoal
  | behind lit hgoal =>
      rw [List.append_cons lit c pattern, List.append_cons lit c value] at hgoal ⊢
      exact .behind (lit ++ [c]) hgoal

/-- A star that meets another character takes any front of the value. -/
theorem suffix_iff (lit : List α) [DecidableEq α] (hd : d ≠ s) :
    TameSuffix s pattern (d :: value) ↔
      TameMatches s (lit ++ s :: pattern) (lit ++ d :: value) := by
  constructor
  · rintro ⟨rest, ⟨skipped, hskipped⟩, h⟩
    refine .append (.refl s lit) ?_
    cases skipped with
    | nil =>
        cases hskipped
        exact .empty h
    | cons c skipped =>
        cases hskipped
        exact .skip skipped hd h
  · intro h
    exact h.commit (List.nil_append _)

theorem mark [DecidableEq α] (h : TameScan s goal (s :: pattern) (d :: value) back)
    (hd : d ≠ s) : TameScan s goal pattern (d :: value) (some (pattern, d :: value)) := by
  refine .behind [] ?_
  cases h with
  | first lit hgoal => exact hgoal.trans (suffix_iff lit hd).symm
  | behind lit hgoal =>
      refine hgoal.trans ⟨?_, fun h => ⟨_, List.suffix_rfl, (suffix_iff lit hd).mp h⟩⟩
      rintro ⟨rest, ⟨before, hbefore⟩, h⟩
      exact h.commit hbefore

theorem eq_or_suffix_tail {rest whole : List α} (h : rest <:+ whole) :
    rest = whole ∨ rest <:+ whole.tail := by
  cases whole with
  | nil => exact .inr h
  | cons c whole => exact List.suffix_cons_iff.mp h

/-- A scan that is stuck lets the last star take one more character. -/
theorem retry {back : List α × List α} (h : TameScan s goal pattern (d :: value) (some back))
    (hstuck : ∀ c ∈ pattern.head?, c ≠ s ∧ c ≠ d) :
    TameScan s goal back.1 back.2.tail (some (back.1, back.2.tail)) := by
  cases h with
  | behind lit hgoal =>
      refine .behind [] (hgoal.trans ⟨?_, ?_⟩)
      · rintro ⟨rest, hrest, h⟩
        rcases eq_or_suffix_tail hrest with rfl | hrest
        · exact absurd h (TameMatches.not_of_stuck lit hstuck)
        · exact ⟨rest, hrest, h⟩
      · rintro ⟨rest, hrest, h⟩
        exact ⟨rest, hrest.trans (List.tail_suffix _), h⟩

theorem stuck (h : TameScan s goal pattern (d :: value) none)
    (hstuck : ∀ c ∈ pattern.head?, c ≠ s ∧ c ≠ d) : ¬goal := by
  cases h with
  | first lit hgoal =>
      rw [hgoal]
      exact TameMatches.not_of_stuck lit hstuck

/-- At the end of the value the rest of the pattern decides. -/
theorem finish [DecidableEq α] (h : TameScan s goal pattern [] back) :
    goal ↔ ∀ c ∈ pattern, c = s := by
  have hstars : ∀ lit, (∀ c ∈ pattern, c = s) → TameMatches s (lit ++ pattern) (lit ++ []) :=
    fun lit hall => .append (.refl s lit) (.stars hall)
  cases h with
  | first lit hgoal =>
      refine hgoal.trans ⟨fun h => h.finish ?_, hstars lit⟩
      rw [List.append_nil]
  | behind lit hgoal =>
      refine hgoal.trans ⟨?_, fun h => ⟨_, List.suffix_rfl, hstars lit h⟩⟩
      rintro ⟨rest, hrest, h⟩
      rw [List.append_nil] at hrest
      exact h.finish hrest

end TameScan

end DnsRelay.Lib
