import DnsRelay.Shared.DomainTrie

/-!
# What the matcher of patterns decides

`wildcard_matches` compares before it looks for a star.  So a star of the
pattern that meets a star byte of the value stands for that byte alone, and the
loop does not come back to it.  `wildcardLoop_iff_tame` says which values are
found: those in which no star has to stand for a longer string that starts with
a star byte.
-/

namespace DnsRelay

open Lib

theorem WildcardState.start_star_lt : ∀ star ∈ (none : Option Nat), star < 0 := by simp

theorem WildcardState.start_restart_le : 0 ≤ 0 := Nat.le_refl 0

def WildcardState.start : WildcardState where
  valueIndex := 0
  patternIndex := 0
  starIndex := none
  restartValue := 0
  star_lt := start_star_lt
  restart_le := start_restart_le

theorem wildcardMatches_eq (value pattern : Str) :
    wildcardMatches value pattern = wildcardLoop (utf8 value) (utf8 pattern) .start := rfl

/-- A byte of the value stops the scan at a pattern. -/
def Stuck (b : UInt8) (pattern : Bytes) : Prop := ∀ c ∈ pattern.head?, c ≠ starByte ∧ c ≠ b

/-- Neither of the first two branches of the loop applies. -/
theorem stuck_of_not {value pattern : Bytes} {i j : Nat}
    (hp : ¬(i < pattern.length ∧ byteAt pattern i = byteAt value j))
    (hs : ¬(i < pattern.length ∧ byteAt pattern i = starByte)) :
    Stuck (byteAt value j) (pattern.drop i) := by
  intro c hc
  by_cases hi : i < pattern.length
  · rw [drop_eq_byteAt_cons hi] at hc
    cases hc
    exact ⟨fun h => hs ⟨hi, h⟩, fun h => hp ⟨hi, h⟩⟩
  · rw [List.drop_eq_nil_of_le (Nat.le_of_not_lt hi)] at hc
    cases hc

/-- What decides a goal along the loop: a relation between the rests of the
pattern and of the value and the point of return, with a rule for each branch. -/
structure ScanRules (value : Bytes) (goal : Prop)
    (Scan : Bytes → Bytes → Option (Bytes × Bytes) → Prop) : Prop where
  advance : ∀ {b : UInt8} {p v : Bytes} {back : Option (Bytes × Bytes)}, b ∈ value →
    Scan (b :: p) (b :: v) back → Scan p v back
  mark : ∀ {b : UInt8} {p v : Bytes} {back : Option (Bytes × Bytes)}, b ≠ starByte →
    Scan (starByte :: p) (b :: v) back → Scan p (b :: v) (some (p, b :: v))
  retry : ∀ {b : UInt8} {p v : Bytes} {back : Bytes × Bytes}, Stuck b p →
    Scan p (b :: v) (some back) → Scan back.1 back.2.tail (some (back.1, back.2.tail))
  stuck : ∀ {b : UInt8} {p v : Bytes}, Stuck b p → Scan p (b :: v) none → ¬goal
  finish : ∀ {p : Bytes} {back : Option (Bytes × Bytes)}, Scan p [] back →
    (goal ↔ ∀ c ∈ p, c = starByte)

/-- The loop decides what its variables stand for.  Cases follow its
branches. -/
theorem ScanRules.wildcardLoop_iff {value pattern : Bytes} {goal : Prop}
    {Scan : Bytes → Bytes → Option (Bytes × Bytes) → Prop} (rules : ScanRules value goal Scan)
    (st : WildcardState)
    (h : Scan (pattern.drop st.patternIndex) (value.drop st.valueIndex)
      (st.starIndex.map fun star => (pattern.drop (star + 1), value.drop st.restartValue))) :
    wildcardLoop value pattern st = true ↔ goal := by
  fun_induction wildcardLoop value pattern st with
  | case1 st hv hp ih =>
      refine ih ?_
      rw [drop_eq_byteAt_cons hp.1, drop_eq_byteAt_cons hv, hp.2] at h
      exact rules.advance (byteAt_mem hv) h
  | case2 st hv hp hs ih =>
      refine ih ?_
      have hne : byteAt value st.valueIndex ≠ starByte :=
        fun heq => hp ⟨hs.1, hs.2.trans heq.symm⟩
      rw [drop_eq_byteAt_cons hs.1, drop_eq_byteAt_cons hv, hs.2] at h
      have hmark := rules.mark hne h
      rwa [← drop_eq_byteAt_cons hv] at hmark
  | case3 st hv hp hs star hsome ih =>
      refine ih ?_
      rw [drop_eq_byteAt_cons hv, hsome] at h
      have hretry := rules.retry (stuck_of_not hp hs) h
      rwa [List.tail_drop] at hretry
  | case4 st hv hp hs hnone =>
      rw [drop_eq_byteAt_cons hv, hnone] at h
      exact iff_of_false Bool.false_ne_true (rules.stuck (stuck_of_not hp hs) h)
  | case5 st hv =>
      rw [List.drop_eq_nil_of_le (Nat.le_of_not_lt hv)] at h
      rw [rules.finish h]
      simp

theorem tameScan_rules (value : Bytes) (goal : Prop) :
    ScanRules value goal (TameScan starByte goal) where
  advance _ h := h.advance
  mark hne h := h.mark hne
  retry hstuck h := h.retry hstuck
  stuck hstuck h := h.stuck hstuck
  finish h := h.finish

theorem wildcardLoop_iff_tame (value pattern : Bytes) :
    wildcardLoop value pattern .start = true ↔ TameMatches starByte pattern value :=
  (tameScan_rules value _).wildcardLoop_iff .start (.start starByte pattern value)

/-- A value whose only star is its last byte. -/
theorem TameMatches.of_glob {value pattern : Bytes} (hvalue : starByte ∉ value.dropLast)
    (h : GlobMatches starByte pattern value) : TameMatches starByte pattern value := by
  induction h with
  | nil => exact .nil
  | @char c pattern value hc _ ih =>
      refine .same c (ih fun hmem => hvalue ?_)
      cases value with
      | nil => cases hmem
      | cons d value => exact List.mem_cons_of_mem c hmem
  | @star skipped pattern value _ ih =>
      have htail : starByte ∉ value.dropLast := by
        intro hmem
        cases value with
        | nil => cases hmem
        | cons d value =>
            rw [List.dropLast_append_of_ne_nil (List.cons_ne_nil d value)] at hvalue
            exact hvalue (List.mem_append_right skipped hmem)
      have htame := ih htail
      cases skipped with
      | nil => exact .empty htame
      | cons c skipped =>
          by_cases hc : c = starByte
          · -- a star in front is the whole value
            cases hrest : skipped ++ value with
            | nil =>
                obtain ⟨rfl, rfl⟩ := List.append_eq_nil_iff.mp hrest
                rw [hc]
                exact .same starByte htame
            | cons d rest =>
                rw [List.cons_append, hrest, hc] at hvalue
                exact absurd List.mem_cons_self hvalue
          · exact .skip skipped hc htame

/-- A star of the value with something behind it defeats the pattern that ends
with it. -/
theorem not_tame_of_star {front rest : Bytes} (hrest : rest ≠ []) :
    GlobMatches starByte (front ++ [starByte]) (front ++ starByte :: rest) ∧
      ¬TameMatches starByte (front ++ [starByte]) (front ++ starByte :: rest) := by
  constructor
  · have hglob : ∀ value, GlobMatches starByte [starByte] value := by
      intro value
      have hstar : GlobMatches starByte [starByte] (value ++ []) := .star value .nil
      rwa [List.append_nil] at hstar
    induction front with
    | nil => exact hglob _
    | cons c front ih =>
        by_cases hc : c = starByte
        · subst hc
          exact .star [starByte] ih
        · exact .char hc ih
  · obtain ⟨d, rest, rfl⟩ := List.exists_cons_of_ne_nil hrest
    have hstuck := @TameMatches.not_of_stuck _ starByte [] rest (front ++ [starByte]) d
      (fun c hc => by cases hc)
    rw [List.append_nil, ← List.append_cons] at hstuck
    exact hstuck

/-- `wildcard_matches` decides the glob language on a value and a pattern
exactly when the value, if it matches, does so with no star standing for a
longer string that starts with a star byte.  It does so for a value and every
pattern exactly when the value has no star byte but for its last. -/
theorem wildcard_matches_decides_iff (value : Bytes) :
    (∀ pattern, (wildcardLoop value pattern .start = true ↔ GlobMatches starByte pattern value) ↔
      (GlobMatches starByte pattern value → TameMatches starByte pattern value)) ∧
    ((∀ pattern, wildcardLoop value pattern .start = true ↔
      GlobMatches starByte pattern value) ↔ starByte ∉ value.dropLast) := by
  have hpair : ∀ pattern, (wildcardLoop value pattern .start = true ↔
      GlobMatches starByte pattern value) ↔
      (GlobMatches starByte pattern value → TameMatches starByte pattern value) := by
    intro pattern
    rw [wildcardLoop_iff_tame]
    exact ⟨fun h => h.mpr, fun h => ⟨TameMatches.glob, h⟩⟩
  refine ⟨hpair, fun hall hmem => ?_, fun hvalue pattern => ?_⟩
  · obtain ⟨front, rest, hsplit⟩ := List.append_of_mem hmem
    have hvalue : ∃ rest', rest' ≠ [] ∧ value = front ++ starByte :: rest' := by
      have hne : value ≠ [] := by
        rintro rfl
        cases hmem
      have hlast := List.dropLast_append_getLast hne
      rw [hsplit, List.append_assoc] at hlast
      exact ⟨rest ++ [value.getLast hne], by simp, hlast.symm⟩
    obtain ⟨rest', hrest', rfl⟩ := hvalue
    obtain ⟨hglob, htame⟩ := @not_tame_of_star front rest' hrest'
    exact htame ((hpair _).mp (hall _) hglob)
  · exact (hpair pattern).mpr (TameMatches.of_glob hvalue)

/-- The pattern `*` does not match the value `*a`. -/
theorem star_misses_star_value :
    wildcardMatches "*a".toList "*".toList = false ∧
      GlobMatches starByte (utf8 "*".toList) (utf8 "*a".toList) := by
  obtain ⟨hglob, htame⟩ := @not_tame_of_star [] [97] (by decide)
  refine ⟨?_, hglob⟩
  rw [wildcardMatches_eq, Bool.eq_false_iff, ne_eq, wildcardLoop_iff_tame]
  exact htame

end DnsRelay
