import DnsRelay.Relay.Merge

/-!
# The two candidates of a query

A query is hedged over the two resolvers that `candidates` gives.  The second
one is a fallback only if it has another address.

A merge leaves each address once, and sorting, filtering and cutting keep that.
The list that `build` makes from the configuration is not deduplicated: a
resolver that is configured twice is probed twice and stands in it twice.
`candidates_distinct_iff` says that this is the only way to get one address
twice, and that it ends with the first merge.
-/

namespace DnsRelay

open Lib

def probedAtStart (resolvers : List Str) (secureOnly : Bool) : List Str :=
  if secureOnly then resolvers.filter isSecureResolver else resolvers

def ResolverPicker.afterMerges (S : UnstableSort) (picker : ResolverPicker)
    (merges : List (List Resolver × Nat)) : ResolverPicker :=
  { picker with healthyResolvers := mergeAll S picker.healthyResolvers merges }

/-- Each address comes once. -/
def Distinct (rs : List Resolver) : Prop := (rs.map Resolver.addr).Nodup

/-! ## What keeps addresses distinct -/

section Distinct

variable {S : UnstableSort}

theorem Distinct.sublist {rs rs' : List Resolver} (h : Distinct rs) (hsub : rs'.Sublist rs) :
    Distinct rs' :=
  List.Nodup.sublist (hsub.map _) h

theorem Distinct.perm {rs rs' : List Resolver} (h : Distinct rs) (hperm : rs'.Perm rs) :
    Distinct rs' :=
  (hperm.map _).nodup_iff.mpr h

theorem ResolverPicker.candidates_distinct {picker : ResolverPicker}
    (h : Distinct picker.healthyResolvers) (preferDoh : Bool) :
    Distinct (picker.candidates S preferDoh) := by
  have heligible : Distinct (if picker.secureOnly then
      picker.healthyResolvers.filter fun r => isSecureResolver r.addr
      else picker.healthyResolvers) := by
    split
    · exact h.sublist List.filter_sublist
    · exact h
  refine Distinct.sublist ?_ (List.take_sublist 2 _)
  cases preferDoh with
  | true => exact heligible.perm (S.perm _ _)
  | false => exact heligible.perm (S.perm _ _)

theorem mergeAll_distinct {healthy : List Resolver} {merges : List (List Resolver × Nat)}
    (h : merges ≠ [] ∨ Distinct healthy) : Distinct (mergeAll S healthy merges) := by
  induction merges generalizing healthy with
  | nil => exact h.resolve_left fun hne => hne rfl
  | cons m merges ih => exact ih (.inr (merged S healthy m.1 m.2).nodup)

/-- A resolver that is listed once answers once. -/
theorem HealthChecks.healthy_distinct {checks : HealthChecks} {resolvers : List Str}
    (h : resolvers.Nodup) : Distinct (checks.healthy resolvers) := by
  obtain ⟨answered, hperm, hsub⟩ := checks.probed resolvers
  have hprobes : ((checks.probes resolvers).map Probe.resolver).Nodup :=
    hperm.nodup_iff.mp (h.sublist hsub)
  rw [HealthChecks.healthy]
  generalize checks.probes resolvers = probes at hprobes
  refine hprobes.sublist ?_
  induction probes with
  | nil => exact List.Sublist.refl _
  | cons probe probes ih =>
      have ih := ih (List.nodup_cons.mp hprobes).2
      cases hl : probe.latency with
      | none => simpa [Probe.healthy?, hl] using ih.cons probe.resolver
      | some latency => simpa [Probe.healthy?, hl] using ih

theorem ResolverPicker.build_eq (checks : HealthChecks) (resolvers : List Str)
    (secureOnly : Bool) : build S checks resolvers secureOnly =
      if (probedAtStart resolvers secureOnly).isEmpty && secureOnly then .ok ⟨[], secureOnly⟩
      else (testResolvers S checks (probedAtStart resolvers secureOnly)).map (⟨·, secureOnly⟩) :=
  rfl

/-- The list of a new picker holds what answered. -/
theorem ResolverPicker.build_healthy {checks : HealthChecks} {resolvers : List Str}
    {secureOnly : Bool} {picker : ResolverPicker}
    (h : build S checks resolvers secureOnly = .ok picker) :
    picker.healthyResolvers = [] ∨
      picker.healthyResolvers.Perm (checks.healthy (probedAtStart resolvers secureOnly)) := by
  rw [build_eq] at h
  split at h
  · cases h
    exact .inl rfl
  · rw [testResolvers] at h
    split at h
    · cases h
    · cases h
      exact .inr (S.perm _ _)

end Distinct

/-! ## A resolver that is configured twice -/

/-- Two probes of one resolver are answered at once, and no other probe is. -/
def answeredTwice (resolvers : List Str) (resolver : Str)
    (h : [resolver, resolver].Sublist resolvers) : HealthChecks where
  probes probed :=
    if probed = resolvers then [⟨resolver, some 0, 0⟩, ⟨resolver, some 0, 0⟩] else []
  probed probed := by
    split
    · next heq => exact heq ▸ h.subperm
    · exact List.nil_subperm

/-- The candidates are then the resolver and itself. -/
theorem answeredTwice_repeats (S : UnstableSort) {resolvers : List Str} {secureOnly : Bool}
    {resolver : Str} (h : [resolver, resolver].Sublist (probedAtStart resolvers secureOnly)) :
    ∃ picker, ResolverPicker.build S (answeredTwice _ resolver h) resolvers secureOnly =
        .ok picker ∧ ¬Distinct (picker.candidates S false) := by
  have hhealthy : (answeredTwice _ resolver h).healthy (probedAtStart resolvers secureOnly) =
      [⟨resolver, 0⟩, ⟨resolver, 0⟩] := by
    simp [HealthChecks.healthy, answeredTwice, Probe.healthy?]
  have hmem : resolver ∈ probedAtStart resolvers secureOnly := h.subset List.mem_cons_self
  -- both entries are equal, so any order of them is the same list
  have hsort : ∀ {l : List Resolver}, l.Perm [⟨resolver, 0⟩, ⟨resolver, 0⟩] →
      l = [⟨resolver, 0⟩, ⟨resolver, 0⟩] := fun hperm =>
    (List.perm_replicate (n := 2)).mp hperm
  have hbuild : ResolverPicker.build S (answeredTwice _ resolver h) resolvers secureOnly =
      .ok ⟨[⟨resolver, 0⟩, ⟨resolver, 0⟩], secureOnly⟩ := by
    have htest : testResolvers S (answeredTwice _ resolver h)
        (probedAtStart resolvers secureOnly) = .ok [⟨resolver, 0⟩, ⟨resolver, 0⟩] := by
      rw [testResolvers, hhealthy]
      exact congrArg Except.ok (hsort (S.perm _ _))
    have hne : (probedAtStart resolvers secureOnly).isEmpty = false :=
      List.isEmpty_eq_false_iff_exists_mem.mpr ⟨resolver, hmem⟩
    rw [ResolverPicker.build_eq, hne, htest]
    rfl
  refine ⟨_, hbuild, ?_⟩
  have hfilter : (if secureOnly then
      [(⟨resolver, 0⟩ : Resolver), ⟨resolver, 0⟩].filter fun r => isSecureResolver r.addr
      else [⟨resolver, 0⟩, ⟨resolver, 0⟩]) = [⟨resolver, 0⟩, ⟨resolver, 0⟩] := by
    cases secureOnly with
    | false => rfl
    | true =>
        have hsecure : isSecureResolver resolver = true := (List.mem_filter.mp hmem).2
        simp [hsecure]
  rw [ResolverPicker.candidates]
  simp only [hfilter, Bool.false_eq_true, if_false, hsort (S.perm _ _)]
  simp [Distinct]

/-- The candidates have two addresses, whatever the probes answer, exactly if
no resolver is configured twice or a merge has taken place. -/
theorem candidates_distinct_iff (S : UnstableSort) (resolvers : List Str) (secureOnly : Bool)
    (merges : List (List Resolver × Nat)) :
    (∀ (checks : HealthChecks) (picker : ResolverPicker),
        ResolverPicker.build S checks resolvers secureOnly = .ok picker → ∀ preferDoh,
        (((picker.afterMerges S merges).candidates S preferDoh).map Resolver.addr).Nodup) ↔
      merges ≠ [] ∨ (probedAtStart resolvers secureOnly).Nodup := by
  constructor
  · intro h
    by_contra hnot
    obtain ⟨hnil, hrepeat⟩ := not_or.mp hnot
    rw [ne_eq, not_not] at hnil
    rw [List.nodup_iff_sublist, not_forall] at hrepeat
    obtain ⟨resolver, hsub⟩ := hrepeat
    obtain ⟨picker, hbuild, htwice⟩ := answeredTwice_repeats S (not_not.mp hsub)
    subst hnil
    exact htwice (h _ picker hbuild false)
  · intro h checks picker hbuild preferDoh
    refine ResolverPicker.candidates_distinct (mergeAll_distinct (h.imp_right fun hnodup => ?_)) _
    rcases ResolverPicker.build_healthy hbuild with hnil | hperm
    · rw [hnil]
      exact List.nodup_nil
    · exact (HealthChecks.healthy_distinct hnodup).perm hperm

/-- One resolver is configured twice and answers both probes. -/
theorem candidates_repeated_resolver :
    ∃ (checks : HealthChecks) (picker : ResolverPicker),
      ResolverPicker.build .insertion checks ["9.9.9.9:53".toList, "9.9.9.9:53".toList] false =
        .ok picker ∧
      (picker.candidates .insertion false).map Resolver.addr =
        ["9.9.9.9:53".toList, "9.9.9.9:53".toList] :=
  ⟨answeredTwice _ "9.9.9.9:53".toList (List.Sublist.refl _), _, rfl, by decide⟩

end DnsRelay
