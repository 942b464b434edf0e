import DnsRelay.Relay.History
import DnsRelay.Shared.DomainTrie

/-!
# The filter of the history

A history may be limited to domains that match a pattern.  The filter takes the
star off the pattern, so that the dot of `*.s` stays with the suffix, and then
asks for a dot in front of the suffix.  It thus wants two dots where the
patterns of the rules want one.
-/

namespace DnsRelay

open Lib

/-- `matches_domain_pattern`. -/
def matchesDomainPattern (U : CaseTable) (domain pattern : Str) : Bool :=
  let domain := normalizeDomain U domain
  let pattern := normalizeDomain U pattern
  if domain = pattern then true
  else
    match stripPrefix pattern wildcard with
    | some suffix => decide (domain = suffix) || ('.' :: suffix).isSuffixOf domain
    | none => false

/-! ## Both matchers -/

/-- The test with an index is a suffix with one more character. -/
theorem suffix_behind_iff {c : Char} {suffix domain : Str} :
    (suffix.length < domain.length ∧ suffix <:+ domain ∧
      domain[domain.length - suffix.length - 1]? = some c) ↔ c :: suffix <:+ domain := by
  constructor
  · rintro ⟨hlt, ⟨front, rfl⟩, hget⟩
    have hfront : front ≠ [] := by
      rintro rfl
      simp at hlt
    rw [List.length_append, Nat.add_sub_cancel,
      List.getElem?_append_left (Nat.sub_one_lt (by simpa using hfront)),
      ← List.getLast?_eq_getElem?] at hget
    obtain ⟨before, rfl⟩ := List.getLast?_eq_some_iff.mp hget
    exact ⟨before, by simp⟩
  · rintro ⟨front, rfl⟩
    have hlen : (front ++ c :: suffix).length = front.length + 1 + suffix.length := by
      simp only [List.length_append, List.length_cons]
      omega
    refine ⟨by omega, ⟨front ++ [c], by simp⟩, ?_⟩
    rw [hlen, Nat.add_sub_cancel, Nat.add_sub_cancel]
    simp

theorem domainMatches_literal {pattern : Str} (h : '*' ∉ pattern) (domain : Str) :
    HistoryBuffer.domainMatches pattern domain = decide (domain = pattern) := by
  have hstrip : stripPrefix pattern ['*'] = none := by
    rw [stripPrefix, if_neg]
    rw [startsWith_iff]
    exact fun hpre => h (hpre.subset List.mem_cons_self)
  rw [HistoryBuffer.domainMatches, hstrip]

theorem domainMatches_wildcard (suffix domain : Str) :
    HistoryBuffer.domainMatches (wildcard ++ suffix) domain = true ↔
      domain = '.' :: suffix ∨ '.' :: '.' :: suffix <:+ domain := by
  have hstrip : stripPrefix (wildcard ++ suffix) ['*'] = some ('.' :: suffix) := rfl
  rw [HistoryBuffer.domainMatches, hstrip, ← suffix_behind_iff]
  simp [and_assoc]

section Matches

variable {U : CaseTable} {domain pattern suffix : Str}

theorem matchesDomainPattern_literal (hdomain : U.toLowercase domain = domain)
    (hpattern : normalizeDomain U pattern = pattern) (h : '*' ∉ pattern) :
    matchesDomainPattern U domain pattern = decide (trimEndMatches '.' domain = pattern) := by
  have htrim : normalizeDomain U domain = trimEndMatches '.' domain :=
    CaseTable.toLowercase_subset hdomain fun _ hc => mem_of_mem_trimEndMatches hc
  have hstrip : stripPrefix pattern wildcard = none := by
    rw [stripPrefix, if_neg]
    rw [startsWith_iff]
    exact fun hpre => h (hpre.subset List.mem_cons_self)
  rw [matchesDomainPattern, htrim, hpattern]
  simp [hstrip]

theorem matchesDomainPattern_wildcard (hdomain : U.toLowercase domain = domain)
    (hpattern : normalizeDomain U (wildcard ++ suffix) = wildcard ++ suffix) :
    matchesDomainPattern U domain (wildcard ++ suffix) = true ↔
      trimEndMatches '.' domain = suffix ∨ '.' :: suffix <:+ trimEndMatches '.' domain := by
  have htrim : normalizeDomain U domain = trimEndMatches '.' domain :=
    CaseTable.toLowercase_subset hdomain fun _ hc => mem_of_mem_trimEndMatches hc
  have hstrip : stripPrefix (wildcard ++ suffix) wildcard = some suffix := rfl
  rw [matchesDomainPattern, htrim, hpattern]
  simp only [hstrip]
  split
  · next heq =>
      rw [heq]
      exact iff_of_true rfl (.inr ⟨['*'], rfl⟩)
  · simp

end Matches

/-- A text that ends in something without a last dot has nothing to trim. -/
theorem trimEndMatches_of_suffix {suffix domain : Str} (hne : suffix ≠ [])
    (h : trimEndMatches '.' suffix = suffix) (hsuf : suffix <:+ domain) :
    trimEndMatches '.' domain = domain := by
  rw [trimEndMatches, List.rdropWhile_eq_self_iff] at h ⊢
  obtain ⟨front, rfl⟩ := hsuf
  intro hdomain
  rw [List.getLast_append_of_ne_nil _ hne]
  exact h hne

/-- The suffix of a pattern without a last dot has something, and no last dot. -/
theorem trimEndMatches_wildcard {suffix : Str}
    (h : trimEndMatches '.' (wildcard ++ suffix) = wildcard ++ suffix) :
    suffix ≠ [] ∧ trimEndMatches '.' suffix = suffix := by
  rw [trimEndMatches, List.rdropWhile_eq_self_iff] at h
  have hlast := h (List.append_ne_nil_of_left_ne_nil (by decide) _)
  have hne : suffix ≠ [] := by
    rintro rfl
    exact hlast (by decide)
  rw [List.getLast_append_of_ne_nil _ hne] at hlast
  rw [trimEndMatches, List.rdropWhile_eq_self_iff]
  exact ⟨hne, fun _ => hlast⟩

/-- What the filter takes is a name below the suffix.  It ends in the suffix, so no
dot is trimmed from it. -/
theorem below_of_filter {suffix domain : Str}
    (hdots : trimEndMatches '.' (wildcard ++ suffix) = wildcard ++ suffix)
    (h : domain = '.' :: suffix ∨ '.' :: '.' :: suffix <:+ domain) :
    '.' :: suffix <:+ trimEndMatches '.' domain := by
  have hbelow : '.' :: suffix <:+ domain := by
    cases h with
    | inl h => exact h ▸ List.suffix_refl _
    | inr h => exact (List.suffix_cons _ _).trans h
  obtain ⟨hne, hsuffix⟩ := trimEndMatches_wildcard hdots
  rw [trimEndMatches_of_suffix hne hsuffix ((List.suffix_cons _ _).trans hbelow)]
  exact hbelow

/-- Where one test accepts no more than another, they agree where the first one
accepts or the second one does not. -/
theorem agree_iff {p q : Prop} (h : p → q) : (p ↔ q) ↔ p ∨ ¬q := by
  constructor
  · intro hiff
    by_cases hp : p
    · exact .inl hp
    · exact .inr fun hq => hp (hiff.mpr hq)
  · rintro (hp | hq)
    · exact iff_of_true hp (h hp)
    · exact iff_of_false (fun hp => hq (h hp)) hq

/-- The filter of the history and the patterns of the rules agree on a lowercase
domain and pattern in these cases only.  The pattern has no star, and the domain
is the pattern, or is another name even without its last dots.  Or the pattern
has a star, and the domain is neither the suffix nor a name below it, or has a
second dot in front of the suffix. -/
theorem history_filter_agrees_iff {U : CaseTable} {domain pattern : Str}
    (hdomain : U.toLowercase domain = domain) (hpattern : U.toLowercase pattern = pattern)
    (hdots : trimEndMatches '.' pattern = pattern)
    (hform : '*' ∉ pattern ∨ isSuffixWildcard pattern = true) :
    let name := trimEndMatches '.' domain
    let suffix := pattern.drop 2
    HistoryBuffer.domainMatches pattern domain = matchesDomainPattern U domain pattern ↔
      ('*' ∉ pattern ∧ (domain = pattern ∨ name ≠ pattern)) ∨
      ('*' ∈ pattern ∧ ((name ≠ suffix ∧ ¬ '.' :: suffix <:+ name) ∨
        domain = '.' :: suffix ∨ '.' :: '.' :: suffix <:+ domain)) := by
  intro name suffix
  have hnormal : normalizeDomain U pattern = pattern := by
    rw [normalizeDomain, hdots, hpattern]
  by_cases hstar : '*' ∉ pattern
  · rw [domainMatches_literal hstar, matchesDomainPattern_literal hdomain hnormal hstar,
      decide_eq_decide, or_iff_left fun h => hstar h.1, and_iff_right hstar]
    refine agree_iff ?_
    rintro rfl
    exact hdots
  · have hwild := hform.resolve_left hstar
    rw [not_not] at hstar
    rw [isSuffixWildcard, Bool.and_eq_true, startsWith_iff] at hwild
    obtain ⟨⟨rest, rfl⟩, -⟩ := hwild
    have hsuffix : suffix = rest := rfl
    rw [Bool.eq_iff_iff, domainMatches_wildcard, matchesDomainPattern_wildcard hdomain hnormal,
      hsuffix]
    simp only [hstar, not_true_eq_false, false_and, false_or, true_and]
    rw [← not_or]
    exact (agree_iff fun h => Or.inr (below_of_filter hdots h)).trans or_comm

/-- Another name is left out by both. -/
theorem history_filter_agrees_on_other_name :
    HistoryBuffer.domainMatches "*.example.com".toList "example.org".toList =
      matchesDomainPattern .ascii "example.org".toList "*.example.com".toList :=
  (@history_filter_agrees_iff .ascii "example.org".toList "*.example.com".toList (by decide)
    (by decide) (by decide) (by decide)).mpr (by decide)

/-- The pattern of the configuration file and a name below its suffix.  The rules
take the name and the filter does not, so a history with this pattern does not
record it. -/
theorem history_filter_misses_subdomain :
    let U := CaseTable.ascii
    let pattern := "*.example.com".toList
    let domain := "a.example.com".toList
    U.toLowercase domain = domain ∧ U.toLowercase pattern = pattern ∧
      trimEndMatches '.' pattern = pattern ∧ isSuffixWildcard pattern = true ∧
      matchesDomainPattern U domain pattern = true ∧
      HistoryBuffer.domainMatches pattern domain = false ∧
      HistoryBuffer.Conf.pushMany ⟨100, [pattern]⟩ ⟨domain, ["10.0.0.1".toList]⟩ = .returned := by
  decide

end DnsRelay
