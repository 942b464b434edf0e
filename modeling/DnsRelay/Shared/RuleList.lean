import Mathlib.Data.List.Forall2
import DnsRelay.Shared.Wildcard

/-!
# What the rule trie means

The trie of `DomainTrie.build` is compared with the list of its rules.
`Decides` says what the list means for a domain: the shortest rule whose labels
end the domain's labels, of several such rules the last, and only without one
the first pattern that matches.

`Represents` ties a trie to a list of rules.  It holds of the empty trie, every
insertion keeps it, and repeating a drop rule in the list does not need an
insertion.
-/

namespace DnsRelay

open Lib

/-! ## The matcher and the glob language -/

theorem Stuck.not_matches {b : UInt8} {pattern rest : Bytes} (h : Stuck b pattern) :
    ¬GlobMatches starByte pattern (b :: rest) := by
  cases pattern with
  | nil =>
      rw [GlobMatches.nil_pattern]
      exact List.cons_ne_nil _ _
  | cons c pattern =>
      obtain ⟨hstar, hne⟩ := h c rfl
      exact GlobMatches.not_of_ne hstar hne

/-- On a value without stars the loop scans for the glob language. -/
theorem globScan_rules {value : Bytes} (hstar : starByte ∉ value) (goal : Prop) :
    ScanRules value goal (GlobScan starByte goal) where
  advance hmem h := h.advance fun heq => hstar (heq ▸ hmem)
  mark _ h := h.mark
  retry hstuck h := h.retry hstuck.not_matches
  stuck hstuck h := h.stuck hstuck.not_matches
  finish h := h.finish

theorem star_not_mem_utf8 {value : Str} (h : '*' ∉ value) : starByte ∉ utf8 value := by
  rw [utf8, List.mem_flatMap]
  rintro ⟨c, hc, hb⟩
  by_cases hascii : IsAscii c
  · rw [utf8EncodeChar_ascii hascii, List.mem_singleton] at hb
    have hn := congrArg UInt8.toNat hb
    have hlt : c.toNat < 128 := hascii
    rw [UInt8.toNat_ofNat', Nat.mod_eq_of_lt (by omega)] at hn
    have hc' : c = '*' := Char.toNat_inj.mp hn.symm
    exact h (hc' ▸ hc)
  · exact absurd (utf8EncodeChar_other hascii _ hb) (by decide)

/-- On a value without stars `wildcard_matches` decides the glob language. -/
theorem wildcardMatches_iff {value : Str} (h : '*' ∉ value) (pattern : Str) :
    wildcardMatches value pattern = true ↔ GlobMatches starByte (utf8 pattern) (utf8 value) :=
  (globScan_rules (star_not_mem_utf8 h) _).wildcardLoop_iff _
    (.start starByte (utf8 pattern) (utf8 value))

/-- The labels of a domain match those of a pattern one by one. -/
def LabelsMatch (domain pattern : Str) : Prop :=
  List.Forall₂ (fun label p => GlobMatches starByte (utf8 p) (utf8 label)) (domain.splitOn '.')
    (pattern.splitOn '.')

theorem labelGlobMatches_iff {domain : Str} (h : '*' ∉ domain) (pattern : Str) :
    labelGlobMatches domain pattern = true ↔ LabelsMatch domain pattern := by
  rw [labelGlobMatches, LabelsMatch, Bool.and_eq_true, beq_iff_eq, List.all_eq_true,
    List.forall₂_iff_zip]
  have hlabel : ∀ {label p}, (label, p) ∈ (domain.splitOn '.').zip (pattern.splitOn '.') →
      (wildcardMatches label p = true ↔ GlobMatches starByte (utf8 p) (utf8 label)) :=
    fun hmem => wildcardMatches_iff
      (fun hc => h (mem_of_mem_splitOn (List.of_mem_zip hmem).1 hc)) _
  refine and_congr_right fun _ => ⟨fun hall label p hmem => ?_, fun hall labels hmem => ?_⟩
  · exact (hlabel hmem).mp (hall (label, p) hmem)
  · exact (hlabel hmem).mpr (hall hmem)

/-! ## What a list of rules means -/

/-- A pattern and what to do with its domains. -/
structure Rule where
  pattern : Str
  policy : DomainTriePolicy

section Meaning

variable (U : CaseTable)

/-- The pattern has no star, or only a leading `*.`, and these are its
labels. -/
def SuffixRule (pattern : Str) (labels : List Str) : Prop :=
  ∃ body, '*' ∉ body ∧
    (normalizeDomain U pattern = body ∨ normalizeDomain U pattern = wildcard ++ body) ∧
    labels = body.splitOn '.'

/-- Any other pattern. -/
def GlobRule (pattern : Str) : Prop := ∀ labels, ¬SuffixRule U pattern labels

def domainLabels (domain : Str) : List Str := (normalizeDomain U domain).splitOn '.'

/-- The labels of the pattern end those of the domain. -/
def Covers (domain pattern : Str) (labels : List Str) : Prop :=
  SuffixRule U pattern labels ∧ labels <:+ domainLabels U domain

/-- What a list of rules decides for a domain.  `globs` says which patterns
match it. -/
inductive Decides (globs : Str → Prop) (rules : List Rule) (domain : Str) :
    DomainTriePolicy → Prop where
  /-- The shortest rule that covers the domain, and of several with the same
  labels the last. -/
  | suffix {before after : List Rule} {rule : Rule} {labels : List Str}
      (split : rules = before ++ rule :: after) (covers : Covers U domain rule.pattern labels)
      (shortest : ∀ r ∈ rules, ∀ ls, Covers U domain r.pattern ls → labels.length ≤ ls.length)
      (last : ∀ r ∈ after, ¬SuffixRule U r.pattern labels) :
      Decides globs rules domain rule.policy
  | glob {before after : List Rule} {rule : Rule}
      (split : rules = before ++ rule :: after)
      (uncovered : ∀ r ∈ rules, ∀ ls, ¬Covers U domain r.pattern ls)
      (isGlob : GlobRule U rule.pattern) (matched : globs rule.pattern)
      (first : ∀ r ∈ before, GlobRule U r.pattern → ¬globs r.pattern) :
      Decides globs rules domain rule.policy
  | none (uncovered : ∀ r ∈ rules, ∀ ls, ¬Covers U domain r.pattern ls)
      (unmatched : ∀ r ∈ rules, GlobRule U r.pattern → ¬globs r.pattern) :
      Decides globs rules domain .none

end Meaning

variable {U : CaseTable}

/-- The labels that `insert_with_policy` uses, unless it keeps the pattern. -/
def suffixLabels (U : CaseTable) (pattern : Str) : Option (List Str) :=
  let pattern := normalizeDomain U pattern
  if pattern.contains '*' && !isSuffixWildcard pattern then none
  else some (((stripPrefix pattern wildcard).getD pattern).splitOn '.')

theorem suffixLabels_eq_some {pattern : Str} {labels : List Str} :
    suffixLabels U pattern = some labels ↔ SuffixRule U pattern labels := by
  have hwild : ∀ body : Str, isSuffixWildcard (wildcard ++ body) = !body.contains '*' := by
    intro body
    rw [isSuffixWildcard, startsWith_iff.mpr (List.prefix_append wildcard body), Bool.true_and]
    rfl
  have hplain : ∀ body : Str, '*' ∉ body → stripPrefix body wildcard = none := fun body h => by
    refine stripPrefix_eq_none (Bool.eq_false_iff.mpr fun hpre => ?_)
    obtain ⟨rest, hrest⟩ := startsWith_iff.mp hpre
    exact h (hrest ▸ List.mem_cons_self)
  constructor
  · intro h
    simp only [suffixLabels] at h
    split at h
    · cases h
    next hkeep =>
      cases h
      by_cases hs : '*' ∈ normalizeDomain U pattern
      · have hw : isSuffixWildcard (normalizeDomain U pattern) = true := by simpa [hs] using hkeep
        have hpre : startsWith (normalizeDomain U pattern) wildcard = true := by
          rw [isSuffixWildcard, Bool.and_eq_true] at hw
          exact hw.1
        obtain ⟨body, hbody⟩ := startsWith_iff.mp hpre
        rw [← hbody, hwild] at hw
        refine ⟨body, by simpa using hw, .inr hbody.symm, ?_⟩
        rw [← hbody, stripPrefix_append, Option.getD_some]
      · exact ⟨_, hs, .inl rfl, by rw [hplain _ hs, Option.getD_none]⟩
  · rintro ⟨body, hbody, heq | heq, rfl⟩
    · simp [suffixLabels, heq, hbody, hplain body hbody]
    · have hw : isSuffixWildcard (wildcard ++ body) = true := by simp [hwild, hbody]
      simp only [suffixLabels, heq, hw, Bool.not_true, Bool.and_false, Bool.false_eq_true, if_false,
        stripPrefix_append, Option.getD_some]

theorem suffixLabels_eq_none {pattern : Str} :
    suffixLabels U pattern = none ↔ GlobRule U pattern := by
  simp only [GlobRule, ← suffixLabels_eq_some, Option.eq_none_iff_forall_ne_some, ne_eq]

theorem SuffixRule.ne_nil {pattern : Str} {labels : List Str} (h : SuffixRule U pattern labels) :
    labels ≠ [] := by
  obtain ⟨body, -, -, rfl⟩ := h
  exact List.splitOn_ne_nil '.' body

/-- `insert_with_policy` by the kind of the pattern. -/
theorem insertWithPolicy_eq (trie : DomainTrie) (pattern : Str) (policy : DomainTriePolicy) :
    trie.insertWithPolicy U pattern policy =
      match suffixLabels U pattern with
      | none => { trie with
          labelGlobs := trie.labelGlobs ++ [(normalizeDomain U pattern, policy)] }
      | some labels => { trie with root := trie.root.insert .none labels.reverse policy } := by
  simp only [DomainTrie.insertWithPolicy, suffixLabels]
  split
  · rfl
  · rfl

/-! ## Tries and the rules they represent -/

def suffixPolicy (U : CaseTable) (rules : List Rule) (labels : List Str) : DomainTriePolicy :=
  ((rules.reverse.find? fun r => suffixLabels U r.pattern = some labels).map Rule.policy).getD .none

/-- Whether a rule is a pattern that `label_glob_matches` accepts for a
domain. -/
def globHits (U : CaseTable) (domain : Str) (r : Rule) : Bool :=
  (suffixLabels U r.pattern).isNone && labelGlobMatches domain (normalizeDomain U r.pattern)

/-- The trie stands for the rules. -/
structure Represents (U : CaseTable) (trie : DomainTrie) (rules : List Rule) : Prop where
  path : ∀ labels, trie.root.valueAt .none labels.reverse = suffixPolicy U rules labels
  glob : ∀ domain, (trie.labelGlobs.find? fun g => labelGlobMatches domain g.1).map Prod.snd =
    (rules.find? (globHits U domain)).map Rule.policy

theorem suffixPolicy_append (rules : List Rule) (r : Rule) (labels : List Str) :
    suffixPolicy U (rules ++ [r]) labels =
      if suffixLabels U r.pattern = some labels then r.policy else suffixPolicy U rules labels := by
  rw [suffixPolicy, List.reverse_append, List.reverse_singleton, List.singleton_append,
    List.find?_cons]
  by_cases h : suffixLabels U r.pattern = some labels
  · simp [h]
  · simp [h, suffixPolicy]

namespace Represents

variable {trie : DomainTrie} {rules : List Rule}

theorem new (U : CaseTable) : Represents U .new [] where
  path labels := by rw [DomainTrie.new, Trie.valueAt_leaf]; rfl
  glob _ := rfl

theorem insert (h : Represents U trie rules) (pattern : Str) (policy : DomainTriePolicy) :
    Represents U (trie.insertWithPolicy U pattern policy) (rules ++ [⟨pattern, policy⟩]) := by
  rw [insertWithPolicy_eq]
  cases hl : suffixLabels U pattern with
  | none =>
      refine ⟨fun labels => ?_, fun domain => ?_⟩
      · rw [suffixPolicy_append, hl, if_neg nofun]
        exact h.path labels
      · simp only [List.find?_append, Option.map_or, h.glob domain]
        congr 1
        simp only [List.find?_singleton, globHits, hl, Option.isNone_none, Bool.true_and]
        cases labelGlobMatches domain (normalizeDomain U pattern) with
        | true => rfl
        | false => rfl
  | some labels =>
      refine ⟨fun labels' => ?_, fun domain => ?_⟩
      · rw [suffixPolicy_append, hl, Trie.valueAt_insert, ← h.path labels']
        simp only [List.reverse_inj, Option.some.injEq, eq_comm]
      · rw [h.glob domain, List.find?_append]
        simp [globHits, hl]

/-- A drop rule that is already there may be repeated, as long as there are
only drop rules. -/
theorem repeat_drop (h : Represents U trie rules) (hdrop : ∀ r ∈ rules, r.policy = .drop)
    {pattern : Str} (hmem : ⟨pattern, .drop⟩ ∈ rules) :
    Represents U trie (rules ++ [⟨pattern, .drop⟩]) where
  path labels := by
    rw [h.path, suffixPolicy_append]
    split
    next hl =>
        -- The list has a rule with these labels, and the one it finds is a drop.
        cases hf : rules.reverse.find? fun r => suffixLabels U r.pattern = some labels with
        | none =>
            have hno := List.find?_eq_none.mp hf ⟨pattern, .drop⟩ (List.mem_reverse.mpr hmem)
            exact absurd (decide_eq_true hl) hno
        | some r =>
            have hr := hdrop r (List.mem_reverse.mp (List.mem_of_find?_eq_some hf))
            rw [suffixPolicy, hf]
            exact hr
    next => rfl
  glob domain := by
    rw [h.glob, List.find?_append]
    cases hf : rules.find? (globHits U domain) with
    | some r => rfl
    | none =>
        have hno := List.find?_eq_none.mp hf _ hmem
        simp [hno]

end Represents

end DnsRelay
