import Mathlib.Data.Bool.AllAny
import DnsRelay.Shared.RuleList

/-!
# The policy of a domain

`listRules` is the list of all rules of a configuration, drops before
redirects, with files expanded and repeated entries kept.  The trie that
`build` makes represents it, and `lookup` in a trie finds what the rules that
it represents decide.  So the trie and the list agree.

The last section compares the two kinds of rules.  A drop rule that matches a
domain on its own does not always win against the redirects.
-/

namespace DnsRelay

open Lib

variable {U : CaseTable}

/-! ## Lookup -/

/-- Where the first of two decompositions stops is determined. -/
theorem first_unique {α : Type} {P : α → Prop} {l before after before' after' : List α} {a a' : α}
    (hl : l = before ++ a :: after) (ha : P a) (hbefore : ∀ x ∈ before, ¬P x)
    (hl' : l = before' ++ a' :: after') (ha' : P a') (hbefore' : ∀ x ∈ before', ¬P x) : a = a' := by
  classical
  have hfind : l.find? (fun x => decide (P x)) = some a :=
    List.find?_eq_some_iff_append.mpr
      ⟨decide_eq_true ha, before, after, hl, by simpa using hbefore⟩
  have hfind' : l.find? (fun x => decide (P x)) = some a' :=
    List.find?_eq_some_iff_append.mpr
      ⟨decide_eq_true ha', before', after', hl', by simpa using hbefore'⟩
  exact Option.some.inj (hfind.symm.trans hfind')

/-- A policy that is decided is that of a rule. -/
theorem Decides.exists_rule {globs : Str → Prop} {rules : List Rule} {domain : Str}
    {policy : DomainTriePolicy} (h : Decides U globs rules domain policy)
    (hpolicy : policy ≠ .none) : ∃ r ∈ rules, policy = r.policy := by
  cases h with
  | suffix hsplit => exact ⟨_, hsplit ▸ List.mem_append_right _ List.mem_cons_self, rfl⟩
  | glob hsplit => exact ⟨_, hsplit ▸ List.mem_append_right _ List.mem_cons_self, rfl⟩
  | none => exact absurd rfl hpolicy

/-- A list of rules decides at most one policy. -/
theorem Decides.unique {globs : Str → Prop} {rules : List Rule} {domain : Str}
    {policy policy' : DomainTriePolicy} (h : Decides U globs rules domain policy)
    (h' : Decides U globs rules domain policy') : policy = policy' := by
  cases h with
  | @suffix before after rule labels hsplit hcovers hshort hlast =>
      have hmem : rule ∈ rules := hsplit ▸ List.mem_append_right _ List.mem_cons_self
      cases h' with
      | @suffix before' after' rule' labels' hsplit' hcovers' hshort' hlast' =>
          -- Both have the same length and end the same labels.
          have hmem' : rule' ∈ rules := hsplit' ▸ List.mem_append_right _ List.mem_cons_self
          have hlen : labels.length = labels'.length :=
            Nat.le_antisymm (hshort rule' hmem' _ hcovers') (hshort' rule hmem _ hcovers)
          obtain rfl : labels = labels' :=
            (List.suffix_of_suffix_length_le hcovers.2 hcovers'.2 hlen.le).eq_of_length hlen
          have hrev : rules.reverse = after.reverse ++ rule :: before.reverse := by simp [hsplit]
          have hrev' : rules.reverse = after'.reverse ++ rule' :: before'.reverse := by
            simp [hsplit']
          have hrule : rule = rule' :=
            first_unique (P := fun r => SuffixRule U r.pattern labels) hrev hcovers.1
              (by simpa using hlast) hrev' hcovers'.1 (by simpa using hlast')
          rw [hrule]
      | glob _ huncovered => exact absurd hcovers (huncovered rule hmem labels)
      | none huncovered => exact absurd hcovers (huncovered rule hmem labels)
  | @glob before after rule hsplit huncovered hglob hmatched hfirst =>
      have hmem : rule ∈ rules := hsplit ▸ List.mem_append_right _ List.mem_cons_self
      cases h' with
      | @suffix before' after' rule' labels' hsplit' hcovers' =>
          have hmem' : rule' ∈ rules := hsplit' ▸ List.mem_append_right _ List.mem_cons_self
          exact absurd hcovers' (huncovered rule' hmem' labels')
      | @glob before' after' rule' hsplit' _ hglob' hmatched' hfirst' =>
          have hrule : rule = rule' :=
            first_unique (P := fun r => GlobRule U r.pattern ∧ globs r.pattern) hsplit
              ⟨hglob, hmatched⟩ (fun r hr hp => hfirst r hr hp.1 hp.2) hsplit' ⟨hglob', hmatched'⟩
              fun r hr hp => hfirst' r hr hp.1 hp.2
          rw [hrule]
      | none _ hunmatched => exact absurd hmatched (hunmatched rule hmem hglob)
  | none huncovered hunmatched =>
      cases h' with
      | @suffix before' after' rule' labels' hsplit' hcovers' =>
          have hmem' : rule' ∈ rules := hsplit' ▸ List.mem_append_right _ List.mem_cons_self
          exact absurd hcovers' (huncovered rule' hmem' labels')
      | @glob before' after' rule' hsplit' _ hglob' hmatched' =>
          have hmem' : rule' ∈ rules := hsplit' ▸ List.mem_append_right _ List.mem_cons_self
          exact absurd hmatched' (hunmatched rule' hmem' hglob')
      | none => rfl

/-- `label_glob_matches` on a pattern and a domain as they are stored and
looked up. -/
def Globs (U : CaseTable) (domain pattern : Str) : Prop :=
  labelGlobMatches (normalizeDomain U domain) (normalizeDomain U pattern) = true

theorem globHits_iff {domain : Str} {r : Rule} :
    globHits U (normalizeDomain U domain) r = true ↔
      GlobRule U r.pattern ∧ Globs U domain r.pattern := by
  rw [globHits, Bool.and_eq_true, Option.isNone_iff_eq_none, suffixLabels_eq_none, Globs]

/-- The labels of a rule have a policy. -/
theorem suffixPolicy_ne_none {rules : List Rule} (hpol : ∀ r ∈ rules, r.policy ≠ .none) {r : Rule}
    (hr : r ∈ rules) {labels : List Str} (hs : SuffixRule U r.pattern labels) :
    suffixPolicy U rules labels ≠ .none := by
  cases hf : rules.reverse.find? fun r => suffixLabels U r.pattern = some labels with
  | none =>
      have hno := List.find?_eq_none.mp hf r (List.mem_reverse.mpr hr)
      exact absurd (decide_eq_true (suffixLabels_eq_some.mpr hs)) hno
  | some r' =>
      rw [suffixPolicy, hf]
      exact hpol r' (List.mem_reverse.mp (List.mem_of_find?_eq_some hf))

/-- A policy of labels comes from the last rule with these labels. -/
theorem exists_of_suffixPolicy {rules : List Rule} {labels : List Str}
    (h : suffixPolicy U rules labels ≠ .none) :
    ∃ before rule after, rules = before ++ rule :: after ∧ SuffixRule U rule.pattern labels ∧
      rule.policy = suffixPolicy U rules labels ∧
      ∀ r ∈ after, ¬SuffixRule U r.pattern labels := by
  cases hf : rules.reverse.find? fun r => suffixLabels U r.pattern = some labels with
  | none =>
      rw [suffixPolicy, hf] at h
      exact absurd rfl h
  | some rule =>
      obtain ⟨hlabels, front, rest, hsplit, hfront⟩ := List.find?_eq_some_iff_append.mp hf
      refine ⟨rest.reverse, rule, front.reverse, ?_, ?_, ?_, fun r hr => ?_⟩
      · rw [← List.reverse_inj, hsplit]
        simp
      · exact suffixLabels_eq_some.mp (of_decide_eq_true hlabels)
      · rw [suffixPolicy, hf]
        rfl
      · have hno := hfront r (List.mem_reverse.mp hr)
        rw [← suffixLabels_eq_some]
        simpa using hno

theorem lookup_eq (trie : DomainTrie) (domain : Str) : trie.lookup U domain =
    if trie.root.firstSet .none (domainLabels U domain).reverse ≠ .none then
      trie.root.firstSet .none (domainLabels U domain).reverse
    else ((trie.labelGlobs.find? fun g => labelGlobMatches (normalizeDomain U domain) g.1).map
      Prod.snd).getD .none := by
  rw [DomainTrie.lookup, domainLabels]
  cases trie.labelGlobs.find? fun g => labelGlobMatches (normalizeDomain U domain) g.1 with
  | none => rfl
  | some g => rfl

/-- `lookup` finds what the rules decide. -/
theorem Represents.decides {trie : DomainTrie} {rules : List Rule} (h : Represents U trie rules)
    (hpol : ∀ r ∈ rules, r.policy ≠ .none) (domain : Str) :
    Decides U (Globs U domain) rules domain (trie.lookup U domain) := by
  by_cases hwalk : trie.root.firstSet .none (domainLabels U domain).reverse = .none
  · -- The walk finds nothing, so no rule covers the domain.
    have huncovered : ∀ r ∈ rules, ∀ ls, ¬Covers U domain r.pattern ls := by
      rintro r hr ls ⟨hs, hsuf⟩
      have hvalue := Trie.valueAt_of_firstSet hwalk (List.reverse_ne_nil_iff.mpr hs.ne_nil)
        (List.reverse_prefix.mpr hsuf)
      rw [h.path] at hvalue
      exact suffixPolicy_ne_none hpol hr hs hvalue
    rw [lookup_eq, if_neg (not_not.mpr hwalk), h.glob]
    cases hf : rules.find? (globHits U (normalizeDomain U domain)) with
    | none =>
        refine .none huncovered fun r hr hglob hmatch => ?_
        exact List.find?_eq_none.mp hf r hr (globHits_iff.mpr ⟨hglob, hmatch⟩)
    | some rule =>
        obtain ⟨hhit, before, after, hsplit, hbefore⟩ := List.find?_eq_some_iff_append.mp hf
        obtain ⟨hglob, hmatch⟩ := globHits_iff.mp hhit
        refine .glob hsplit huncovered hglob hmatch fun r hr hg hm => ?_
        have hno := hbefore r hr
        rw [globHits_iff.mpr ⟨hg, hm⟩] at hno
        cases hno
  · -- The walk stops at the labels of a shortest rule.
    obtain ⟨front, -, hpre, hvalue, hmin⟩ := Trie.firstSet_ne hwalk
    have hsuf : front.reverse <:+ domainLabels U domain := by
      rw [← List.reverse_prefix, List.reverse_reverse]
      exact hpre
    have hpath := h.path front.reverse
    rw [List.reverse_reverse, hvalue] at hpath
    obtain ⟨before, rule, after, hsplit, hs, hpolicy, hlast⟩ :=
      exists_of_suffixPolicy (hpath ▸ hwalk)
    rw [lookup_eq, if_pos hwalk, hpath, ← hpolicy]
    refine .suffix hsplit ⟨hs, hsuf⟩ (fun r hr ls hcov => ?_) hlast
    by_contra hlt
    have hdefault := hmin ls.reverse (List.reverse_ne_nil_iff.mpr hcov.1.ne_nil)
      (List.reverse_prefix.mpr hcov.2) (by simpa using Nat.lt_of_not_le hlt)
    rw [h.path] at hdefault
    exact suffixPolicy_ne_none hpol hr hcov.1 hdefault

/-! ## The rules of a configuration -/

section Rules

variable (files : Str → Option Str)

def dropPatterns (entry : Str) : List Str :=
  let pattern := trim entry
  if skipsEntry pattern then []
  else if isFileReference pattern then readListFile files pattern
  else [pattern]

def redirectLine (line : Str) : Option (Str × Str) :=
  match splitOnce ':' line with
  | some (source, target) =>
      if !(trim source).isEmpty && !(trim target).isEmpty then some (trim source, trim target)
      else none
  | none => none

def redirectPatterns (entry : Str × Str) : List (Str × Str) :=
  let pattern := trim entry.1
  if skipsEntry pattern then []
  else if isFileReference pattern then (readListFile files pattern).filterMap redirectLine
  else [(pattern, entry.2)]

def dropRule (pattern : Str) : Rule := ⟨pattern, .drop⟩

def redirectRule (entry : Str × Str) : Rule :=
  ⟨entry.1, .redirect (DomainTrie.redirectIps entry.2)⟩

/-- The drop rules, with files expanded and repeated entries kept. -/
def dropRules (dropList : List Str) : List Rule :=
  (dropList.flatMap (dropPatterns files)).map dropRule

def redirectRules (redirectList : List (Str × Str)) : List Rule :=
  (redirectList.flatMap (redirectPatterns files)).map redirectRule

def listRules (dropList : List Str) (redirectList : List (Str × Str)) : List Rule :=
  dropRules files dropList ++ redirectRules files redirectList

end Rules

def ofRules (U : CaseTable) (rules : List Rule) : DomainTrie :=
  rules.foldl (fun trie r => trie.insertWithPolicy U r.pattern r.policy) .new

theorem Represents.insertAll {trie : DomainTrie} {rules : List Rule}
    (h : Represents U trie rules) (added : List Rule) :
    Represents U (added.foldl (fun trie r => trie.insertWithPolicy U r.pattern r.policy) trie)
      (rules ++ added) := by
  induction added generalizing trie rules with
  | nil => simpa using h
  | cons r added ih => simpa using ih (h.insert r.pattern r.policy)

/-- The trie and the seen patterns after these drop patterns. -/
structure Dropped (U : CaseTable) (acc : DomainTrie × List Str) (patterns : List Str) : Prop where
  trie : Represents U acc.1 (patterns.map dropRule)
  seen : ∀ p, p ∈ acc.2 ↔ p ∈ patterns

theorem Dropped.dropOnce {acc : DomainTrie × List Str} {patterns : List Str}
    (h : Dropped U acc patterns) (pattern : Str) :
    Dropped U (DomainTrie.dropOnce U acc pattern) (patterns ++ [pattern]) := by
  rw [DomainTrie.dropOnce]
  by_cases hin : pattern ∈ acc.2
  · rw [if_pos hin]
    have hmem : dropRule pattern ∈ patterns.map dropRule :=
      List.mem_map_of_mem ((h.seen pattern).mp hin)
    refine ⟨?_, fun p => ?_⟩
    · rw [List.map_append]
      exact h.trie.repeat_drop (by simp [dropRule]) hmem
    · rw [h.seen, List.mem_append, List.mem_singleton]
      exact ⟨.inl, fun hor => hor.elim id fun heq => heq ▸ (h.seen pattern).mp hin⟩
  · rw [if_neg hin]
    refine ⟨?_, fun p => ?_⟩
    · rw [List.map_append]
      exact h.trie.insert pattern .drop
    · simp [h.seen, or_comm]

theorem Dropped.foldl {acc : DomainTrie × List Str} {patterns : List Str}
    (h : Dropped U acc patterns) (added : List Str) :
    Dropped U (added.foldl (DomainTrie.dropOnce U) acc) (patterns ++ added) := by
  induction added generalizing acc patterns with
  | nil => simpa using h
  | cons p added ih => simpa using ih (h.dropOnce p)

theorem addDropEntry_eq (files : Str → Option Str) (acc : DomainTrie × List Str) (entry : Str) :
    DomainTrie.addDropEntry U files acc entry =
      (dropPatterns files entry).foldl (DomainTrie.dropOnce U) acc := by
  simp only [DomainTrie.addDropEntry, dropPatterns]
  split
  · rfl
  · split
    · rfl
    · rfl

theorem addRedirectLine_eq (trie : DomainTrie) (line : Str) :
    DomainTrie.addRedirectLine U trie line =
      (redirectLine line).elim trie fun e => trie.insertRedirect U e.1 e.2 := by
  rw [DomainTrie.addRedirectLine, redirectLine]
  cases splitOnce ':' line with
  | none => rfl
  | some parts =>
      simp only
      split
      · rfl
      · rfl

theorem addRedirectEntry_eq (files : Str → Option Str) (trie : DomainTrie) (entry : Str × Str) :
    DomainTrie.addRedirectEntry U files trie entry =
      (redirectPatterns files entry).foldl (fun trie e => trie.insertRedirect U e.1 e.2) trie := by
  simp only [DomainTrie.addRedirectEntry, redirectPatterns]
  split
  · rfl
  · split
    · rw [List.foldl_filterMap]
      congr 1
      funext trie line
      rw [addRedirectLine_eq]
      cases redirectLine line with
      | none => rfl
      | some e => rfl
    · rfl

/-- The trie of a configuration represents all its rules. -/
theorem represents_build (U : CaseTable) (files : Str → Option Str) (dropList : List Str)
    (redirectList : List (Str × Str)) :
    Represents U (DomainTrie.build U files dropList redirectList)
      (listRules files dropList redirectList) := by
  have hdrops : Dropped U (dropList.foldl (DomainTrie.addDropEntry U files) (.new, []))
      (dropList.flatMap (dropPatterns files)) := by
    have hstart : Dropped U (.new, []) [] := ⟨.new U, fun p => Iff.rfl⟩
    have h := hstart.foldl (dropList.flatMap (dropPatterns files))
    rw [List.foldl_flatMap] at h
    simpa only [← addDropEntry_eq, List.nil_append] using h
  have h := hdrops.trie.insertAll (redirectRules files redirectList)
  rw [redirectRules, List.foldl_map, List.foldl_flatMap] at h
  have hentry : DomainTrie.addRedirectEntry U files = fun trie entry =>
      (redirectPatterns files entry).foldl (fun trie e => trie.insertRedirect U e.1 e.2) trie :=
    funext fun trie => funext fun entry => addRedirectEntry_eq files trie entry
  rw [DomainTrie.build, hentry]
  exact h

theorem represents_ofRules (U : CaseTable) (rules : List Rule) :
    Represents U (ofRules U rules) rules :=
  (Represents.new U).insertAll rules

theorem listRules_policy {files : Str → Option Str} {dropList : List Str}
    {redirectList : List (Str × Str)} : ∀ r ∈ listRules files dropList redirectList,
    r.policy ≠ .none := by
  intro r hr
  rcases List.mem_append.mp hr with hr | hr
  · obtain ⟨p, -, rfl⟩ := List.mem_map.mp hr
    nofun
  · obtain ⟨e, -, rfl⟩ := List.mem_map.mp hr
    nofun

theorem star_not_mem_normalize {domain : Str} (h : '*' ∉ domain) :
    '*' ∉ normalizeDomain U domain := fun hmem =>
  h (mem_of_mem_trimEndMatches (CaseTable.mem_toLowercase (by decide) (by decide) hmem))

/-- The trie of a configuration and the list of its rules agree on every domain
without a star, and so does the trie that keeps repeated drop entries. -/
theorem lookup_build_eq_list (U : CaseTable) (files : Str → Option Str) (dropList : List Str)
    (redirectList : List (Str × Str)) (domain : Str) (hstar : '*' ∉ domain) :
    (∀ policy, (DomainTrie.build U files dropList redirectList).lookup U domain = policy ↔
      Decides U (fun p => LabelsMatch (normalizeDomain U domain) (normalizeDomain U p))
        (listRules files dropList redirectList) domain policy) ∧
      (DomainTrie.build U files dropList redirectList).lookup U domain =
        (ofRules U (listRules files dropList redirectList)).lookup U domain := by
  have hglobs : (fun p => LabelsMatch (normalizeDomain U domain) (normalizeDomain U p)) =
      Globs U domain :=
    funext fun p => propext (labelGlobMatches_iff (star_not_mem_normalize hstar) _).symm
  have hbuild := (represents_build U files dropList redirectList).decides listRules_policy domain
  have hrules := (represents_ofRules U (listRules files dropList redirectList)).decides
    listRules_policy domain
  rw [hglobs]
  refine ⟨fun policy => ⟨?_, fun h => hbuild.unique h⟩, hbuild.unique hrules⟩
  rintro rfl
  exact hbuild

theorem lookup_build_eq_list_subdomain :
    '*' ∉ "x.ads.com".toList ∧
      (DomainTrie.build .ascii (fun _ => none) ["*.Ads.com".toList, "*.Ads.com".toList]
        [("t-*.net".toList, "10.0.0.1:53".toList)]).lookup .ascii "x.ads.com".toList = .drop ∧
      Decides .ascii (fun p => LabelsMatch (normalizeDomain .ascii "x.ads.com".toList)
        (normalizeDomain .ascii p))
        (listRules (fun _ => none) ["*.Ads.com".toList, "*.Ads.com".toList]
          [("t-*.net".toList, "10.0.0.1:53".toList)]) "x.ads.com".toList .drop := by
  have hlookup : (DomainTrie.build .ascii (fun _ => none) ["*.Ads.com".toList, "*.Ads.com".toList]
      [("t-*.net".toList, "10.0.0.1:53".toList)]).lookup .ascii "x.ads.com".toList = .drop := by
    decide
  exact ⟨by decide, hlookup, ((lookup_build_eq_list .ascii _ _ _ _ (by decide)).1 _).mp hlookup⟩

/-! ## Drops against redirects -/

/-- Some entry of the drop list matches the domain on its own. -/
def DropMatchesAlone (U : CaseTable) (files : Str → Option Str) (dropList : List Str)
    (domain : Str) : Prop :=
  ∃ entry ∈ dropList, (DomainTrie.build U files [entry] []).lookup U domain = .drop

/-- No redirect covers the domain, or a drop rule covers it with fewer labels
than every redirect that does. -/
def DropShorter (U : CaseTable) (files : Str → Option Str) (dropList : List Str)
    (redirectList : List (Str × Str)) (domain : Str) : Prop :=
  (∀ r ∈ redirectRules files redirectList, ∀ ls, ¬Covers U domain r.pattern ls) ∨
    ∃ d ∈ dropRules files dropList, ∃ labels, Covers U domain d.pattern labels ∧
      ∀ r ∈ redirectRules files redirectList, ∀ ls, Covers U domain r.pattern ls →
        labels.length < ls.length

section Precedence

variable {files : Str → Option Str} {dropList : List Str} {redirectList : List (Str × Str)}
  {domain : Str}

theorem dropRules_policy : ∀ r ∈ dropRules files dropList, r.policy = .drop := by
  intro r hr
  obtain ⟨p, -, rfl⟩ := List.mem_map.mp hr
  rfl

theorem redirectRules_policy : ∀ r ∈ redirectRules files redirectList, r.policy ≠ .drop := by
  intro r hr
  obtain ⟨e, -, rfl⟩ := List.mem_map.mp hr
  nofun

/-- Where a rule stands among the drops and the redirects. -/
theorem split_listRules {before after : List Rule} {rule : Rule}
    (h : listRules files dropList redirectList = before ++ rule :: after) :
    (rule ∈ dropRules files dropList ∧
        ∀ r ∈ redirectRules files redirectList, r ∈ after) ∨
      rule ∈ redirectRules files redirectList ∧ ∀ r ∈ dropRules files dropList, r ∈ before := by
  rcases List.append_eq_append_iff.mp h with ⟨mid, hbefore, hredirects⟩ | ⟨mid, hdrops, hrest⟩
  · refine .inr ⟨hredirects ▸ List.mem_append_right _ List.mem_cons_self, fun r hr => ?_⟩
    exact hbefore ▸ List.mem_append_left _ hr
  · cases mid with
    | nil =>
        rw [List.nil_append] at hrest
        rw [List.append_nil] at hdrops
        exact .inr ⟨hrest ▸ List.mem_cons_self, fun r hr => hdrops ▸ hr⟩
    | cons first mid =>
        obtain ⟨rfl, hafter⟩ := List.cons.inj hrest
        refine .inl ⟨hdrops ▸ List.mem_append_right _ List.mem_cons_self, fun r hr => ?_⟩
        exact hafter ▸ List.mem_append_right _ hr

/-- A drop entry that matches alone has a rule that covers the domain or a
pattern that matches it. -/
theorem DropMatchesAlone.exists_rule (h : DropMatchesAlone U files dropList domain) :
    ∃ d ∈ dropRules files dropList, (∃ ls, Covers U domain d.pattern ls) ∨
      GlobRule U d.pattern ∧ Globs U domain d.pattern := by
  obtain ⟨entry, hentry, hlookup⟩ := h
  have hsub : ∀ r ∈ listRules files [entry] [], r ∈ dropRules files dropList := by
    intro r hr
    have hr' : r ∈ dropRules files [entry] := by simpa [listRules, redirectRules] using hr
    obtain ⟨p, hp, rfl⟩ := List.mem_map.mp hr'
    refine List.mem_map_of_mem (List.mem_flatMap.mpr ⟨entry, hentry, ?_⟩)
    simpa using hp
  have hd := (represents_build U files [entry] []).decides listRules_policy domain
  rw [hlookup] at hd
  generalize hpol : DomainTriePolicy.drop = policy at hd
  cases hd with
  | @suffix before after rule labels hsplit hcovers =>
      exact ⟨rule, hsub rule (hsplit ▸ List.mem_append_right _ List.mem_cons_self),
        .inl ⟨labels, hcovers⟩⟩
  | @glob before after rule hsplit _ hglob hmatch =>
      exact ⟨rule, hsub rule (hsplit ▸ List.mem_append_right _ List.mem_cons_self),
        .inr ⟨hglob, hmatch⟩⟩
  | none => cases hpol

theorem dropShorter_of_lookup
    (h : (DomainTrie.build U files dropList redirectList).lookup U domain = .drop) :
    DropShorter U files dropList redirectList domain := by
  have hd := (represents_build U files dropList redirectList).decides listRules_policy domain
  rw [h] at hd
  generalize hpol : DomainTriePolicy.drop = policy at hd
  cases hd with
  | @suffix before after rule labels hsplit hcovers hshort hlast =>
      rcases split_listRules hsplit with ⟨hdrop, hafter⟩ | ⟨hredirect, -⟩
      · refine .inr ⟨rule, hdrop, labels, hcovers, fun r hr ls hcov => ?_⟩
        have hle := hshort r (List.mem_append_right _ hr) ls hcov
        refine Nat.lt_of_le_of_ne hle fun hlen => hlast r (hafter r hr) ?_
        -- A redirect with as many labels has the same labels, and comes later.
        obtain rfl : labels = ls :=
          (List.suffix_of_suffix_length_le hcovers.2 hcov.2 hle).eq_of_length hlen
        exact hcov.1
      · exact absurd hpol.symm (redirectRules_policy rule hredirect)
  | glob hsplit huncovered =>
      exact .inl fun r hr ls => huncovered r (List.mem_append_right _ hr) ls
  | none => cases hpol

theorem lookup_of_dropShorter (halone : DropMatchesAlone U files dropList domain)
    (h : DropShorter U files dropList redirectList domain) :
    (DomainTrie.build U files dropList redirectList).lookup U domain = .drop := by
  obtain ⟨d, hd, hmatch⟩ := halone.exists_rule
  have hdec := (represents_build U files dropList redirectList).decides listRules_policy domain
  generalize (DomainTrie.build U files dropList redirectList).lookup U domain = policy at hdec
  cases hdec with
  | @suffix before after rule labels hsplit hcovers hshort =>
      rcases split_listRules hsplit with ⟨hdrop, -⟩ | ⟨hredirect, -⟩
      · exact dropRules_policy rule hdrop
      · rcases h with hnone | ⟨d', hd', labels', hcovers', hlt⟩
        · exact absurd hcovers (hnone rule hredirect labels)
        · have hle := hshort d' (List.mem_append_left _ hd') labels' hcovers'
          exact absurd (hlt rule hredirect labels hcovers) (Nat.not_lt.mpr hle)
  | @glob before after rule hsplit huncovered _ _ hfirst =>
      rcases split_listRules hsplit with ⟨hdrop, -⟩ | ⟨-, hbefore⟩
      · exact dropRules_policy rule hdrop
      · rcases hmatch with ⟨ls, hcov⟩ | ⟨hglob, hglobs⟩
        · exact absurd hcov (huncovered d (List.mem_append_left _ hd) ls)
        · exact absurd hglobs (hfirst d (hbefore d hd) hglob)
  | none huncovered hunmatched =>
      rcases hmatch with ⟨ls, hcov⟩ | ⟨hglob, hglobs⟩
      · exact absurd hcov (huncovered d (List.mem_append_left _ hd) ls)
      · exact absurd hglobs (hunmatched d (List.mem_append_left _ hd) hglob)

end Precedence

/-- A domain that a drop entry matches on its own is dropped exactly when no
redirect covers it or a drop rule is shorter than every redirect that does. -/
theorem drop_wins_iff (U : CaseTable) (files : Str → Option Str) (dropList : List Str)
    (redirectList : List (Str × Str)) (domain : Str)
    (halone : DropMatchesAlone U files dropList domain) :
    (DomainTrie.build U files dropList redirectList).lookup U domain = .drop ↔
      DropShorter U files dropList redirectList domain :=
  ⟨dropShorter_of_lookup, lookup_of_dropShorter halone⟩

theorem drop_wins_iff_disjoint :
    DropMatchesAlone .ascii (fun _ => none) ["ads.com".toList] "x.ads.com".toList ∧
      ((DomainTrie.build .ascii (fun _ => none) ["ads.com".toList]
          [("example.com".toList, "1.2.3.4".toList)]).lookup .ascii "x.ads.com".toList = .drop ↔
        DropShorter .ascii (fun _ => none) ["ads.com".toList]
          [("example.com".toList, "1.2.3.4".toList)] "x.ads.com".toList) :=
  have halone : DropMatchesAlone .ascii (fun _ => none) ["ads.com".toList] "x.ads.com".toList :=
    ⟨_, List.mem_singleton_self _, by decide⟩
  ⟨halone, drop_wins_iff .ascii _ _ _ _ halone⟩

/-- A domain that is dropped on its own is redirected when a redirect covers
its parent. -/
theorem drop_rule_loses_to_shorter_redirect :
    (∀ U : CaseTable,
      DropMatchesAlone U (fun _ => none) ["ads.example.com".toList] "ads.example.com".toList) ∧
    ∀ U : CaseTable,
      (DomainTrie.build U (fun _ => none) ["ads.example.com".toList]
        [("example.com".toList, "1.2.3.4".toList)]).lookup U "ads.example.com".toList =
        .redirect ["1.2.3.4".toList] := by
  have hads : ∀ U, normalizeDomain U "ads.example.com".toList = "ads.example.com".toList := by
    intro U
    rw [normalizeDomain, CaseTable.toLowercase_ascii (List.all_iff_forall_prop.mp (by decide))]
    decide
  have hexample : ∀ U, normalizeDomain U "example.com".toList = "example.com".toList := by
    intro U
    rw [normalizeDomain, CaseTable.toLowercase_ascii (List.all_iff_forall_prop.mp (by decide))]
    decide
  have hlong : ∀ U, suffixLabels U "ads.example.com".toList =
      some ["ads".toList, "example".toList, "com".toList] := by
    intro U
    rw [suffixLabels, hads]
    decide
  have hshort : ∀ U, suffixLabels U "example.com".toList =
      some ["example".toList, "com".toList] := by
    intro U
    rw [suffixLabels, hexample]
    decide
  refine ⟨fun U => ⟨_, List.mem_singleton_self _, ?_⟩, fun U => ?_⟩
  · have hdrop : DomainTrie.build U (fun _ => none) ["ads.example.com".toList] [] =
        DomainTrie.new.insertWithPolicy U "ads.example.com".toList .drop := rfl
    rw [hdrop, insertWithPolicy_eq, hlong, DomainTrie.lookup, hads]
    decide
  · have hboth : DomainTrie.build U (fun _ => none) ["ads.example.com".toList]
        [("example.com".toList, "1.2.3.4".toList)] =
        (DomainTrie.new.insertWithPolicy U "ads.example.com".toList .drop).insertWithPolicy U
          "example.com".toList (.redirect ["1.2.3.4".toList]) := rfl
    rw [hboth, insertWithPolicy_eq, hshort, insertWithPolicy_eq, hlong, DomainTrie.lookup, hads,
      hexample]
    decide

end DnsRelay
