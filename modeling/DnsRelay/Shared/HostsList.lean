import DnsRelay.Lib.Words
import DnsRelay.Shared.RulePolicy

/-!
# Hosts files as block lists

A line of a hosts file has an address and after it any number of host names.
`parse_blocklist_line` takes one name from a line, the word behind the address.
The other names are read by nobody.  A comment that follows the first name
without a space is part of the word and spoils it.

A name that was taken blocks itself and everything below it, since a list has
drop rules only (`lookup_file_drop`).  So a name that was not taken is blocked
only by another name above it (`hosts_blocked_iff`).
-/

namespace DnsRelay

open Lib

/-! ## Lines -/

/-- The line has an address and then these host names, up to a comment. -/
def HostsLine (rawLine : Str) (hosts : List Str) : Prop :=
  ∃ address, splitWhitespace (rawLine.takeWhile (· ≠ '#')) = address :: hosts ∧
    (parseIpAddr address).isSome = true ∧ hosts ≠ []

def blockedName (word : Str) : Option Str :=
  let name := trimEndMatches '.' word
  let name := (stripPrefix name wildcard).getD name
  if isDnsName name then some (toAsciiLowercase name) else none

def firstHost (rawLine : Str) : Option Str := (splitWhitespace rawLine)[1]?.bind blockedName

section Lines

variable {rawLine : Str} {hosts : List Str}

/-- The other formats start in a way that no address does. -/
theorem not_startsWith {line address start : Str} {rest : List Str}
    (hwords : splitWhitespace line = address :: rest) (haddr : (parseIpAddr address).isSome = true)
    (hstart : Word start) (hother : ∃ c ∈ start, ¬AddrChar c) : startsWith line start = false := by
  rw [Bool.eq_false_iff, ne_eq, startsWith_iff]
  rintro ⟨tail, rfl⟩
  obtain ⟨more, rest', hfirst⟩ := first_word_of_start hstart tail
  rw [hwords] at hfirst
  obtain ⟨rfl, -⟩ := List.cons.inj hfirst
  obtain ⟨c, hc, hnot⟩ := hother
  exact hnot (parseIpAddr_chars haddr c (List.mem_append_left _ hc))

/-- A line with an address gives the name of the word behind it. -/
theorem parseBlocklistLine_hosts (h : HostsLine rawLine hosts) :
    parseBlocklistLine rawLine = firstHost rawLine := by
  obtain ⟨address, hbody, haddr, hne⟩ := h
  obtain ⟨host, others, rfl⟩ := List.exists_cons_of_ne_nil hne
  obtain ⟨rest, hwords⟩ := first_word_append hbody (rawLine.dropWhile (· ≠ '#'))
  rw [List.takeWhile_append_dropWhile] at hwords
  have hline : splitWhitespace (trim rawLine) = address :: rest :=
    (splitWhitespace_trim rawLine).trans hwords
  have hstart : ∀ {start : Str} (c : Char), start ≠ [] →
      start.all (fun c => !isWhitespace c) = true → c ∈ start → ¬AddrChar c →
      startsWith (trim rawLine) start = false := fun c hne hall hmem hother =>
    not_startsWith hline haddr (word_of_all hne hall) ⟨c, hmem, hother⟩
  have hhash : startsWith (trim rawLine) ['#'] = false :=
    hstart '#' (by decide) (by decide) (by decide) (by decide)
  have hmark : startsWith (trim rawLine) ['!'] = false :=
    hstart '!' (by decide) (by decide) (by decide) (by decide)
  have hempty : (trim rawLine).isEmpty = false := by
    rw [List.isEmpty_eq_false_iff]
    intro hnil
    rw [hnil] at hline
    cases hline
  have hcandidate : blocklistCandidate (trim rawLine) = rest.head? := by
    rw [blocklistCandidate,
      stripPrefix_eq_none (hstart '|' (by decide) (by decide) (by decide) (by decide)),
      stripPrefix_eq_none (hstart 'r' (by decide) (by decide) (by decide) (by decide)),
      stripPrefix_eq_none (hstart 'l' (by decide) (by decide) (by decide) (by decide)),
      hstart 's' (by decide) (by decide) (by decide) (by decide), hline]
    simp only [Bool.false_eq_true, if_false, haddr, if_true]
  rw [parseBlocklistLine, trimEndMatches_trim (by decide), firstHost, hwords]
  simp only [hempty, hhash, hmark, Bool.or_false, Bool.false_eq_true, if_false, hcandidate]
  cases rest with
  | nil => rfl
  | cons word rest =>
      have hword : Word word := word_of_mem (s := rawLine) (by simp [hwords])
      rw [List.head?_cons, Option.bind_some, trim_word hword]
      rfl

end Lines

/-! ## Names -/

/-- A text in ASCII without a star that does not end in a dot. -/
structure HostText (s : Str) : Prop where
  ne_nil : s ≠ []
  chars : ∀ c ∈ s, IsAscii c ∧ c ≠ '*'
  ends : trimEndMatches '.' s = s

section Names

variable {U : CaseTable}

theorem isAscii_of_isAlphanum {c : Char} (h : c.isAlphanum = true) : IsAscii c := by
  rw [Char.isAlphanum, Bool.or_eq_true, isAlpha_iff] at h
  rw [IsAscii]
  rcases h with h | h
  · omega
  · have hdigit : c.val ≤ 57 := by
      rw [Char.isDigit, Bool.and_eq_true] at h
      exact of_decide_eq_true h.2
    have hnat : c.toNat ≤ 57 := hdigit
    omega

theorem hostText_of_isDnsName {name : Str} (h : isDnsName name = true) : HostText name := by
  simp only [isDnsName, Bool.and_eq_true, List.all_eq_true, Bool.or_eq_true, beq_iff_eq,
    Bool.not_eq_true'] at h
  obtain ⟨⟨-, hdot⟩, hlabels⟩ := h
  refine ⟨List.ne_nil_of_mem (List.contains_iff_mem.mp hdot), fun c hc => ?_, ?_⟩
  · -- the character is a dot or stands in a label
    rw [← @List.intercalate_splitOn _ name _ _ '.'] at hc
    rcases mem_of_mem_intercalate hc with hsep | ⟨label, hlabel, hc⟩
    · rw [List.mem_singleton.mp hsep]
      decide
    · rcases (hlabels label hlabel).2 c hc with (halnum | rfl) | rfl
      · refine ⟨isAscii_of_isAlphanum halnum, ?_⟩
        rintro rfl
        exact absurd halnum (by decide)
      · decide
      · decide
  · rw [trimEndMatches, List.rdropWhile_eq_self_iff]
    intro hne hlast
    -- a dot at the end leaves an empty label
    have hname : name.dropLast ++ ['.'] = name := by
      have hconcat := List.dropLast_append_getLast hne
      rwa [of_decide_eq_true hlast] at hconcat
    have hsplit := List.splitOnP_append_cons (p := (· == '.')) name.dropLast []
      (beq_self_eq_true '.')
    rw [hname, List.splitOnP_nil] at hsplit
    have hempty : [] ∈ name.splitOn '.' := by
      rw [List.splitOn_eq_splitOnP, hsplit]
      exact List.mem_append_right _ List.mem_cons_self
    exact absurd (hlabels [] hempty).1.1 (by simp)

theorem toAsciiLowercase_idem (s : Str) :
    toAsciiLowercase (toAsciiLowercase s) = toAsciiLowercase s := by
  rw [toAsciiLowercase, toAsciiLowercase, List.map_map]
  refine List.map_congr_left fun c _ => Char.toNat_inj.mp ?_
  have h := toNat_toLower c
  have h' := toNat_toLower c.toLower
  rw [Function.comp_apply]
  split at h <;> split at h' <;> omega

/-- Only itself has a character that is no letter as its lowercase. -/
theorem eq_of_toLower {c d : Char} (h : c.toLower = d) (hd : d.isAlpha = false) : c = d :=
  (toLower_eq_self (h ▸ hd)).symm.trans h

theorem HostText.lower {s : Str} (h : HostText s) : HostText (toAsciiLowercase s) := by
  refine ⟨by simpa [toAsciiLowercase] using h.ne_nil, fun c hc => ?_, ?_⟩
  · obtain ⟨d, hd, rfl⟩ := List.mem_map.mp hc
    refine ⟨isAscii_toLower.mpr (h.chars d hd).1, fun hstar => (h.chars d hd).2 ?_⟩
    exact eq_of_toLower hstar rfl
  · have hends := h.ends
    rw [trimEndMatches, List.rdropWhile_eq_self_iff] at hends ⊢
    intro hne hlast
    have hdot : (s.getLast h.ne_nil).toLower = '.' := by
      rw [← List.getLast_map (f := Char.toLower) (by simpa using h.ne_nil)]
      exact of_decide_eq_true hlast
    exact hends h.ne_nil (decide_eq_true (eq_of_toLower hdot rfl))

theorem HostText.normalize {s : Str} (h : HostText s) :
    normalizeDomain U s = toAsciiLowercase s := by
  rw [normalizeDomain, h.ends, CaseTable.toLowercase_ascii fun c hc => (h.chars c hc).1]

/-- A name of a list is a rule for its labels. -/
theorem suffixRule_iff {name : Str} (h : HostText name) {labels : List Str} :
    SuffixRule U (toAsciiLowercase name) labels ↔
      labels = (toAsciiLowercase name).splitOn '.' := by
  have hnorm : normalizeDomain U (toAsciiLowercase name) = toAsciiLowercase name := by
    rw [h.lower.normalize, toAsciiLowercase_idem]
  have hstar : '*' ∉ toAsciiLowercase name := fun hc => (h.lower.chars '*' hc).2 rfl
  constructor
  · rintro ⟨body, -, heq | heq, rfl⟩
    · rw [← heq, hnorm]
    · rw [hnorm] at heq
      exact absurd (heq ▸ List.mem_append_left body (by decide)) hstar
  · rintro rfl
    exact ⟨_, hstar, .inl hnorm, rfl⟩

/-- What is read from a list is the lowercase of a name. -/
theorem name_of_mem_blocklist {content name : Str} (h : name ∈ parseBlocklist content) :
    ∃ host, HostText host ∧ name = toAsciiLowercase host := by
  obtain ⟨line, -, hline⟩ := List.mem_filterMap.mp h
  rw [parseBlocklistLine] at hline
  split at hline
  · cases hline
  · obtain ⟨candidate, -, hname⟩ := Option.bind_eq_some_iff.mp hline
    simp only at hname
    split at hname
    · next hdns =>
        cases hname
        exact ⟨_, hostText_of_isDnsName hdns, rfl⟩
    · cases hname

/-- The labels of a host end those of everything below it. -/
theorem domainLabels_below {host domain : Str} (h : HostText host)
    (hbelow : domain = host ∨ ∃ sub, domain = sub ++ '.' :: host) :
    (toAsciiLowercase host).splitOn '.' <:+ domainLabels U domain := by
  rcases hbelow with rfl | ⟨sub, rfl⟩
  · rw [domainLabels, h.normalize]
  · have htrim : trimEndMatches '.' (sub ++ '.' :: host) = sub ++ '.' :: host := by
      have hends := h.ends
      rw [trimEndMatches, List.rdropWhile_eq_self_iff] at hends ⊢
      intro hne hlast
      have hdot := of_decide_eq_true hlast
      rw [List.getLast_append_of_ne_nil hne (List.cons_ne_nil _ _),
        List.getLast_cons h.ne_nil] at hdot
      exact hends h.ne_nil (decide_eq_true hdot)
    obtain ⟨front, hfront⟩ := @CaseTable.exists_toLowercaseFrom_append U sub ('.' :: host) []
    have hascii : ∀ c ∈ '.' :: host, IsAscii c :=
      List.forall_mem_cons.mpr ⟨by decide, fun c hc => (h.chars c hc).1⟩
    rw [CaseTable.toLowercaseFrom_ascii hascii] at hfront
    rw [domainLabels, normalizeDomain, htrim, CaseTable.toLowercase, hfront,
      List.splitOn_eq_splitOnP, List.splitOn_eq_splitOnP]
    have hsplit := List.splitOnP_append_cons (p := (· == '.')) front (toAsciiLowercase host)
      (beq_self_eq_true '.')
    exact hsplit ▸ List.suffix_append _ _

end Names

/-! ## Lookups -/

section Lookup

variable {U : CaseTable} {files : Str → Option Str} {path content : Str}

theorem listRules_file (hpath : isFileReference (trim path) = true)
    (hfile : files (trim path) = some content) :
    listRules files [path] [] = (parseBlocklist content).map dropRule := by
  have hskip : skipsEntry (trim path) = false := by
    rw [isFileReference, Bool.or_eq_true, Bool.or_eq_true] at hpath
    rcases hpath with (h | h) | h
    all_goals
      obtain ⟨rest, hrest⟩ := startsWith_iff.mp h
      rw [← hrest]
      rfl
  simp only [listRules, dropRules, redirectRules, List.flatMap_cons, List.flatMap_nil,
    List.append_nil, List.map_nil, dropPatterns, hskip, Bool.false_eq_true, if_false, hpath,
    if_true, readListFile, hfile, Option.map_some, Option.getD_some]

/-- A list drops exactly the names at and below those that were read from it. -/
theorem lookup_file_drop (hpath : isFileReference (trim path) = true)
    (hfile : files (trim path) = some content) (domain : Str) :
    (DomainTrie.build U files [path] []).lookup U domain = .drop ↔
      ∃ name ∈ parseBlocklist content, name.splitOn '.' <:+ domainLabels U domain := by
  have hdecides := (represents_build U files [path] []).decides listRules_policy domain
  rw [listRules_file hpath hfile] at hdecides
  have hrule : ∀ {name}, name ∈ parseBlocklist content →
      SuffixRule U name (name.splitOn '.') := by
    intro name hname
    obtain ⟨host, hhost, rfl⟩ := name_of_mem_blocklist hname
    exact (suffixRule_iff hhost).mpr rfl
  generalize (DomainTrie.build U files [path] []).lookup U domain = policy at hdecides
  cases hdecides with
  | @suffix before after rule labels hsplit hcovers _ _ =>
      have hmem : rule ∈ (parseBlocklist content).map dropRule := by simp [hsplit]
      obtain ⟨name, hname, rfl⟩ := List.mem_map.mp hmem
      obtain ⟨host, hhost, rfl⟩ := name_of_mem_blocklist hname
      obtain rfl := (suffixRule_iff hhost).mp hcovers.1
      exact iff_of_true rfl ⟨_, hname, hcovers.2⟩
  | @glob before after rule hsplit _ hglob _ _ =>
      have hmem : rule ∈ (parseBlocklist content).map dropRule := by simp [hsplit]
      obtain ⟨name, hname, rfl⟩ := List.mem_map.mp hmem
      exact absurd (hrule hname) (hglob _)
  | none huncovered _ =>
      refine iff_of_false (fun h => by cases h) ?_
      rintro ⟨name, hname, hsuffix⟩
      exact huncovered (dropRule name) (List.mem_map_of_mem hname) _ ⟨hrule hname, hsuffix⟩

/-- The host and everything below it is dropped. -/
def BlockedByFile (U : CaseTable) (files : Str → Option Str) (path host : Str) : Prop :=
  ∀ domain, (domain = host ∨ ∃ sub, domain = sub ++ '.' :: host) →
    (DomainTrie.build U files [path] []).lookup U domain = .drop

/-- The host is a name or lies below it, up to case. -/
def AtOrBelow (host name : Str) : Prop :=
  name.splitOn '.' <:+ (toAsciiLowercase host).splitOn '.'

instance (host name : Str) : Decidable (AtOrBelow host name) :=
  inferInstanceAs (Decidable (name.splitOn '.' <:+ (toAsciiLowercase host).splitOn '.'))

theorem blockedByFile_iff (hpath : isFileReference (trim path) = true)
    (hfile : files (trim path) = some content) {host : Str} (hhost : isDnsName host = true) :
    BlockedByFile U files path host ↔ ∃ name ∈ parseBlocklist content, AtOrBelow host name := by
  have htext := hostText_of_isDnsName hhost
  constructor
  · intro h
    obtain ⟨name, hname, hsuffix⟩ := (lookup_file_drop hpath hfile host).mp (h host (.inl rfl))
    rw [domainLabels, htext.normalize] at hsuffix
    exact ⟨name, hname, hsuffix⟩
  · rintro ⟨name, hname, hsuffix⟩ domain hbelow
    exact (lookup_file_drop hpath hfile domain).mpr
      ⟨name, hname, hsuffix.trans (domainLabels_below htext hbelow)⟩

end Lookup

/-- The hosts of a line of a list file are all blocked exactly if each of them
is at or below the first one, or at or below the name of another line. -/
theorem hosts_blocked_iff (U : CaseTable) (files : Str → Option Str) (path content rawLine : Str)
    (hosts : List Str) (hpath : isFileReference (trim path) = true)
    (hfile : files (trim path) = some content) (hmem : rawLine ∈ lines content)
    (hline : HostsLine rawLine hosts) :
    (∀ host ∈ hosts, isDnsName host = true → BlockedByFile U files path host) ↔
      ∀ host ∈ hosts, isDnsName host = true →
        (∃ name, firstHost rawLine = some name ∧ AtOrBelow host name) ∨
          ∃ other ∈ lines content, other ≠ rawLine ∧
            ∃ name, parseBlocklistLine other = some name ∧ AtOrBelow host name := by
  refine forall₂_congr fun host _ => forall_congr' fun hdns => ?_
  rw [blockedByFile_iff hpath hfile hdns]
  constructor
  · rintro ⟨name, hname, hbelow⟩
    obtain ⟨other, hother, hparse⟩ := List.mem_filterMap.mp hname
    by_cases heq : other = rawLine
    · rw [heq, parseBlocklistLine_hosts hline] at hparse
      exact .inl ⟨name, hparse, hbelow⟩
    · exact .inr ⟨other, hother, heq, name, hparse, hbelow⟩
  · rintro (⟨name, hfirst, hbelow⟩ | ⟨other, hother, -, name, hparse, hbelow⟩)
    · rw [← parseBlocklistLine_hosts hline] at hfirst
      exact ⟨name, List.mem_filterMap.mpr ⟨rawLine, hmem, hfirst⟩, hbelow⟩
    · exact ⟨name, List.mem_filterMap.mpr ⟨other, hother, hparse⟩, hbelow⟩

def oneLineFile (line : Str) : Str → Option Str := fun path =>
  if path = "/list".toList then some line else none

/-- The second host of this line is below the first one. -/
def nestedLine : Str := "0.0.0.0 ads.example cdn.ads.example # x".toList

theorem hosts_blocked_nested :
    BlockedByFile .ascii (oneLineFile nestedLine) "/list".toList "ads.example".toList ∧
      BlockedByFile .ascii (oneLineFile nestedLine) "/list".toList "cdn.ads.example".toList := by
  have hbelow : ∀ host ∈ ["ads.example".toList, "cdn.ads.example".toList],
      AtOrBelow host "ads.example".toList := by decide
  have hblocked := (hosts_blocked_iff .ascii (oneLineFile nestedLine) "/list".toList nestedLine
    nestedLine ["ads.example".toList, "cdn.ads.example".toList] (by decide) (by decide)
    (by decide) ⟨"0.0.0.0".toList, by decide, by decide, by decide⟩).mpr
    fun host hhost _ => .inl ⟨"ads.example".toList, by decide, hbelow host hhost⟩
  exact ⟨hblocked _ (by decide) (by decide), hblocked _ (by decide) (by decide)⟩

/-- The second host of a line is not blocked. -/
theorem second_host_not_blocked :
    HostsLine "0.0.0.0 ads.example tracker.example".toList
        ["ads.example".toList, "tracker.example".toList] ∧
      isDnsName "tracker.example".toList = true ∧
      (DomainTrie.build .ascii (oneLineFile "0.0.0.0 ads.example tracker.example".toList)
        ["/list".toList] []).lookup .ascii "tracker.example".toList = .none :=
  ⟨⟨"0.0.0.0".toList, by decide, by decide, by decide⟩, by decide, by decide⟩

end DnsRelay
