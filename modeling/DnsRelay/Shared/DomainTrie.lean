import DnsRelay.Lib.Addr
import DnsRelay.Lib.Glob
import DnsRelay.Lib.Trie

/-!
# The rule trie

`DomainTrie` holds the drop and redirect rules.  A rule without a star, or with
only a leading `*.`, is a path of labels from the top-level domain down.  Any
other rule with a star stays in an ordered list of patterns, which is searched
when the path of a domain has no rule.

Rules come from the configuration.  An entry that names a file stands for the
domains in that file, and `parseBlocklist` reads them.  The file system is an
argument: `files path` is the content of a file that can be read.
-/

namespace DnsRelay

open Lib

/-! ## Rules and patterns -/

inductive DomainTriePolicy where
  | none
  | drop
  | redirect (ips : List Str)
deriving DecidableEq, Repr

/-- `DomainTrie`.  Only the root has patterns. -/
structure DomainTrie where
  root : Trie Str DomainTriePolicy
  labelGlobs : List (Str × DomainTriePolicy)

/-- `pattern.trim_end_matches('.').to_lowercase()`, for patterns and
domains. -/
def normalizeDomain (U : CaseTable) (domain : Str) : Str :=
  U.toLowercase (trimEndMatches '.' domain)

def wildcard : Str := "*.".toList

/-- `is_suffix_wildcard`. -/
def isSuffixWildcard (pattern : Str) : Bool :=
  startsWith pattern wildcard && !(pattern.drop 2).contains '*'

/-- The byte `*`. -/
def starByte : UInt8 := 42

/-- The variables of the loop of `wildcard_matches`. -/
structure WildcardState where
  valueIndex : Nat
  patternIndex : Nat
  /-- The last star that was passed. -/
  starIndex : Option Nat
  /-- Where in the value the part after that star was tried last. -/
  restartValue : Nat
  star_lt : ∀ star ∈ starIndex, star < patternIndex
  restart_le : restartValue ≤ valueIndex

/-- The number of pattern bytes up to the last star. -/
def WildcardState.passed (st : WildcardState) : Nat := st.starIndex.elim 0 (· + 1)

/-- The loop of `wildcard_matches` and the skipping of stars after it. -/
def wildcardLoop (value pattern : Bytes) (st : WildcardState) : Bool :=
  if hv : st.valueIndex < value.length then
    if hp : st.patternIndex < pattern.length ∧
        byteAt pattern st.patternIndex = byteAt value st.valueIndex then
      wildcardLoop value pattern {
        valueIndex := st.valueIndex + 1
        patternIndex := st.patternIndex + 1
        starIndex := st.starIndex
        restartValue := st.restartValue
        star_lt := fun star hs => Nat.lt_succ_of_lt (st.star_lt star hs)
        restart_le := Nat.le_succ_of_le st.restart_le }
    else if hs : st.patternIndex < pattern.length ∧
        byteAt pattern st.patternIndex = starByte then
      wildcardLoop value pattern {
        valueIndex := st.valueIndex
        patternIndex := st.patternIndex + 1
        starIndex := some st.patternIndex
        restartValue := st.valueIndex
        star_lt := by simp
        restart_le := Nat.le_refl _ }
    else
      match hstar : st.starIndex with
      | some star =>
          wildcardLoop value pattern {
            valueIndex := st.restartValue + 1
            patternIndex := star + 1
            starIndex := some star
            restartValue := st.restartValue + 1
            star_lt := by simp
            restart_le := Nat.le_refl _ }
      | none => false
  else ((pattern.drop st.patternIndex).dropWhile (· = starByte)).isEmpty
termination_by
  (pattern.length - st.passed, value.length - st.restartValue, value.length - st.valueIndex)
decreasing_by
  · have := st.restart_le
    simp only [WildcardState.passed]
    apply Prod.Lex.right
    apply Prod.Lex.right
    omega
  · have hlt : st.passed ≤ st.patternIndex := by
      rw [WildcardState.passed]
      cases hs : st.starIndex with
      | none => exact Nat.zero_le _
      | some star => exact st.star_lt star hs
    apply Prod.Lex.left
    simp only [WildcardState.passed, Option.elim_some] at hlt ⊢
    omega
  · have hle := st.restart_le
    simp only [WildcardState.passed, hstar]
    apply Prod.Lex.right
    apply Prod.Lex.left
    omega

/-- `wildcard_matches`. -/
def wildcardMatches (value pattern : Str) : Bool :=
  wildcardLoop (utf8 value) (utf8 pattern) ⟨0, 0, none, 0, nofun, Nat.le_refl 0⟩

/-- `label_glob_matches`. -/
def labelGlobMatches (domain pattern : Str) : Bool :=
  let domainLabels := domain.splitOn '.'
  let patternLabels := pattern.splitOn '.'
  domainLabels.length == patternLabels.length &&
    (domainLabels.zip patternLabels).all fun labels => wildcardMatches labels.1 labels.2

namespace DomainTrie

/-- `DomainTrie::new`. -/
def new : DomainTrie := ⟨.leaf .none, []⟩

/-- `insert_with_policy`. -/
def insertWithPolicy (U : CaseTable) (trie : DomainTrie) (pattern : Str)
    (policy : DomainTriePolicy) : DomainTrie :=
  let pattern := normalizeDomain U pattern
  if pattern.contains '*' && !isSuffixWildcard pattern then
    { trie with labelGlobs := trie.labelGlobs ++ [(pattern, policy)] }
  else
    let pattern := (stripPrefix pattern wildcard).getD pattern
    { trie with root := trie.root.insert .none (pattern.splitOn '.').reverse policy }

/-- `insert_drop`. -/
def insertDrop (U : CaseTable) (trie : DomainTrie) (pattern : Str) : DomainTrie :=
  trie.insertWithPolicy U pattern .drop

def redirectIps (ipWithPort : Str) : List Str :=
  (ipWithPort.splitOn ',').map fun entry => ((entry.splitOn ':').head?).getD entry

/-- `insert_redirect`. -/
def insertRedirect (U : CaseTable) (trie : DomainTrie) (pattern ipWithPort : Str) : DomainTrie :=
  trie.insertWithPolicy U pattern (.redirect (redirectIps ipWithPort))

def lookup (U : CaseTable) (trie : DomainTrie) (domain : Str) : DomainTriePolicy :=
  let domain := normalizeDomain U domain
  let policy := trie.root.firstSet .none (domain.splitOn '.').reverse
  if policy ≠ .none then policy
  else
    match trie.labelGlobs.find? fun glob => labelGlobMatches domain glob.1 with
    | some glob => glob.2
    | none => .none

end DomainTrie

/-! ## Rule files -/

/-- `is_file_reference`. -/
def isFileReference (pattern : Str) : Bool :=
  startsWith pattern "/".toList || startsWith pattern "./".toList ||
    startsWith pattern "../".toList

/-- `is_dns_name`. -/
def isDnsName (name : Str) : Bool :=
  decide ((utf8 name).length ≤ 253) && name.contains '.' &&
    (name.splitOn '.').all fun label =>
      !label.isEmpty && decide ((utf8 label).length ≤ 63) &&
        label.all fun c => c.isAlphanum || c == '-' || c == '_'

/-- The part of a line that may be a domain. -/
def blocklistCandidate (line : Str) : Option Str :=
  match stripPrefix line "||".toList with
  | some rest => (rest.splitOnP fun c => c = '^' ∨ c = '$' ∨ c = '/').head?
  | none =>
  match stripPrefix line "address=/".toList with
  | some rest => (rest.splitOn '/').head?
  | none =>
  if startsWith line "server=/".toList then none
  else
  match stripPrefix line "local-zone:".toList with
  | some rest =>
      if ["always_nxdomain".toList, "static".toList, "redirect".toList].any fun word =>
          decide (word <:+: rest) then (rest.splitOn '"')[1]?
      else none
  | none =>
      match splitWhitespace line with
      | [] => none
      | first :: parts => if (parseIpAddr first).isSome then parts.head? else some first

/-- `parse_blocklist_line`. -/
def parseBlocklistLine (rawLine : Str) : Option Str :=
  let line := trimEndMatches '\r' (trim rawLine)
  if line.isEmpty || startsWith line ['#'] || startsWith line ['!'] then none
  else
    (blocklistCandidate line).bind fun candidate =>
      let name := trimEndMatches '.' (trim candidate)
      let name := (stripPrefix name wildcard).getD name
      if isDnsName name then some (toAsciiLowercase name) else none

/-- `parse_blocklist`. -/
def parseBlocklist (content : Str) : List Str := (lines content).filterMap parseBlocklistLine

/-! ## Building -/

def skipsEntry (pattern : Str) : Bool := pattern.isEmpty || startsWith pattern ['#']

/-- `read_list_file`. -/
def readListFile (files : Str → Option Str) (path : Str) : List Str :=
  ((files path).map parseBlocklist).getD []

namespace DomainTrie

variable (U : CaseTable) (files : Str → Option Str)

def dropOnce (acc : DomainTrie × List Str) (pattern : Str) : DomainTrie × List Str :=
  if pattern ∈ acc.2 then acc else (acc.1.insertDrop U pattern, pattern :: acc.2)

/-- One entry of the drop list, with the patterns seen so far. -/
def addDropEntry (acc : DomainTrie × List Str) (entry : Str) : DomainTrie × List Str :=
  let pattern := trim entry
  if skipsEntry pattern then acc
  else if isFileReference pattern then (readListFile files pattern).foldl (dropOnce U) acc
  else dropOnce U acc pattern

def addRedirectLine (trie : DomainTrie) (line : Str) : DomainTrie :=
  match splitOnce ':' line with
  | some (source, target) =>
      if !(trim source).isEmpty && !(trim target).isEmpty then
        trie.insertRedirect U (trim source) (trim target)
      else trie
  | none => trie

def addRedirectEntry (trie : DomainTrie) (entry : Str × Str) : DomainTrie :=
  let pattern := trim entry.1
  if skipsEntry pattern then trie
  else if isFileReference pattern then (readListFile files pattern).foldl (addRedirectLine U) trie
  else trie.insertRedirect U pattern entry.2

/-- `DomainTrie::build`. -/
def build (dropList : List Str) (redirectList : List (Str × Str)) : DomainTrie :=
  redirectList.foldl (addRedirectEntry U files) (dropList.foldl (addDropEntry U files) (new, [])).1

end DomainTrie

/-! ## The rules of a query -/

inductive RuleMatch where
  | drop
  | redirect (ips : List Str)
  | none
deriving DecidableEq, Repr

/-- `check_rules`. -/
def checkRules (U : CaseTable) (domain : Str) (trie : DomainTrie) : RuleMatch :=
  match trie.lookup U domain with
  | .drop => .drop
  | .redirect ips => .redirect ips
  | .none => .none

end DnsRelay
