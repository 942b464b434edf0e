import DnsRelay.Lib.Words
import DnsRelay.Shared.RulePolicy
import DnsRelay.Relay.RedirectReply
import DnsRelay.Gui.Draft

/-!
# Redirect rules of the application on the server

The application checks a redirect rule and the server answers by it.  The check
trims each address of the target before it reads it.  The trie keeps the
addresses as they are written, and the reply is made of those that can be read
without trimming.  So an address with whitespace around it passes the check and
is missing from the reply.  If no other address is left, there is no reply.

The number of answers has sixteen bits, so a reply to a longer target announces
too few of them.
-/

namespace DnsRelay.Gui

open Lib

/-! ## Rules that pass the check -/

/-- The addresses that a target lists, as the application reads them. -/
def listedAddresses (target : Str) : List Ipv4Addr :=
  (target.splitOn ',').filterMap fun address => parseIpv4Addr (trim address)

/-- The entry of a draft, and no `invalid_redirect_rule` is reported for it. -/
structure AcceptedRedirect (hostFromUrl : Str → Option Str) (draft : Draft) (index : Nat)
    (domain target : Str) : Prop where
  entry : draft.redirectList[index]? = some (domain, target)
  unreported : ∀ error ∈ guiValidationErrors hostFromUrl draft,
    error.code = "invalid_redirect_rule".toList →
      error.field ≠ some (indexed "redirectList" index)

section Accepted

variable {hostFromUrl : Str → Option Str} {draft : Draft} {index : Nat} {domain target : Str}

theorem redirectProblems_subset (hostFromUrl : Str → Option Str) (draft : Draft) :
    redirectProblems draft.redirectList ⊆ guiValidationErrors hostFromUrl draft := fun _ hmem =>
  List.mem_flatten.mpr ⟨_, .tail _ (.tail _ (.tail _ (.tail _ (.head _)))), hmem⟩

theorem AcceptedRedirect.checked (h : AcceptedRedirect hostFromUrl draft index domain target) :
    isFileReference domain = false ∧ validDomainPattern domain = true ∧
      ∀ part ∈ target.splitOn ',', validRedirectTarget part = true := by
  by_contra hfailed
  have hflag : (isFileReference domain || !validDomainPattern domain ||
      !(target.splitOn ',').all validRedirectTarget) = true := by
    by_contra hno
    simp only [Bool.or_eq_true, Bool.not_eq_true', not_or, Bool.not_eq_true, Bool.not_eq_false,
      List.all_eq_true] at hno
    exact hfailed ⟨hno.1.1, hno.1.2, hno.2⟩
  have hmem : CommandError.ofField "invalid_redirect_rule".toList
      "Redirect rule must map a domain pattern to IP addresses".toList
      (indexed "redirectList" index) ∈ redirectProblems draft.redirectList := by
    refine List.mem_flatMap.mpr
      ⟨((domain, target), index), List.mk_mem_zipIdx_iff_getElem?.mpr h.entry, ?_⟩
    simp only [problem, hflag, if_true, List.mem_singleton]
  exact h.unreported _ (redirectProblems_subset hostFromUrl draft hmem) rfl rfl

/-- Every part of an accepted target is an address, but for the whitespace
around it. -/
theorem AcceptedRedirect.part (h : AcceptedRedirect hostFromUrl draft index domain target)
    {part : Str} (hpart : part ∈ target.splitOn ',') :
    (parseIpv4Addr (trim part)).isSome = true := by
  have hcomma : ',' ∉ part := by
    intro hmem
    rw [List.splitOn_eq_splitOnP] at hpart
    exact absurd (not_sep_of_mem_splitOnP hpart ',' hmem) (by decide)
  have hvalid := h.checked.2.2 part hpart
  rw [validRedirectTarget, List.splitOn_eq_singleton hcomma, List.all_eq_true] at hvalid
  exact hvalid part List.mem_cons_self

/-- An address is read as it is written just when no whitespace is around it. -/
theorem isSome_parseIpv4Addr_iff {part : Str} (h : (parseIpv4Addr (trim part)).isSome = true) :
    (parseIpv4Addr part).isSome = true ↔ trim part = part := by
  constructor
  · intro hsome
    obtain ⟨ip, hip⟩ := Option.isSome_iff_exists.mp hsome
    refine trim_word ⟨?_, fun c hc => (parseIpv4Addr_chars hip c hc).solid⟩
    rintro rfl
    cases hip
  · intro htrim
    rwa [htrim] at h

/-- The trie keeps the parts of an accepted target: they have no ports. -/
theorem AcceptedRedirect.redirectIps
    (h : AcceptedRedirect hostFromUrl draft index domain target) :
    DomainTrie.redirectIps target = target.splitOn ',' := by
  rw [DomainTrie.redirectIps]
  refine (List.map_congr_left fun part hpart => ?_).trans (List.map_id _)
  obtain ⟨ip, hip⟩ := Option.isSome_iff_exists.mp (h.part hpart)
  have hcolon : ':' ∉ part := by
    intro hmem
    exact absurd (parseIpv4Addr_chars hip ':' (mem_trim hmem (by decide))) (by decide)
  rw [List.splitOn_eq_singleton hcolon]
  rfl

theorem AcceptedRedirect.length_listed
    (h : AcceptedRedirect hostFromUrl draft index domain target) :
    (listedAddresses target).length = (target.splitOn ',').length :=
  List.filterMap_length_eq_length.mpr fun _ hpart => h.part hpart

end Accepted

/-! ## The reply -/

/-- A well-formed query for an address, with one question. -/
structure AddressQuery (U : CaseTable) (payload : Bytes) (name : Str) (qnameEnd : Nat) : Prop where
  question : qdcount payload = 1
  hasName : parseDomain U payload 12 = some (name, qnameEnd)
  fits : qnameEnd + 4 ≤ payload.length
  type : u16At payload qnameEnd = 1

section Reply

variable {hostFromUrl : Str → Option Str} {draft : Draft} {index : Nat} {domain target : Str}
  {U : CaseTable} {files : Str → Option Str}

/-- Names that the trie of one accepted entry matches are sent to the parts of
its target. -/
theorem AcceptedRedirect.checkRules
    (h : AcceptedRedirect hostFromUrl draft index domain target) {name : Str}
    (hmatch : (DomainTrie.build U files [] [(domain, target)]).lookup U name ≠ .none) :
    DnsRelay.checkRules U name (DomainTrie.build U files [] [(domain, target)]) =
      .redirect (target.splitOn ',') := by
  have hslash := slash_not_mem_of_validDomainPattern h.checked.2.1
  have hfile : DnsRelay.isFileReference (trim domain) = false := by
    by_contra hfile
    simp only [DnsRelay.isFileReference, Bool.not_eq_false, Bool.or_eq_true,
      startsWith_iff] at hfile
    rcases hfile with (hpre | hpre) | hpre
    all_goals exact hslash (mem_of_mem_trim (hpre.subset (by decide)))
  obtain ⟨rule, hrule, hpolicy⟩ := ((represents_build U files [] [(domain, target)]).decides
    listRules_policy name).exists_rule hmatch
  have hmem : rule ∈ (redirectPatterns files (domain, target)).map redirectRule := by
    simpa [listRules, dropRules, redirectRules] using hrule
  simp only [redirectPatterns, hfile] at hmem
  have hredirect : rule.policy = .redirect (DomainTrie.redirectIps target) := by
    split at hmem
    · cases hmem
    · obtain rfl := List.mem_singleton.mp hmem
      rfl
  rw [DnsRelay.checkRules, hpolicy, hredirect, h.redirectIps]

/-- A query whose name an accepted entry matches is answered with the listed
addresses exactly if no address has whitespace around it and their number has
sixteen bits. -/
theorem accepted_redirect_answers_iff {q : Query} {name : Str} {qnameEnd : Nat}
    (haccepted : AcceptedRedirect hostFromUrl draft index domain target)
    (hquery : AddressQuery U q.payload name qnameEnd)
    (htrie : q.ruleTrie = DomainTrie.build U files [] [(domain, target)])
    (hmatch : q.ruleTrie.lookup U name ≠ .none) (relayPicker : Option RelayPicker) :
    (∃ reply, openQuery U relayPicker q = .done (some reply) ∧
        parseARecords reply.packet = (listedAddresses target).map octets) ↔
      (∀ part ∈ target.splitOn ',', trim part = part) ∧ (target.splitOn ',').length < 65536 := by
  rw [htrie] at hmatch
  have hopen := openQuery_redirect hquery.hasName
    (htrie ▸ haccepted.checkRules hmatch) relayPicker
  have hread : ∀ part ∈ target.splitOn ',',
      (parseIpv4Addr part).isSome = true ↔ trim part = part :=
    fun part hpart => isSome_parseIpv4Addr_iff (haccepted.part hpart)
  rw [hopen]
  constructor
  · rintro ⟨reply, hreply, hrecords⟩
    have hne : (target.splitOn ',').filterMap parseIpv4Addr ≠ [] := by
      intro hnone
      rw [craftRedirectResponse_none hnone] at hreply
      cases hreply
    obtain ⟨packet, hcraft, hredirected⟩ := redirected hquery.hasName hquery.fits hne
    rw [hcraft] at hreply
    cases hreply
    have hcount := length_parseARecords packet
    rw [hrecords, List.length_map, haccepted.length_listed, hredirected.ancount] at hcount
    have hle := List.length_filterMap_le parseIpv4Addr (target.splitOn ',')
    have hmod := Nat.mod_le ((target.splitOn ',').filterMap parseIpv4Addr).length 65536
    have hall := List.filterMap_length_eq_length.mp (Nat.le_antisymm hle (hcount.trans hmod))
    refine ⟨fun part hpart => (hread part hpart).mp (hall part hpart), ?_⟩
    exact Nat.lt_of_le_of_lt hcount (Nat.mod_lt _ (by decide))
  · rintro ⟨htrim, hlt⟩
    have hlisted : (target.splitOn ',').filterMap parseIpv4Addr = listedAddresses target :=
      List.filterMap_congr fun part hpart => by rw [htrim part hpart]
    have hlen := haccepted.length_listed
    have hne : (target.splitOn ',').filterMap parseIpv4Addr ≠ [] := by
      rw [hlisted, ← List.length_pos_iff, hlen, List.length_pos_iff]
      exact List.splitOn_ne_nil _ _
    obtain ⟨packet, hcraft, hredirected⟩ := redirected hquery.hasName hquery.fits hne
    rw [hlisted] at hredirected
    refine ⟨⟨packet, .redirect⟩, by rw [hcraft]; rfl, ?_⟩
    exact hredirected.parseARecords hquery.question (by omega) hquery.type

end Reply

/-- The starter draft with a redirect of the name `a.b`. -/
def redirectDraft (target : Str) : Draft :=
  { starterDraft with redirectList := [("a.b".toList, target)] }

/-- The query for an address at `a.b`, under that redirect. -/
def redirectQuery (target : Str) : Query :=
  ⟨addressQuery [1, 0x61, 1, 0x62, 0], .v4 ⟨127, 0, 0, 1⟩ 53,
    DomainTrie.build .ascii (fun _ => none) [] [("a.b".toList, target)]⟩

theorem addressQuery_name :
    AddressQuery .ascii (addressQuery [1, 0x61, 1, 0x62, 0]) "a.b".toList 17 where
  question := by decide
  hasName := by decide
  fits := by decide
  type := by decide

theorem accepted_redirectDraft {target : Str}
    (h : guiValidationErrors anyHost (redirectDraft target) = []) :
    AcceptedRedirect anyHost (redirectDraft target) 0 "a.b".toList target where
  entry := rfl
  unreported error hmem := by
    rw [h] at hmem
    exact absurd hmem List.not_mem_nil

theorem accepted_redirect_answers_two_addresses :
    ∃ reply, openQuery .ascii none (redirectQuery "10.0.0.1,10.0.0.2".toList) =
        .done (some reply) ∧
      parseARecords reply.packet = [[10, 0, 0, 1], [10, 0, 0, 2]] := by
  have haccepted : AcceptedRedirect anyHost (redirectDraft "10.0.0.1,10.0.0.2".toList) 0
      "a.b".toList "10.0.0.1,10.0.0.2".toList := accepted_redirectDraft (by decide +kernel)
  have hmatch : (redirectQuery "10.0.0.1,10.0.0.2".toList).ruleTrie.lookup .ascii "a.b".toList ≠
      .none := by
    decide
  exact (accepted_redirect_answers_iff haccepted addressQuery_name rfl hmatch none).mpr
    (by decide)

/-- The second address of an accepted entry is missing from the reply. -/
theorem spaced_address_is_missing :
    AcceptedRedirect anyHost (redirectDraft "10.0.0.1, 10.0.0.2".toList) 0 "a.b".toList
        "10.0.0.1, 10.0.0.2".toList ∧
      AddressQuery .ascii (redirectQuery "10.0.0.1, 10.0.0.2".toList).payload "a.b".toList 17 ∧
      (redirectQuery "10.0.0.1, 10.0.0.2".toList).ruleTrie.lookup .ascii "a.b".toList ≠ .none ∧
      listedAddresses "10.0.0.1, 10.0.0.2".toList = [⟨10, 0, 0, 1⟩, ⟨10, 0, 0, 2⟩] ∧
      ∃ reply, openQuery .ascii none (redirectQuery "10.0.0.1, 10.0.0.2".toList) =
          .done (some reply) ∧
        parseARecords reply.packet = [[10, 0, 0, 1]] := by
  refine ⟨accepted_redirectDraft (by decide +kernel), addressQuery_name, by decide, by decide,
    ?_⟩
  refine ⟨⟨queryHeader.take 2 ++ [0x81, 0x80, 0, 1, 0, 1, 0, 0, 0, 0] ++
    [1, 0x61, 1, 0x62, 0, 0, 1, 0, 1] ++ redirectAnswer [0, 1] [0, 1] ⟨10, 0, 0, 1⟩, .redirect⟩,
    by decide +kernel, by decide +kernel⟩

end DnsRelay.Gui
