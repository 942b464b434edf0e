import DnsRelay.Lib.Addr
import DnsRelay.Relay.HistoryLedger
import DnsRelay.Shared.Name

/-!
# Any text as a history

A flush reads whatever text the file has and writes whatever domain it is given.
The text may come from elsewhere and have two lines for a domain.  Memory then
has the addresses of the last one, and dropping the first one forgets the domain
although a later line needs it.

A domain comes from a packet and need not be a word.  Its line is then read as
something else, possibly as a line for another domain.
-/

namespace DnsRelay

open Lib History

/-! ## What is read -/

/-- The domain and the addresses of a line, if it has a word. -/
def readLine (line : Str) : Option HistoryEntry :=
  match splitWhitespace line with
  | [] => none
  | domain :: ips => some ⟨domain, ips⟩

/-- The lines of a text as a flush reads them. -/
def readLines (content : Str) : List HistoryEntry := (lines content).filterMap readLine

def lastIps (old : List HistoryEntry) (domain : Str) : Option (List Str) :=
  (old.findRev? fun e => e.domain = domain).map HistoryEntry.ips

theorem lastIps_concat (old : List HistoryEntry) (e : HistoryEntry) :
    lastIps (old ++ [e]) = Function.update (lastIps old) e.domain (some e.ips) := by
  funext domain
  rw [lastIps, List.findRev?_eq_find?_reverse, List.reverse_append]
  by_cases h : domain = e.domain
  · subst h
    simp
  · rw [Function.update_of_ne h, lastIps, List.findRev?_eq_find?_reverse]
    simp [Ne.symm h]

/-- A flush has the lines of the text in memory, and of two lines for a domain
the last one. -/
theorem readHistory_eq (content : Str) :
    readHistory content =
      ⟨(readLines content).map HistoryEntry.domain, lastIps (readLines content)⟩ := by
  rw [readHistory, readLines]
  induction lines content using List.reverseRecOn with
  | nil => rfl
  | append_singleton ls line ih =>
      rw [List.foldl_append, ih, List.filterMap_append, List.foldl_cons, List.foldl_nil, addLine]
      cases hwords : splitWhitespace line with
      | nil => simp [readLine, hwords]
      | cons domain ips => simp [readLine, hwords, lastIps_concat]

/-! ## What a batch adds -/

/-- The domains of a batch that have no line yet. -/
def newDomains (order : List Str) (batch : List HistoryEntry) : List Str :=
  ((batch.map HistoryEntry.domain).filter fun domain => domain ∉ order).eraseDups

/-- What is in memory after a batch. -/
structure Added (h : History) (batch : List HistoryEntry) (h' : History) : Prop where
  listed : ∀ domain, (h'.ips domain).isSome = true ↔ domain ∈ h'.order
  order : h'.order = h.order ++ newDomains h.order batch
  ips : ∀ domain ip, ip ∈ (h'.ips domain).getD [] ↔
    ip ∈ (h.ips domain).getD [] ∨ ∃ e ∈ batch, e.domain = domain ∧ ip ∈ e.ips

section Concat

variable {order : List Str} {batch : List HistoryEntry} {e : HistoryEntry}

theorem filter_unlisted (h : e.domain ∉ order) :
    ([e].map HistoryEntry.domain).filter (fun domain => domain ∉ order) = [e.domain] := by
  simp [h]

theorem newDomains_concat_known (h : e.domain ∈ order ++ newDomains order batch) :
    newDomains order (batch ++ [e]) = newDomains order batch := by
  rw [newDomains, List.map_append, List.filter_append]
  by_cases horder : e.domain ∈ order
  · simp [horder, newDomains]
  · have hnew := (List.mem_append.mp h).resolve_left horder
    rw [newDomains, List.mem_eraseDups] at hnew
    rw [filter_unlisted horder, eraseDups_concat_mem hnew, newDomains]

theorem newDomains_concat_new (h : e.domain ∉ order ++ newDomains order batch) :
    newDomains order (batch ++ [e]) = newDomains order batch ++ [e.domain] := by
  rw [List.mem_append, not_or, newDomains, List.mem_eraseDups] at h
  rw [newDomains, List.map_append, List.filter_append, filter_unlisted h.1,
    eraseDups_concat_new h.2, newDomains]

end Concat

theorem Added.addEntry {h h' : History} {batch : List HistoryEntry} (hadded : Added h batch h')
    (e : HistoryEntry) : Added h (batch ++ [e]) (h'.addEntry e) := by
  constructor
  case listed =>
    intro domain
    by_cases heq : domain = e.domain
    · subst heq
      refine iff_of_true (by simp) ?_
      rw [History.addEntry]
      split
      · next hsome => exact (hadded.listed _).mp hsome
      · exact List.mem_append_right _ (List.mem_singleton_self _)
    · rw [addEntry_ips_other h' heq, hadded.listed, History.addEntry]
      split
      · rfl
      · simp [heq]
  case order =>
    rw [History.addEntry]
    simp only [hadded.listed, hadded.order]
    split
    · next hknown => rw [newDomains_concat_known hknown]
    · next hnew => rw [newDomains_concat_new hnew, List.append_assoc]
  case ips =>
    intro domain ip
    simp only [List.mem_append, List.mem_singleton, or_and_right, exists_or, exists_eq_left,
      ← or_assoc, ← hadded.ips]
    by_cases heq : domain = e.domain
    · subst heq
      simp [mem_foldl_addIp]
    · rw [addEntry_ips_other h' heq]
      simp [Ne.symm heq]

/-- A batch in memory, from any text. -/
theorem added_mergeHistory (content : Str) (batch : List HistoryEntry) :
    Added (readHistory content) batch (mergeHistory content batch) := by
  induction batch using List.reverseRecOn with
  | nil =>
      refine ⟨(readHistory_wf content).listed, ?_, by simp [mergeHistory]⟩
      simp [mergeHistory, newDomains]
  | append_singleton batch e ih =>
      rw [mergeHistory, List.foldl_append]
      exact ih.addEntry e

/-! ## A text with two lines for a domain -/

def keptHistory (linesCount : Nat) (content : Str) (batch : List HistoryEntry) : History :=
  (mergeHistory content batch).dropExcess linesCount

/-- A flush does not panic, and a domain that remains keeps the addresses that
any line of the text has for it. -/
def FlushKeeps (linesCount : Nat) (content : Str) (batch : List HistoryEntry) : Prop :=
  flushFile linesCount content batch ≠ none ∧
    (batch ≠ [] → ∀ domain ∈ (keptHistory linesCount content batch).order,
      ∀ old ∈ readLines content, old.domain = domain →
        ∀ ip ∈ old.ips, ip ∈ ((keptHistory linesCount content batch).ips domain).getD [])

/-- The domains of all lines of a text, and then those of new lines. -/
def allDomains (content : Str) (batch : List HistoryEntry) : List Str :=
  (readLines content).map HistoryEntry.domain ++
    newDomains ((readLines content).map HistoryEntry.domain) batch

theorem renderLines_ne_none {ips : Str → Option (List Str)} {order : List Str} :
    renderLines ips order ≠ none ↔ ∀ domain ∈ order, (ips domain).isSome = true := by
  constructor
  · intro h
    induction order with
    | nil => simp
    | cons domain order ih =>
        rw [renderLines] at h
        cases hips : ips domain with
        | none => simp [hips] at h
        | some l =>
            simp only [hips, ne_eq, Option.map_eq_none_iff] at h
            rintro d (_ | ⟨_, hd⟩)
            · rw [hips]
              rfl
            · exact ih h d hd
  · intro h
    rw [renderLines_eq h]
    exact Option.some_ne_none _

section Kept

variable {linesCount excess : Nat} {content : Str} {batch : List HistoryEntry} {domain : Str}

theorem mergeHistory_order (content : Str) (batch : List HistoryEntry) :
    (mergeHistory content batch).order = allDomains content batch := by
  rw [(added_mergeHistory content batch).order, readHistory_eq, allDomains]

theorem keptHistory_order (hexcess : (allDomains content batch).length - linesCount = excess) :
    (keptHistory linesCount content batch).order = (allDomains content batch).drop excess := by
  rw [keptHistory, dropExcess, mergeHistory_order, hexcess]

/-- A domain is forgotten with the first of its lines. -/
theorem keptHistory_ips (hexcess : (allDomains content batch).length - linesCount = excess) :
    (keptHistory linesCount content batch).ips domain =
      if domain ∈ (allDomains content batch).take excess then none
      else (mergeHistory content batch).ips domain := by
  rw [keptHistory, dropExcess, mergeHistory_order, hexcess]

theorem keptHistory_isSome (hexcess : (allDomains content batch).length - linesCount = excess)
    (hmem : domain ∈ (allDomains content batch).drop excess) :
    ((keptHistory linesCount content batch).ips domain).isSome = true ↔
      domain ∉ (allDomains content batch).take excess := by
  have hsome : ((mergeHistory content batch).ips domain).isSome = true := by
    rw [(added_mergeHistory content batch).listed, mergeHistory_order]
    exact List.mem_of_mem_drop hmem
  rw [keptHistory_ips hexcess]
  split
  · next h => simp [h]
  · next h => simp [h, hsome]

end Kept

/-- A flush keeps what a text has exactly when the lines that are dropped and
those that stay have no domain in common, and when the addresses of the lines
that stay are all on the last line of their domain or in the batch. -/
theorem flush_keeps_iff (linesCount : Nat) (content : Str) (batch : List HistoryEntry) :
    let old := readLines content
    let all := allDomains content batch
    let excess := all.length - linesCount
    FlushKeeps linesCount content batch ↔ batch = [] ∨
      (∀ domain ∈ all.drop excess, domain ∉ all.take excess) ∧
      ∀ line ∈ old, line.domain ∈ all.drop excess → ∀ ip ∈ line.ips,
        ip ∈ (lastIps old line.domain).getD [] ∨
          ∃ e ∈ batch, e.domain = line.domain ∧ ip ∈ e.ips := by
  intro old all excess
  have horder := keptHistory_order (rfl : all.length - linesCount = excess)
  by_cases hbatch : batch = []
  · refine iff_of_true ⟨?_, fun h => absurd hbatch h⟩ (.inl hbatch)
    rw [flushFile, hbatch]
    exact Option.some_ne_none _
  · have hflush : flushFile linesCount content batch ≠ none ↔
        ∀ domain ∈ all.drop excess, domain ∉ all.take excess := by
      rw [flushFile, if_neg (by simpa using hbatch), flushedText, ← keptHistory, render, ne_eq,
        Option.map_eq_none_iff, ← ne_eq, renderLines_ne_none, horder]
      exact forall₂_congr fun domain hmem => keptHistory_isSome rfl hmem
    rw [FlushKeeps, hflush, or_iff_right hbatch, horder]
    refine and_congr_right fun hclash => ?_
    -- a domain that remains has in memory what its last line and the batch have
    have hips : ∀ domain ∈ all.drop excess, ∀ ip,
        ip ∈ ((keptHistory linesCount content batch).ips domain).getD [] ↔
          ip ∈ (lastIps old domain).getD [] ∨ ∃ e ∈ batch, e.domain = domain ∧ ip ∈ e.ips := by
      intro domain hmem ip
      rw [keptHistory_ips rfl, if_neg (hclash domain hmem),
        (added_mergeHistory content batch).ips, readHistory_eq]
    constructor
    · intro h line hline hmem ip hip
      exact (hips _ hmem ip).mp (h hbatch _ hmem line hline rfl ip hip)
    · rintro h - domain hmem line hline rfl ip hip
      exact (hips _ hmem ip).mpr (h line hline hmem ip hip)

/-- Two lines for one domain.  Under a limit of two lines the flush panics, and
without one it loses an address. -/
theorem flush_loses_repeated_domain :
    let content := "a.com 10.0.0.1\na.com 10.0.0.2\n".toList
    let batch : List HistoryEntry := [⟨"b.com".toList, ["10.0.0.3".toList]⟩]
    flushFile 2 content batch = none ∧ ¬FlushKeeps 2 content batch ∧
      flushFile 9 content batch =
        some "a.com 10.0.0.2\na.com 10.0.0.2\nb.com 10.0.0.3\n".toList ∧
      ¬FlushKeeps 9 content batch := by
  intro content batch
  have hpanic : flushFile 2 content batch = none := by decide
  refine ⟨hpanic, fun h => h.1 hpanic, by decide, fun h => ?_⟩
  have hkept := h.2 (by decide) "a.com".toList (by decide)
    ⟨"a.com".toList, ["10.0.0.1".toList]⟩ (by decide) rfl "10.0.0.1".toList (by decide)
  exact absurd hkept (by decide)

/-! ## A domain that is not a word -/

theorem isWhitespace_of_isDigit {c : Char} (h : c.isDigit = true) : isWhitespace c = false := by
  have hlow : 48 ≤ c.toNat ∧ c.toNat ≤ 57 := by
    simpa [Char.isDigit, UInt32.le_iff_toNat_le] using h
  simp only [isWhitespace, Bool.or_eq_false_iff, Bool.and_eq_false_iff, decide_eq_false_iff_not]
  omega

/-- An address is written as a word. -/
theorem isWord_ipv4Text (ip : Ipv4Addr) : IsWord ip.text := by
  refine ⟨by simp [Ipv4Addr.text], fun c hc => ?_⟩
  have hdigits : ∀ {n}, c ∈ Nat.toDigits 10 n → isWhitespace c = false := fun hmem =>
    isWhitespace_of_isDigit (Nat.isDigit_of_mem_toDigits (by decide) (by decide) hmem)
  have hdot : c = '.' → isWhitespace c = false := by
    rintro rfl
    decide
  simp only [Ipv4Addr.text, List.mem_append, List.mem_cons] at hc
  rcases hc with h | h | h | h | h | h | h
  · exact hdigits h
  · exact hdot h
  · exact hdigits h
  · exact hdot h
  · exact hdigits h
  · exact hdot h
  · exact hdigits h

theorem isWord_of_mem_readLines {content : Str} {e : HistoryEntry} (h : e ∈ readLines content) :
    IsWord e.domain := by
  obtain ⟨line, -, hread⟩ := List.mem_filterMap.mp h
  rw [readLine] at hread
  split at hread
  · cases hread
  · next domain ips hwords =>
      obtain rfl := Option.some.inj hread
      exact isWord_of_mem_splitWhitespace (hwords ▸ List.mem_cons_self)

/-- The file after one entry of words. -/
theorem readLines_one {linesCount : Nat} (hlimit : linesCount ≠ 0) {e : HistoryEntry}
    (hplain : e.Plain) :
    ∃ text, flushFile linesCount [] [e] = some text ∧
      readLines text = [⟨e.domain, e.ips.eraseDups⟩] := by
  have hbatches : ∀ batch ∈ [[e]], ∀ x ∈ batch, HistoryEntry.Plain x := by simpa using hplain
  obtain ⟨text, htext, hshows, -⟩ := fileShows_run linesCount hbatches
  have hrun : Ledger.run linesCount [[e]] = ⟨[e], [⟨e.domain, 0⟩]⟩ := by
    simp [Ledger.run, Ledger.flush, Ledger.record, Ledger.empty]
  rw [hrun] at hshows
  have hlive : Ledger.live linesCount ⟨[e], [⟨e.domain, 0⟩]⟩ = [⟨e.domain, 0⟩] := by
    rw [Ledger.live, List.length_singleton, Nat.sub_eq_zero_of_le (by omega)]
    rfl
  have hflushed : Ledger.flushed ⟨[e], [⟨e.domain, 0⟩]⟩ ⟨e.domain, 0⟩ = e.ips := by
    simp [Ledger.flushed]
  have hips : ∀ ip ∈ e.ips.eraseDups, IsWord ip :=
    fun ip hip => hplain.2 ip (List.mem_eraseDups.mp hip)
  refine ⟨text, by simpa [flushFiles] using htext, ?_⟩
  rw [readLines, hshows.lines, hlive]
  simp [hflushed, readLine, splitWhitespace_renderLine hplain.1 hips]

/-- An entry of a name and addresses is read back as it was exactly when the name
is a word and the file may have a line. -/
theorem entry_read_back_iff (linesCount : Nat) (domain : Str) (ips : List Ipv4Addr) :
    (∃ text, flushFile linesCount [] [⟨domain, ips.map Ipv4Addr.text⟩] = some text ∧
      readLines text = [⟨domain, (ips.map Ipv4Addr.text).eraseDups⟩]) ↔
    IsWord domain ∧ linesCount ≠ 0 := by
  constructor
  · rintro ⟨text, htext, hread⟩
    refine ⟨?_, ?_⟩
    · exact @isWord_of_mem_readLines text ⟨domain, _⟩ (hread ▸ List.mem_singleton_self _)
    · rintro rfl
      -- without lines the file is empty
      obtain rfl : [] = text := Option.some.inj htext
      cases hread
  · rintro ⟨hword, hlimit⟩
    refine readLines_one hlimit ⟨hword, ?_⟩
    intro ip hip
    obtain ⟨addr, -, rfl⟩ := List.mem_map.mp hip
    exact isWord_ipv4Text addr

/-- A query name with a line feed.  It makes a line for the name behind it. -/
theorem query_name_forges_line :
    let payload : Bytes := [3, 0x61, 0x0A, 0x62, 0]
    let domain := "a\nb".toList
    let address : Ipv4Addr := ⟨10, 0, 0, 1⟩
    parseDomain .ascii payload 0 = some (domain, 5) ∧
      ∃ text, flushFile 100 [] [⟨domain, [address.text]⟩] = some text ∧
        readLines text = [⟨"a".toList, []⟩, ⟨"b".toList, [address.text]⟩] :=
  ⟨by decide, "a\nb 10.0.0.1\n".toList, by decide, by decide⟩

end DnsRelay
