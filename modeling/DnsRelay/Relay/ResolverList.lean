import DnsRelay.Lib.AddrText
import DnsRelay.Relay.Resolver

/-!
# Fetched lists of resolvers

A list has a resolver on each line.  `classifyLine` keeps URLs and IPv4
addresses.  It tests the text before the first colon, and returns the whole
line if there is a colon.  What stands behind the colon is read by nobody until
the resolver is probed or asked, and then it has to be a port.

So a list gives usable resolvers only if every address in it that is followed
by a colon is followed by a port (`resolver_list_usable_iff`).
-/

namespace DnsRelay

open Lib

/-! ## Reading a list -/

/-- `classify_line`. -/
def classifyLine (line : Str) (keepIpv4 keepDoh : Bool) : Option Str :=
  if startsWith line https then if keepDoh then some line else none
  else
    match parseIpAddr (line.takeWhile (· ≠ ':')) with
    | some (.v4 _) =>
        if !keepIpv4 then none
        else if line.contains ':' then some line
        else some (line ++ ":53".toList)
    | some (.v6 _) => none
    | none => none

/-- `parse_resolver_list`. -/
def parseResolverList (body : Str) (keepIpv4 keepDoh : Bool) : List Str :=
  (lines body).filterMap fun rawLine =>
    let line := trim rawLine
    if line.isEmpty || startsWith line "#".toList then none
    else classifyLine line keepIpv4 keepDoh

/-- `measure_latency` up to the point where the probe leaves. -/
def measureLatency (resolver : Str) : Except Error Upstream :=
  if startsWith resolver https then .ok (.doh resolver)
  else if startsWith resolver quic then .ok (.doq resolver)
  else
    match parseSocketAddr resolver with
    | none => .error (.invalidResolver resolver)
    | some addr => .ok (.dispatcher addr)

/-- A URL or the IPv4 address of a socket, of a kind that was asked for. -/
def Usable (keepIpv4 keepDoh : Bool) (entry : Str) : Prop :=
  (startsWith entry https = true ∧ keepDoh = true) ∨
    ((∃ ip port, parseSocketAddr entry = some (.v4 ip port)) ∧ keepIpv4 = true)

/-! ## Entries -/

/-- An entry is a URL, or an address with a colon and more. -/
inductive Entry (keepIpv4 keepDoh : Bool) (line : Str) : Str → Prop where
  | url (hurl : startsWith line https = true) (hkeep : keepDoh = true) :
      Entry keepIpv4 keepDoh line line
  | withColon (ip : Ipv4Addr) (rest : Str) (hkeep : keepIpv4 = true)
      (hline : line = ip.text ++ ':' :: rest) :
      Entry keepIpv4 keepDoh line (ip.text ++ ':' :: rest)
  | alone (ip : Ipv4Addr) (hkeep : keepIpv4 = true) (hline : line = ip.text) :
      Entry keepIpv4 keepDoh line (ip.text ++ ':' :: "53".toList)

section Entries

variable {keepIpv4 keepDoh : Bool} {line entry : Str}

/-- The text of an address starts with none of the marks that are tested. -/
theorem not_startsWith_text (ip : Ipv4Addr) (rest : Str) {mark : Char} (t : Str)
    (hmark : ¬DottedChar mark) : startsWith (ip.text ++ rest) (mark :: t) = false := by
  rw [Bool.eq_false_iff, ne_eq, startsWith_iff]
  intro h
  cases htext : ip.text with
  | nil => exact ip.text_ne_nil htext
  | cons c text =>
      rw [htext] at h
      have hc : DottedChar c := ip.text_chars c (by rw [htext]; exact List.mem_cons_self)
      exact hmark ((List.cons_prefix_cons.mp h).1 ▸ hc)

/-- The lines that are kept, and what is kept of them. -/
theorem classifyLine_iff :
    classifyLine line keepIpv4 keepDoh = some entry ↔ Entry keepIpv4 keepDoh line entry := by
  constructor
  · intro h
    rw [classifyLine] at h
    split at h
    · next hurl =>
        split at h
        · next hkeep =>
            cases h
            exact .url hurl hkeep
        · cases h
    · split at h
      · next ip hip =>
          have htext := parseIpAddr_eq_v4.mp hip
          split at h
          · cases h
          · next hkeep =>
              have hkeep' : keepIpv4 = true := by simpa using hkeep
              split at h
              · next hcolon =>
                  cases h
                  obtain ⟨start, rest, rfl, hfirst⟩ :=
                    List.eq_append_cons_of_mem (List.contains_iff_mem.mp hcolon)
                  rw [takeWhile_ne_append hfirst] at htext
                  subst htext
                  exact .withColon ip rest hkeep' rfl
              · next hcolon =>
                  cases h
                  rw [takeWhile_ne_self (fun h => hcolon (List.contains_iff_mem.mpr h))] at htext
                  subst htext
                  exact .alone ip hkeep' rfl
      · cases h
      · cases h
  · intro h
    cases h with
    | url hurl hkeep => rw [classifyLine, if_pos hurl, if_pos hkeep]
    | withColon ip rest hkeep hline =>
        have hurl : startsWith (ip.text ++ ':' :: rest) https = false :=
          not_startsWith_text ip _ _ (by decide)
        have hpart := takeWhile_ne_append ip.colon_not_mem_text rest
        have hcolon : (ip.text ++ ':' :: rest).contains ':' = true := by simp
        subst hline
        rw [classifyLine, hurl, if_neg Bool.false_ne_true, hpart, parseIpAddr_eq_v4.mpr rfl, hkeep]
        simp only [Bool.not_true, Bool.false_eq_true, if_false, hcolon, if_true]
    | alone ip hkeep hline =>
        have hurl : startsWith (ip.text ++ []) https = false :=
          not_startsWith_text ip _ _ (by decide)
        have hpart := takeWhile_ne_self ip.colon_not_mem_text
        have hcolon : ip.text.contains ':' = false := by
          simpa using ip.colon_not_mem_text
        rw [List.append_nil] at hurl
        subst hline
        rw [classifyLine, hurl, if_neg Bool.false_ne_true, hpart, parseIpAddr_eq_v4.mpr rfl, hkeep]
        simp only [Bool.not_true, Bool.false_eq_true, if_false, hcolon]
        rfl

/-- No line with an entry is blank or a comment. -/
theorem Entry.counts (h : Entry keepIpv4 keepDoh line entry) :
    (line.isEmpty || startsWith line "#".toList) = false := by
  have htext : ∀ (ip : Ipv4Addr) (rest : Str),
      ((ip.text ++ rest).isEmpty || startsWith (ip.text ++ rest) "#".toList) = false := by
    intro ip rest
    have hne : (ip.text ++ rest).isEmpty = false :=
      List.isEmpty_eq_false_iff.mpr (List.append_ne_nil_of_left_ne_nil ip.text_ne_nil rest)
    have hmark : startsWith (ip.text ++ rest) "#".toList = false :=
      not_startsWith_text ip rest [] (by decide)
    rw [hne, hmark]
    rfl
  cases h with
  | url hurl hkeep =>
      obtain ⟨rest, rfl⟩ := startsWith_iff.mp hurl
      rfl
  | withColon ip rest hkeep hline =>
      rw [hline]
      exact htext ip _
  | alone ip hkeep hline =>
      rw [hline, ← List.append_nil ip.text]
      exact htext ip []

theorem mem_parseResolverList {body : Str} : entry ∈ parseResolverList body keepIpv4 keepDoh ↔
    ∃ rawLine ∈ lines body, Entry keepIpv4 keepDoh (trim rawLine) entry := by
  simp only [parseResolverList, List.mem_filterMap]
  refine exists_congr fun rawLine => and_congr_right fun _ => ?_
  constructor
  · intro h
    split at h
    · cases h
    · exact classifyLine_iff.mp h
  · intro h
    rw [h.counts, if_neg Bool.false_ne_true]
    exact classifyLine_iff.mpr h

/-- An address is usable with a port behind it. -/
theorem usable_text (ip : Ipv4Addr) (rest : Str) (hkeep : keepIpv4 = true) :
    Usable keepIpv4 keepDoh (ip.text ++ ':' :: rest) ↔ IsPort rest := by
  have hurl : startsWith (ip.text ++ ':' :: rest) https = false :=
    not_startsWith_text ip _ _ (by decide)
  rw [Usable, hurl]
  rcases parseSocketAddr_text ip rest with ⟨hport, port, haddr⟩ | ⟨hport, haddr⟩
  · exact ⟨fun _ => hport, fun _ => .inr ⟨⟨ip, port, haddr⟩, hkeep⟩⟩
  · refine ⟨fun h => ?_, fun h => absurd h hport⟩
    rcases h with ⟨h, -⟩ | ⟨⟨ip', port, h⟩, -⟩
    · cases h
    · rw [haddr] at h
      cases h

/-- Probes and queries leave for the usable entries, and for no other. -/
theorem Entry.leaves_iff (h : Entry keepIpv4 keepDoh line entry) :
    (Usable keepIpv4 keepDoh entry ↔ ∃ upstream, measureLatency entry = .ok upstream) ∧
      ∀ payload subnet hasDispatcher, (Usable keepIpv4 keepDoh entry ↔
        ∃ sent, resolveFromUpstreamInner payload entry subnet hasDispatcher = .ok sent) := by
  have htext : ∀ (ip : Ipv4Addr) (rest : Str), keepIpv4 = true → entry = ip.text ++ ':' :: rest →
      (Usable keepIpv4 keepDoh entry ↔ ∃ upstream, measureLatency entry = .ok upstream) ∧
        ∀ payload subnet hasDispatcher, (Usable keepIpv4 keepDoh entry ↔
          ∃ sent, resolveFromUpstreamInner payload entry subnet hasDispatcher = .ok sent) := by
    intro ip rest hkeep hentry
    have hurl : startsWith (ip.text ++ ':' :: rest) https = false :=
      not_startsWith_text ip _ _ (by decide)
    have hquic : startsWith (ip.text ++ ':' :: rest) quic = false :=
      not_startsWith_text ip _ _ (by decide)
    subst hentry
    simp only [usable_text ip rest hkeep, measureLatency, resolveFromUpstreamInner, hurl, hquic,
      Bool.false_eq_true, if_false]
    rcases parseSocketAddr_text ip rest with ⟨hport, port, haddr⟩ | ⟨hport, haddr⟩
    · rw [haddr]
      refine ⟨⟨fun _ => ⟨_, rfl⟩, fun _ => hport⟩, fun payload subnet hasDispatcher => ?_⟩
      refine ⟨fun _ => ?_, fun _ => hport⟩
      cases hasDispatcher with
      | false => exact ⟨_, rfl⟩
      | true => exact ⟨_, rfl⟩
    · rw [haddr]
      refine ⟨⟨fun h => absurd h hport, ?_⟩, fun payload subnet hasDispatcher =>
        ⟨fun h => absurd h hport, ?_⟩⟩
      · rintro ⟨upstream, h⟩
        cases h
      · rintro ⟨sent, h⟩
        cases h
  cases h with
  | url hurl hkeep =>
      have husable : Usable keepIpv4 keepDoh line := .inl ⟨hurl, hkeep⟩
      refine ⟨⟨fun _ => ?_, fun _ => husable⟩, fun payload subnet hasDispatcher =>
        ⟨fun _ => ?_, fun _ => husable⟩⟩
      · exact ⟨_, by rw [measureLatency, if_pos hurl]⟩
      · exact ⟨_, by rw [resolveFromUpstreamInner, if_pos hurl]⟩
  | withColon ip rest hkeep hline => exact htext ip rest hkeep rfl
  | alone ip hkeep hline => exact htext ip _ hkeep rfl

end Entries

/-! ## Lists -/

/-- A list gives usable resolvers, if its addresses with a colon have a port.
Another entry is refused when it is probed, and when it is asked. -/
theorem resolver_list_usable_iff (body : Str) (keepIpv4 keepDoh : Bool) :
    ((∀ entry ∈ parseResolverList body keepIpv4 keepDoh, Usable keepIpv4 keepDoh entry) ↔
        (keepIpv4 = true → ∀ rawLine ∈ lines body, ∀ ip rest,
          trim rawLine = Ipv4Addr.text ip ++ ':' :: rest → IsPort rest)) ∧
      ∀ entry ∈ parseResolverList body keepIpv4 keepDoh,
        (Usable keepIpv4 keepDoh entry ↔ ∃ upstream, measureLatency entry = .ok upstream) ∧
        ∀ payload subnet hasDispatcher, (Usable keepIpv4 keepDoh entry ↔
          ∃ sent, resolveFromUpstreamInner payload entry subnet hasDispatcher = .ok sent) := by
  constructor
  · constructor
    · intro h hkeep rawLine hraw ip rest hline
      have hentry := h _ (mem_parseResolverList.mpr ⟨rawLine, hraw, .withColon ip rest hkeep hline⟩)
      exact (usable_text ip rest hkeep).mp hentry
    · intro h entry hmem
      obtain ⟨rawLine, hraw, hentry⟩ := mem_parseResolverList.mp hmem
      cases hentry with
      | url hurl hkeep => exact .inl ⟨hurl, hkeep⟩
      | withColon ip rest hkeep hline =>
          exact (usable_text ip rest hkeep).mpr (h hkeep rawLine hraw ip rest hline)
      | alone ip hkeep hline => exact (usable_text ip _ hkeep).mpr (by decide)
  · intro entry hmem
    obtain ⟨rawLine, -, hentry⟩ := mem_parseResolverList.mp hmem
    exact hentry.leaves_iff

/-- A comment behind the port of an address stays in the entry. -/
theorem resolver_list_comment_kept :
    let entry := "1.1.1.1:53 # primary".toList
    parseResolverList "1.1.1.1:53 # primary\n8.8.8.8\n".toList true true =
        [entry, "8.8.8.8:53".toList] ∧
      parseSocketAddr entry = none ∧ ¬Usable true true entry ∧
      measureLatency entry = .error (.invalidResolver entry) := by
  have haddr : parseSocketAddr "1.1.1.1:53 # primary".toList = none := by decide
  refine ⟨by decide, haddr, ?_, by decide⟩
  rintro (⟨hurl, -⟩ | ⟨⟨ip, port, h⟩, -⟩)
  · exact absurd hurl (by decide)
  · rw [haddr] at h
    cases h

end DnsRelay
