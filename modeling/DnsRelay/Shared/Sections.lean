import DnsRelay.Shared.Edns

/-!
# Packets as sections

The walkers read a packet as a header, questions and records.  `sections` cuts
a packet at the same places.  It succeeds when the counts of the header
describe all of the packet.

Names are skipped and not followed, so whether some bytes are a record does
not depend on where they stand.  `sections_eq_some` says that cutting a packet
and joining its sections are inverse to each other.
-/

namespace DnsRelay

open Lib

/-! ## Records by themselves -/

/-- The bytes are one record. -/
def IsRecord (r : Bytes) : Prop := skipRr r 0 = some r.length

instance (r : Bytes) : Decidable (IsRecord r) :=
  inferInstanceAs (Decidable (skipRr r 0 = some r.length))

/-- What stands behind a record does not matter to it. -/
theorem readRr_append_left {a : Bytes} {pos : Nat} {rr : Rr} (h : readRr a pos = some rr)
    (b : Bytes) : readRr (a ++ b) pos = some rr := by
  obtain ⟨hpos, h10, hend⟩ := readRr_bounds h
  have hsame : ∀ lo hi, hi ≤ a.length → SameOn lo hi a (a ++ b) :=
    fun lo hi hhi i _ hi' => (byteAt_append_left (Nat.lt_of_lt_of_le hi' hhi)).symm
  refine readRr_congr h ?_ (hsame _ _ ?_) (hsame _ _ ?_)
  · rw [List.length_append]
    omega
  · rw [Rr.ttlOffset]
    omega
  · rw [Rr.rdataStart]
    omega

/-- What a record is by itself it is in a packet. -/
theorem readRr_isRecord {r : Bytes} {rr : Rr} (h : readRr r 0 = some rr) (a b : Bytes) :
    readRr (a ++ (r ++ b)) a.length = some (rr.shift a.length) := by
  have happ := readRr_append_add a (r ++ b) 0
  rw [readRr_append_left h] at happ
  exact happ

theorem IsRecord.read {r : Bytes} (h : IsRecord r) :
    ∃ rr, readRr r 0 = some rr ∧ rr.rdataEnd = r.length :=
  Option.map_eq_some_iff.mp h

theorem IsRecord.skipRr {r : Bytes} (h : IsRecord r) (a b : Bytes) :
    skipRr (a ++ (r ++ b)) a.length = some (a.length + r.length) := by
  obtain ⟨rr, hread, hend⟩ := h.read
  rw [DnsRelay.skipRr, readRr_isRecord hread, Option.map_some, Rr.shift_rdataEnd, hend]

/-- A record of a packet is a record by itself. -/
theorem isRecord_slice {p : Bytes} {pos next : Nat} (h : skipRr p pos = some next) :
    IsRecord (slice p pos next) ∧ pos < next ∧ next ≤ p.length := by
  obtain ⟨rr, hread, rfl⟩ := Option.map_eq_some_iff.mp h
  obtain ⟨hpos, h10, hend⟩ := readRr_bounds hread
  refine ⟨?_, by omega, hend⟩
  have happ := readRr_append_add (p.take pos) (p.drop pos) 0
  rw [List.take_append_drop, List.length_take_of_le (by omega), Nat.add_zero, hread] at happ
  obtain ⟨rr', hread', rfl⟩ := Option.map_eq_some_iff.mp happ.symm
  rw [Rr.shift_rdataEnd] at hend ⊢
  obtain ⟨-, h10', -⟩ := readRr_bounds hread'
  have hlen : (slice p pos (pos + rr'.rdataEnd)).length = rr'.rdataEnd := by
    rw [slice_length hend]
    omega
  have hsame : ∀ lo hi, hi ≤ rr'.rdataEnd →
      SameOn lo hi (p.drop pos) (slice p pos (pos + rr'.rdataEnd)) := by
    intro lo hi hhi i _ hi'
    rw [byteAt_slice (by omega), byteAt_drop]
  have hself : readRr (slice p pos (pos + rr'.rdataEnd)) 0 = some rr' := by
    refine readRr_congr hread' (by omega) (hsame _ _ ?_) (hsame _ _ ?_)
    · rw [Rr.ttlOffset]
      omega
    · rw [Rr.rdataStart]
      omega
  rw [IsRecord, DnsRelay.skipRr, hself, hlen]
  rfl

/-! ## Cutting -/

/-- Cut a number of records off, as far as they are there. -/
def cutRrs (p : Bytes) : Nat → Nat → Option (List Bytes × Nat)
  | 0, pos => some ([], pos)
  | n + 1, pos =>
      match skipRr p pos with
      | none => none
      | some next => (cutRrs p n next).map fun cut => (slice p pos next :: cut.1, cut.2)

theorem cutRrs_flatten (b : Bytes) : ∀ {rs : List Bytes} (a : Bytes), (∀ r ∈ rs, IsRecord r) →
    cutRrs (a ++ (rs.flatten ++ b)) rs.length a.length =
      some (rs, a.length + rs.flatten.length)
  | [], a, _ => rfl
  | r :: rs, a, h => by
      have hr := h r List.mem_cons_self
      have hassoc : a ++ ((r :: rs).flatten ++ b) = (a ++ r) ++ (rs.flatten ++ b) := by
        rw [List.flatten_cons, List.append_assoc, List.append_assoc]
      have hassoc' : a ++ ((r :: rs).flatten ++ b) = a ++ (r ++ (rs.flatten ++ b)) := by
        rw [List.flatten_cons, List.append_assoc]
      have hslice : slice (a ++ ((r :: rs).flatten ++ b)) a.length (a.length + r.length) = r := by
        rw [hassoc', ← Nat.add_zero a.length, Nat.add_assoc, slice_append_add, Nat.zero_add,
          slice_append_left]
      have hrest := cutRrs_flatten b (a ++ r) fun x hx => h x (List.mem_cons_of_mem r hx)
      rw [← hassoc, List.length_append] at hrest
      rw [List.length_cons, cutRrs, hassoc', hr.skipRr, ← hassoc']
      simp only
      rw [hrest, Option.map_some, hslice, List.flatten_cons, List.length_append, Nat.add_assoc]

theorem cutRrs_spec {p : Bytes} : ∀ {n pos last : Nat} {rs : List Bytes},
    cutRrs p n pos = some (rs, last) → pos ≤ p.length →
      rs.length = n ∧ (∀ r ∈ rs, IsRecord r) ∧ rs.flatten = slice p pos last ∧ pos ≤ last ∧
        last ≤ p.length
  | 0, pos, last, rs, h, hpos => by
      cases h
      refine ⟨rfl, fun r hr => absurd hr List.not_mem_nil, ?_, Nat.le_refl _, hpos⟩
      rw [slice_eq_take_drop, Nat.sub_self]
      rfl
  | n + 1, pos, last, rs, h, hpos => by
      rw [cutRrs] at h
      cases hskip : skipRr p pos with
      | none =>
          rw [hskip] at h
          cases h
      | some next =>
          rw [hskip] at h
          obtain ⟨⟨rest, last'⟩, hcut, heq⟩ := Option.map_eq_some_iff.mp h
          cases heq
          obtain ⟨hrecord, hlt, hle⟩ := isRecord_slice hskip
          obtain ⟨hlen, hall, hflat, hpos', hlast⟩ := cutRrs_spec hcut hle
          refine ⟨by rw [List.length_cons, hlen], ?_, ?_, by omega, hlast⟩
          · intro r hr
            rcases List.mem_cons.mp hr with rfl | hr
            · exact hrecord
            · exact hall r hr
          · rw [List.flatten_cons, hflat]
            exact slice_append_slice p (Nat.le_of_lt hlt) hpos'

theorem skipRrs_of_cutRrs {p : Bytes} : ∀ {n pos last : Nat} {rs : List Bytes},
    cutRrs p n pos = some (rs, last) → skipRrs p n pos = some last
  | 0, pos, last, rs, h => by
      cases h
      rfl
  | n + 1, pos, last, rs, h => by
      rw [cutRrs] at h
      rw [skipRrs]
      cases hskip : skipRr p pos with
      | none =>
          rw [hskip] at h
          cases h
      | some next =>
          rw [hskip] at h
          obtain ⟨⟨rest, last'⟩, hcut, heq⟩ := Option.map_eq_some_iff.mp h
          cases heq
          exact skipRrs_of_cutRrs hcut

/-! ## Sections -/

structure Sections where
  header : Bytes
  questions : Bytes
  records : List Bytes
  additional : List Bytes
deriving DecidableEq, Repr

namespace Sections

def front (m : Sections) : Bytes := m.header ++ (m.questions ++ m.records.flatten)

def bytes (m : Sections) : Bytes := m.front ++ m.additional.flatten

/-- The counts of the header describe the sections. -/
structure Wf (m : Sections) : Prop where
  header : m.header.length = 12
  questions : readQuestions m.questions (qdcount m.header) 0 = some m.questions.length
  recordCount : m.records.length = ancount m.header + nscount m.header
  records : ∀ r ∈ m.records, IsRecord r
  additionalCount : m.additional.length = arcount m.header
  additional : ∀ r ∈ m.additional, IsRecord r

end Sections

def sections (p : Bytes) : Option Sections :=
  if p.length < 12 then none
  else
    match readQuestions p (qdcount p) 12 with
    | none => none
    | some mid =>
        match cutRrs p (ancount p + nscount p) mid with
        | none => none
        | some (records, pos) =>
            match cutRrs p (arcount p) pos with
            | none => none
            | some (additional, last) =>
                if last = p.length then some ⟨p.take 12, slice p 12 mid, records, additional⟩
                else none

/-- The counts are in the first twelve bytes. -/
theorem u16At_header {h b : Bytes} (hlen : h.length = 12) {i : Nat} (hi : i < 11) :
    u16At (h ++ b) i = u16At h i := by
  rw [u16At, u16At, byteAt_append_left (by omega), byteAt_append_left (by omega)]

/-- Questions of a packet are questions by themselves. -/
theorem readQuestions_slice {p : Bytes} {n mid : Nat} (h12 : 12 ≤ p.length)
    (h : readQuestions p n 12 = some mid) :
    readQuestions (slice p 12 mid) n 0 = some (slice p 12 mid).length := by
  have hle := readQuestions_le h
  have hmid := readQuestions_le_length h h12
  have happ := readQuestions_append_add (p.take 12) (p.drop 12) n 0
  rw [List.take_append_drop, List.length_take_of_le h12] at happ
  obtain ⟨e, he, heq⟩ := Option.map_eq_some_iff.mp (happ.symm.trans h)
  have hlen : (slice p 12 mid).length = e := by
    rw [slice_length hmid]
    omega
  rw [hlen]
  refine readQuestions_congr he (by omega) fun i _ hi => ?_
  rw [byteAt_slice (by omega), byteAt_drop]

/-- Questions by themselves are questions of a packet. -/
theorem readQuestions_bytes {h qs : Bytes} {n : Nat} (b : Bytes)
    (hq : readQuestions qs n 0 = some qs.length) :
    readQuestions (h ++ (qs ++ b)) n h.length = some (h.length + qs.length) := by
  have happ := readQuestions_append_add h (qs ++ b) n 0
  have hleft : readQuestions (qs ++ b) n 0 = some qs.length := by
    refine readQuestions_congr hq ?_ fun i _ hi => (byteAt_append_left hi).symm
    rw [List.length_append]
    omega
  rw [hleft] at happ
  exact happ

namespace Sections

theorem front_length (m : Sections) :
    m.front.length = m.header.length + m.questions.length + m.records.flatten.length := by
  rw [front, List.length_append, List.length_append, Nat.add_assoc]

theorem bytes_eq (m : Sections) :
    m.bytes = m.header ++ (m.questions ++ (m.records.flatten ++ m.additional.flatten)) := by
  rw [bytes, front, List.append_assoc, List.append_assoc]

theorem Wf.length_bytes {m : Sections} (h : m.Wf) : 12 ≤ m.bytes.length := by
  rw [m.bytes_eq, List.length_append, h.header]
  exact Nat.le_add_right ..

/-- The counts of a packet are those of its header. -/
theorem u16At_bytes {m : Sections} (h : m.Wf) {i : Nat} (hi : i < 11) :
    u16At m.bytes i = u16At m.header i := by
  rw [bytes_eq, u16At_header h.header hi]

theorem Wf.readQuestions {m : Sections} (h : m.Wf) :
    DnsRelay.readQuestions m.bytes (qdcount m.bytes) 12 = some (12 + m.questions.length) := by
  have hread := readQuestions_bytes (h := m.header)
    (m.records.flatten ++ m.additional.flatten) h.questions
  rw [h.header, ← bytes_eq] at hread
  rw [qdcount, u16At_bytes h (by decide)]
  exact hread

theorem Wf.cutRecords {m : Sections} (h : m.Wf) :
    cutRrs m.bytes (ancount m.bytes + nscount m.bytes) (12 + m.questions.length) =
      some (m.records, m.front.length) := by
  have hcut := cutRrs_flatten m.additional.flatten (m.header ++ m.questions) h.records
  rw [List.length_append, List.append_assoc, ← bytes_eq, ← front_length, h.header] at hcut
  rw [← hcut, h.recordCount, ancount, nscount, u16At_bytes h (by decide),
    u16At_bytes h (by decide)]
  rfl

theorem Wf.additionalStart {m : Sections} (h : m.Wf) :
    DnsRelay.additionalStart m.bytes = some m.front.length := by
  rw [DnsRelay.additionalStart, skipQuestions_of_readQuestions h.readQuestions]
  exact skipRrs_of_cutRrs h.cutRecords

theorem Wf.cutAdditional {m : Sections} (h : m.Wf) :
    cutRrs m.bytes (arcount m.bytes) m.front.length = some (m.additional, m.bytes.length) := by
  have hcut := cutRrs_flatten [] m.front h.additional
  rw [List.append_nil, ← List.length_append, h.additionalCount] at hcut
  rw [arcount, u16At_bytes h (by decide)]
  exact hcut

end Sections

/-- Joining well-formed sections gives a packet that is cut into them. -/
theorem sections_bytes {m : Sections} (h : m.Wf) : sections m.bytes = some m := by
  have h12 := h.header
  have hlen := h.length_bytes
  have htake : m.bytes.take 12 = m.header := by
    rw [m.bytes_eq, ← h12, List.take_left]
  have hslice : slice m.bytes 12 (12 + m.questions.length) = m.questions := by
    have hs := slice_append_add m.header (m.questions ++ (m.records.flatten ++
      m.additional.flatten)) 0 m.questions.length
    rw [h12, slice_append_left, ← m.bytes_eq] at hs
    exact hs
  rw [sections, if_neg (by omega), h.readQuestions]
  simp only
  rw [h.cutRecords]
  simp only
  rw [h.cutAdditional]
  simp only
  rw [if_pos trivial, htake, hslice]

/-- The walks behind a packet that is cut into sections. -/
theorem walks_of_sections {p : Bytes} {m : Sections} (h : sections p = some m) :
    ∃ mid records pos additional, 12 ≤ p.length ∧ readQuestions p (qdcount p) 12 = some mid ∧
      cutRrs p (ancount p + nscount p) mid = some (records, pos) ∧
      cutRrs p (arcount p) pos = some (additional, p.length) ∧
      m = ⟨p.take 12, slice p 12 mid, records, additional⟩ := by
  rw [sections] at h
  split at h
  · cases h
  · next h12 =>
      split at h
      · cases h
      · next mid hq =>
          split at h
          · cases h
          · next records pos hr =>
              split at h
              · cases h
              · next additional last ha =>
                  split at h
                  · next hlast =>
                      cases h
                      subst hlast
                      exact ⟨mid, records, pos, additional, Nat.le_of_not_lt h12, hq, hr, ha, rfl⟩
                  · cases h

/-- A packet that is cut into sections is made of them, and they are
well-formed. -/
theorem sections_spec {p : Bytes} {m : Sections} (h : sections p = some m) :
    p = m.bytes ∧ m.Wf := by
  obtain ⟨mid, records, pos, additional, h12, hq, hr, ha, rfl⟩ := walks_of_sections h
  have hmid := readQuestions_le_length hq h12
  have hle := readQuestions_le hq
  obtain ⟨hrlen, hrall, hrflat, hrle, hrend⟩ := cutRrs_spec hr hmid
  obtain ⟨halen, haall, haflat, hale, -⟩ := cutRrs_spec ha hrend
  have hcount : ∀ i < 11, u16At (p.take 12) i = u16At p i := by
    intro i hi
    rw [u16At, u16At, byteAt_take (by omega), byteAt_take (by omega)]
  constructor
  · show p = p.take 12 ++ (slice p 12 mid ++ records.flatten) ++ additional.flatten
    rw [hrflat, haflat, slice_append_slice p hle hrle, ← slice_zero p 12,
      slice_append_slice p (Nat.zero_le _) (by omega),
      slice_append_slice p (Nat.zero_le _) hale, slice_to_length]
    rfl
  · refine ⟨List.length_take_of_le h12, ?_, ?_, hrall, ?_, haall⟩
    · show readQuestions (slice p 12 mid) (u16At (p.take 12) 4) 0 = _
      rw [hcount 4 (by decide)]
      exact readQuestions_slice h12 hq
    · show records.length = u16At (p.take 12) 6 + u16At (p.take 12) 8
      rw [hcount 6 (by decide), hcount 8 (by decide)]
      exact hrlen
    · show additional.length = u16At (p.take 12) 10
      rw [hcount 10 (by decide)]
      exact halen

/-- A packet parses as the well-formed sections that make it up. -/
theorem sections_eq_some {p : Bytes} {m : Sections} :
    sections p = some m ↔ p = m.bytes ∧ m.Wf := by
  constructor
  · exact sections_spec
  · rintro ⟨rfl, h⟩
    exact sections_bytes h

end DnsRelay
