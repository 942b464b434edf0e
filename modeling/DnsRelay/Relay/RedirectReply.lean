import DnsRelay.Relay.Handler
import DnsRelay.Shared.EcsScope

/-!
# Replies for redirected names

`craft_redirect_response` puts its answers into the query, behind the question
and before everything else.  The answers are sixteen bytes each, so the rest
of the query moves by a multiple of that and is otherwise read as before.

The type and the class of an answer are those of the question, and its data is
an IPv4 address.  So the answers are A records exactly when the question asks
for one.
-/

namespace DnsRelay

open Lib

/-! ## The parts of a reply -/

def octets (ip : Ipv4Addr) : Bytes := [ip.a, ip.b, ip.c, ip.d]

/-- The header and the question of a reply with so many answers. -/
def redirectFront (payload : Bytes) (qnameEnd n : Nat) : Bytes :=
  (overwrite (overwrite payload 2 [0x81, 0x80]) 6 (toBe16 (n % 65536))).take (qnameEnd + 4)

def questionType (payload : Bytes) (qnameEnd : Nat) : Bytes :=
  slice payload qnameEnd (qnameEnd + 2)

def questionClass (payload : Bytes) (qnameEnd : Nat) : Bytes :=
  slice payload (qnameEnd + 2) (qnameEnd + 4)

section Parts

variable {payload : Bytes} {qnameEnd : Nat}

theorem questionType_length (hfit : qnameEnd + 4 ≤ payload.length) :
    (questionType payload qnameEnd).length = 2 := by
  rw [questionType, slice_length (by omega)]
  omega

theorem questionClass_length (hfit : qnameEnd + 4 ≤ payload.length) :
    (questionClass payload qnameEnd).length = 2 := by
  rw [questionClass, slice_length (by omega)]
  omega

/-- A reply is the front, the answers and the rest of the query. -/
theorem craftRedirectResponse_eq (h12 : 12 ≤ qnameEnd) (hfit : qnameEnd + 4 ≤ payload.length)
    {targets : List Str} (hips : targets.filterMap parseIpv4Addr ≠ []) :
    craftRedirectResponse payload qnameEnd targets =
      some (redirectFront payload qnameEnd (targets.filterMap parseIpv4Addr).length ++
        ((targets.filterMap parseIpv4Addr).flatMap
          (redirectAnswer (questionType payload qnameEnd) (questionClass payload qnameEnd)) ++
          payload.drop (qnameEnd + 4))) := by
  have hflags : 2 + [(0x81 : UInt8), 0x80].length ≤ payload.length := by
    show 2 + 2 ≤ payload.length
    omega
  have hlen := overwrite_length hflags
  have hsame : ∀ lo hi, 4 ≤ lo → SameOn lo hi (overwrite payload 2 [0x81, 0x80]) payload :=
    fun lo hi hlo i hi' _ => byteAt_overwrite_after hflags (Nat.le_trans hlo hi')
  have htype : slice (overwrite payload 2 [0x81, 0x80]) qnameEnd (qnameEnd + 2) =
      questionType payload qnameEnd :=
    slice_congr (by omega) (by omega) (hsame _ _ (by omega))
  have hclass : slice (overwrite payload 2 [0x81, 0x80]) (qnameEnd + 2) (qnameEnd + 4) =
      questionClass payload qnameEnd :=
    slice_congr (by omega) (by omega) (hsame _ _ (by omega))
  have hdrop : (overwrite (overwrite payload 2 [0x81, 0x80]) 6 (toBe16
      ((targets.filterMap parseIpv4Addr).length % 65536))).drop (qnameEnd + 4) =
        payload.drop (qnameEnd + 4) := by
    rw [drop_overwrite (by rw [hlen, toBe16_length]; omega) (by rw [toBe16_length]; omega),
      drop_overwrite hflags (by show 2 + 2 ≤ qnameEnd + 4; omega)]
  rw [craftRedirectResponse, if_neg (by omega)]
  simp only [htype, hclass, hdrop]
  rw [if_neg (by rwa [List.isEmpty_iff]), List.append_assoc]
  rfl

theorem craftRedirectResponse_none {targets : List Str}
    (hips : targets.filterMap parseIpv4Addr = []) :
    craftRedirectResponse payload qnameEnd targets = none := by
  rw [craftRedirectResponse]
  split
  · rfl
  · simp only [hips, List.isEmpty_nil, if_true]

/-- What the front shares with the query, and its new fields. -/
theorem redirectFront_spec (h12 : 12 ≤ qnameEnd) (hfit : qnameEnd + 4 ≤ payload.length) (n : Nat)
    (back : Bytes) :
    (redirectFront payload qnameEnd n).length = qnameEnd + 4 ∧
      (redirectFront payload qnameEnd n ++ back).take 2 = payload.take 2 ∧
      byteAt (redirectFront payload qnameEnd n ++ back) 2 = 0x81 ∧
      byteAt (redirectFront payload qnameEnd n ++ back) 3 = 0x80 ∧
      ancount (redirectFront payload qnameEnd n ++ back) = n % 65536 ∧
      SameOn 4 6 payload (redirectFront payload qnameEnd n ++ back) ∧
      SameOn 8 (qnameEnd + 4) payload (redirectFront payload qnameEnd n ++ back) := by
  have hflags : 2 + [(0x81 : UInt8), 0x80].length ≤ payload.length := by
    show 2 + 2 ≤ payload.length
    omega
  have hlen := overwrite_length hflags
  have hcount : 6 + (toBe16 (n % 65536)).length ≤
      (overwrite payload 2 [0x81, 0x80]).length := by
    rw [hlen, toBe16_length]
    omega
  have hlen' := overwrite_length hcount
  have hfront : (redirectFront payload qnameEnd n).length = qnameEnd + 4 := by
    rw [redirectFront, List.length_take]
    omega
  have hbyte : ∀ i < qnameEnd + 4, byteAt (redirectFront payload qnameEnd n ++ back) i =
      byteAt (overwrite (overwrite payload 2 [0x81, 0x80]) 6 (toBe16 (n % 65536))) i := by
    intro i hi
    rw [byteAt_append_left (by omega), redirectFront, byteAt_take hi]
  have hout : ∀ i < qnameEnd + 4, i < 6 ∨ 8 ≤ i → i < 2 ∨ 4 ≤ i →
      byteAt (redirectFront payload qnameEnd n ++ back) i = byteAt payload i := by
    intro i hi h6 h2
    rw [hbyte i hi, byteAt_overwrite_outside hcount h6, byteAt_overwrite_outside hflags h2]
  refine ⟨hfront, ?_, ?_, ?_, ?_, ?_, ?_⟩
  · rw [List.take_append_of_le_length (by omega), redirectFront, List.take_take,
      Nat.min_eq_left (by omega), take_overwrite (by omega) (by omega),
      take_overwrite (by omega) (by omega)]
  · rw [hbyte 2 (by omega), byteAt_overwrite_before hcount (by omega)]
    exact byteAt_overwrite_inside (j := 0) hflags (by decide)
  · rw [hbyte 3 (by omega), byteAt_overwrite_before hcount (by omega)]
    exact byteAt_overwrite_inside (j := 1) hflags (by decide)
  · rw [ancount, u16At, hbyte 6 (by omega), hbyte 7 (by omega)]
    exact (u16At_overwrite hcount).trans (Nat.mod_mod _ _)
  · intro i h1 h2
    exact (hout i (by omega) (by omega) (by omega)).symm
  · intro i h1 h2
    exact (hout i (by omega) (by omega) (by omega)).symm

end Parts

/-! ## The answers -/

theorem eq_pair_of_length {b : Bytes} (h : b.length = 2) : b = [byteAt b 0, byteAt b 1] := by
  match b, h with
  | [x, y], _ => rfl

theorem redirectAnswer_length {t c : Bytes} (ht : t.length = 2) (hc : c.length = 2)
    (ip : Ipv4Addr) : (redirectAnswer t c ip).length = 16 := by
  simp only [redirectAnswer, List.length_append, ht, hc, List.length_cons, List.length_nil]

theorem redirectAnswers_length {t c : Bytes} (ht : t.length = 2) (hc : c.length = 2)
    (ips : List Ipv4Addr) : (ips.flatMap (redirectAnswer t c)).length = 16 * ips.length := by
  induction ips with
  | nil => rfl
  | cons ip ips ih =>
      rw [List.flatMap_cons, List.length_append, ih, redirectAnswer_length ht hc, List.length_cons]
      omega

/-- The record of an answer that starts at `start`. -/
def redirectRr (start : Nat) (t c : Bytes) : Rr := ⟨start + 2, u16At t 0, u16At c 0, 4⟩

/-- An answer is read where it was put, with its time to live and address. -/
theorem readRr_redirectAnswer {t c : Bytes} (ht : t.length = 2) (hc : c.length = 2)
    (ip : Ipv4Addr) (front back : Bytes) :
    let q := front ++ (redirectAnswer t c ip ++ back)
    let rr := redirectRr front.length t c
    readRr q front.length = some rr ∧ rrTtl q rr = 60 ∧
      slice q rr.rdataStart rr.rdataEnd = octets ip := by
  intro q rr
  obtain ⟨t0, t1, rfl⟩ : ∃ x y, t = [x, y] := ⟨_, _, eq_pair_of_length ht⟩
  obtain ⟨c0, c1, rfl⟩ : ∃ x y, c = [x, y] := ⟨_, _, eq_pair_of_length hc⟩
  have hname : skipName (redirectAnswer [t0, t1] [c0, c1] ip ++ back) 0 = some 2 := by
    rw [skipName, dif_neg (by simp [redirectAnswer]), if_neg, if_pos]
    · show (0xC0 : UInt8) &&& 0xC0 = 0xC0
      decide
    · show (0xC0 : UInt8) ≠ 0
      decide
  have hread : readRr (redirectAnswer [t0, t1] [c0, c1] ip ++ back) 0 =
      some (redirectRr 0 [t0, t1] [c0, c1]) := by
    refine readRr_eq_some.mpr ⟨hname, ?_, ?_⟩
    · rw [List.length_append, redirectAnswer_length ht hc]
      show 0 + 2 + 10 + 4 ≤ 16 + back.length
      omega
    · have hrd : (4 : Nat) = be16 0x00 0x04 := by decide
      exact congrArg (Rr.mk 2 (be16 t0 t1) (be16 c0 c1)) hrd
  have hrr : rr = (redirectRr 0 [t0, t1] [c0, c1]).shift front.length := rfl
  refine ⟨?_, ?_, ?_⟩
  · have h := readRr_append_add front (redirectAnswer [t0, t1] [c0, c1] ip ++ back) 0
    rw [hread] at h
    exact h
  · have h := u16At_append_add front (redirectAnswer [t0, t1] [c0, c1] ip ++ back)
    rw [rrTtl, hrr, Rr.shift_ttlOffset, u32At, Nat.add_assoc, h, h]
    show be16 0x00 0x00 * 65536 + be16 0x00 0x3C = 60
    decide
  · rw [hrr, Rr.shift_rdataStart, Rr.shift_rdataEnd, slice_append_add]
    rfl

/-- The answers are a chain of records: of the given type, with four bytes of
data, sixty seconds and the addresses in order. -/
theorem redirectAnswers_chain {t c : Bytes} (ht : t.length = 2) (hc : c.length = 2)
    (back : Bytes) : ∀ (ips : List Ipv4Addr) (front q : Bytes),
    q = front ++ (ips.flatMap (redirectAnswer t c) ++ back) →
    ∃ rrs, rrs.length = ips.length ∧ RrsAt q front.length rrs (front.length + 16 * ips.length) ∧
      (∀ rr ∈ rrs, rr.rtype = u16At t 0 ∧ rr.rdlength = 4 ∧ rrTtl q rr = 60) ∧
      rrs.map (fun rr => slice q rr.rdataStart rr.rdataEnd) = ips.map octets
  | [], front, q, hq => ⟨[], rfl, .nil, fun rr hr => absurd hr List.not_mem_nil, rfl⟩
  | ip :: ips, front, q, hq => by
      have hsplit : q = (front ++ redirectAnswer t c ip) ++
          (ips.flatMap (redirectAnswer t c) ++ back) := by
        rw [hq, List.flatMap_cons, List.append_assoc, List.append_assoc]
      obtain ⟨rrs, hlen, hchain, hfields, hdata⟩ :=
        redirectAnswers_chain ht hc back ips (front ++ redirectAnswer t c ip) q hsplit
      have hhead := readRr_redirectAnswer ht hc ip front (ips.flatMap (redirectAnswer t c) ++ back)
      rw [← List.append_assoc, ← hsplit] at hhead
      obtain ⟨hread, httl, hslice⟩ := hhead
      have hnext : (front ++ redirectAnswer t c ip).length =
          (redirectRr front.length t c).rdataEnd := by
        rw [List.length_append, redirectAnswer_length ht hc]
        rfl
      have hlast : (front ++ redirectAnswer t c ip).length + 16 * ips.length =
          front.length + 16 * (ip :: ips).length := by
        rw [List.length_append, redirectAnswer_length ht hc, List.length_cons]
        omega
      rw [hlast, hnext] at hchain
      refine ⟨redirectRr front.length t c :: rrs, by rw [List.length_cons, hlen, List.length_cons],
        .cons hread hchain, ?_, ?_⟩
      · intro rr hr
        rcases List.mem_cons.mp hr with rfl | hr
        · exact ⟨rfl, rfl, httl⟩
        · exact hfields rr hr
      · rw [List.map_cons, List.map_cons, hslice, hdata]

/-! ## Reading the reply -/

/-- The loop over a chain of A records returns their data. -/
theorem parseARecordsLoop_chain {p : Bytes} {pos last : Nat} {rrs : List Rr}
    (h : RrsAt p pos rrs last) (ha : ∀ rr ∈ rrs, rr.rtype = 1 ∧ rr.rdlength = 4) :
    parseARecordsLoop p rrs.length pos =
      rrs.map fun rr => slice p rr.rdataStart rr.rdataEnd := by
  have hall : rrs.filter Rr.isA = rrs :=
    List.filter_eq_self.mpr fun rr hrr => decide_eq_true (ha rr hrr)
  rw [parseARecordsLoop_filter h, hall]

/-- No more addresses are read than answers are announced. -/
theorem length_parseARecords (p : Bytes) : (parseARecords p).length ≤ ancount p := by
  have hloop : ∀ n pos, (parseARecordsLoop p n pos).length ≤ n := by
    intro n
    induction n with
    | zero => exact fun _ => Nat.le_refl 0
    | succ n ih =>
        intro pos
        rw [parseARecordsLoop]
        split
        · exact Nat.zero_le _
        · next rr _ =>
            have hrest := ih rr.rdataEnd
            split
            · exact Nat.succ_le_succ hrest
            · exact Nat.le_succ_of_le hrest
  rw [parseARecords]
  split
  · exact Nat.zero_le _
  · split
    · exact Nat.zero_le _
    · exact hloop _ _

/-- The loop over a chain of records that all live as long. -/
theorem answerTtlLoop_const {p : Bytes} {pos last ttl : Nat} {rrs : List Rr} (hpos : 0 < ttl)
    (h : RrsAt p pos rrs last) (httl : ∀ rr ∈ rrs, rrTtl p rr = ttl) : ∀ acc : Nat,
    answerTtlLoop p rrs.length pos acc = some (last, if rrs = [] then acc else min acc ttl) := by
  induction h with
  | nil => exact fun acc => rfl
  | @cons pos last rr rrs hrr _ ih =>
      intro acc
      rw [List.length_cons, answerTtlLoop, hrr]
      simp only
      rw [httl rr List.mem_cons_self, if_neg (by omega),
        ih (fun r hr => httl r (List.mem_cons_of_mem _ hr)), if_neg (List.cons_ne_nil rr rrs)]
      split
      · rfl
      · congr 2
        omega

/-- What a redirect reply is made of. -/
structure Redirected (p : Bytes) (qnameEnd : Nat) (ips : List Ipv4Addr) (reply : Bytes) : Prop where
  parts : reply = redirectFront p qnameEnd ips.length ++
    (ips.flatMap (redirectAnswer (questionType p qnameEnd) (questionClass p qnameEnd)) ++
      p.drop (qnameEnd + 4))
  fits : 12 < qnameEnd ∧ qnameEnd + 4 ≤ p.length
  questions : qdcount p = 1 → readQuestions p (qdcount p) 12 = some (qnameEnd + 4) ∧
    readQuestions reply (qdcount reply) 12 = some (qnameEnd + 4)
  answers : ∃ rrs, rrs.length = ips.length ∧
    RrsAt reply (qnameEnd + 4) rrs (qnameEnd + 4 + 16 * ips.length) ∧
    (∀ rr ∈ rrs, rr.rtype = u16At p qnameEnd ∧ rr.rdlength = 4 ∧ rrTtl reply rr = 60) ∧
    rrs.map (fun rr => slice reply rr.rdataStart rr.rdataEnd) = ips.map octets

theorem redirected {U : CaseTable} {p : Bytes} {name : Str} {qnameEnd : Nat} {targets : List Str}
    (hname : parseDomain U p 12 = some (name, qnameEnd))
    (hfit : qnameEnd + 4 ≤ p.length) (hips : targets.filterMap parseIpv4Addr ≠ []) :
    ∃ reply, craftRedirectResponse p qnameEnd targets = some reply ∧
      Redirected p qnameEnd (targets.filterMap parseIpv4Addr) reply := by
  obtain ⟨hskip, h12, -⟩ := skipName_of_parseDomain hname
  refine ⟨_, craftRedirectResponse_eq (by omega) hfit hips, ?_⟩
  generalize hips' : targets.filterMap parseIpv4Addr = ips
  generalize hback : ips.flatMap (redirectAnswer (questionType p qnameEnd)
    (questionClass p qnameEnd)) ++ p.drop (qnameEnd + 4) = back
  obtain ⟨hlen, -, -, -, -, hcounts, hsame⟩ :=
    redirectFront_spec (n := ips.length) (Nat.le_of_lt h12) hfit back
  have hqd : qdcount (redirectFront p qnameEnd ips.length ++ back) = qdcount p := by
    rw [qdcount, ← hcounts.u16At (by omega) (by omega)]
    rfl
  have hskip' : skipName (redirectFront p qnameEnd ips.length ++ back) 12 = some qnameEnd :=
    skipName_congr hskip (by rw [List.length_append, hlen]; omega)
      (hsame.mono (by omega) (by omega))
  refine ⟨by rw [hback], ⟨h12, hfit⟩, fun hone => ⟨?_, ?_⟩, ?_⟩
  · rw [hone, readQuestions, hskip]
    simp only
    rw [if_neg (by omega)]
    rfl
  · rw [hqd, hone, readQuestions, hskip']
    simp only
    rw [if_neg (by rw [List.length_append, hlen]; omega)]
    rfl
  · have hchain := redirectAnswers_chain (questionType_length hfit) (questionClass_length hfit)
      (p.drop (qnameEnd + 4)) ips
      (redirectFront p qnameEnd ips.length) _ rfl
    have hfield : u16At (questionType p qnameEnd) 0 = u16At p qnameEnd :=
      u16At_slice (by omega)
    rw [hback, hlen, hfield] at hchain
    exact hchain

section Reading

variable {p reply : Bytes} {qnameEnd : Nat} {ips : List Ipv4Addr}

theorem Redirected.length (h : Redirected p qnameEnd ips reply) : qnameEnd + 4 ≤ reply.length := by
  obtain ⟨hlen, -⟩ := redirectFront_spec (n := ips.length) (Nat.le_of_lt h.fits.1) h.fits.2 []
  rw [h.parts, List.length_append, hlen]
  omega

theorem Redirected.ancount (h : Redirected p qnameEnd ips reply) :
    ancount reply = ips.length % 65536 := by
  rw [h.parts]
  exact (redirectFront_spec (Nat.le_of_lt h.fits.1) h.fits.2 _ _).2.2.2.2.1

theorem Redirected.parseARecords (h : Redirected p qnameEnd ips reply) (hqd : qdcount p = 1)
    (hmax : ips.length ≤ 65535) (hqtype : u16At p qnameEnd = 1) :
    parseARecords reply = ips.map octets := by
  obtain ⟨rrs, hlen, hchain, hfields, hdata⟩ := h.answers
  have hcount : DnsRelay.ancount reply = rrs.length := by
    rw [h.ancount, hlen, Nat.mod_eq_of_lt (by omega)]
  have hlong := h.length
  have h12 := h.fits.1
  rw [DnsRelay.parseARecords, if_neg (by omega),
    skipQuestions_of_readQuestions (h.questions hqd).2]
  simp only
  rw [hcount, parseARecordsLoop_chain hchain, hdata]
  intro rr hr
  obtain ⟨htype, hlen, -⟩ := hfields rr hr
  exact ⟨htype.trans hqtype, hlen⟩

/-- The reply may be cached for a minute. -/
theorem Redirected.responseCacheTtl (h : Redirected p qnameEnd ips reply) (hqd : qdcount p = 1)
    (hmax : ips.length ≤ 65535) (hne : ips ≠ []) : responseCacheTtl reply = some 60 := by
  obtain ⟨rrs, hlen, hchain, hfields, -⟩ := h.answers
  have hcount : DnsRelay.ancount reply = rrs.length := by
    rw [h.ancount, hlen, Nat.mod_eq_of_lt (by omega)]
  have hpos : 0 < rrs.length := by
    rw [hlen]
    exact List.length_pos_of_ne_nil hne
  have hheader : cacheableHeader reply = true := by
    have hlong := h.length
    have h12 := h.fits.1
    obtain ⟨-, -, hb2, hb3, -⟩ := redirectFront_spec (n := ips.length) (Nat.le_of_lt h12) h.fits.2
      (ips.flatMap (redirectAnswer (questionType p qnameEnd) (questionClass p qnameEnd)) ++
        p.drop (qnameEnd + 4))
    rw [← h.parts] at hb2 hb3
    rw [cacheableHeader, hb2, hb3, decide_eq_true (show 12 ≤ reply.length by omega)]
    decide
  have hloop := answerTtlLoop_const (by decide) hchain (fun rr hr => (hfields rr hr).2.2) u32Max
  rw [if_neg (List.ne_nil_of_length_pos hpos)] at hloop
  rw [DnsRelay.responseCacheTtl, hheader, (h.questions hqd).2]
  simp only [Bool.not_true, Bool.false_eq_true, if_false]
  rw [hcount, hloop]
  simp only
  rw [if_pos hpos]
  rfl

/-- The OPT record of the query is found behind the answers. -/
theorem Redirected.findOptRecord (h : Redirected p qnameEnd ips reply) (hqd : qdcount p = 1)
    (hmax : ips.length ≤ 65535) (han : DnsRelay.ancount p = 0) (hns : nscount p = 0) :
    findOptRecord reply = (findOptRecord p).map (EdnsOpt.shift (16 * ips.length)) := by
  obtain ⟨rrs, hlen, hchain, -⟩ := h.answers
  have hlong := h.length
  obtain ⟨h12, hfit⟩ := h.fits
  obtain ⟨hfront, -, -, -, -, -, hsame⟩ := redirectFront_spec (n := ips.length) (Nat.le_of_lt h12)
    hfit (ips.flatMap (redirectAnswer (questionType p qnameEnd) (questionClass p qnameEnd)) ++
      p.drop (qnameEnd + 4))
  rw [← h.parts] at hsame
  have hns' : nscount reply = 0 := by
    rw [nscount, ← hsame.u16At (by omega) (by omega)]
    exact hns
  have har : arcount reply = arcount p := (hsame.u16At (by omega) (by omega)).symm
  have hstart : additionalStart p = some (qnameEnd + 4) := by
    rw [additionalStart, skipQuestions_of_readQuestions (h.questions hqd).1, han, hns]
    rfl
  have hstart' : additionalStart reply = some (qnameEnd + 4 + 16 * ips.length) := by
    rw [additionalStart, skipQuestions_of_readQuestions (h.questions hqd).2, hns', h.ancount,
      Nat.mod_eq_of_lt (by omega)]
    exact skipRrs_eq_some.mpr ⟨rrs, hlen, hchain⟩
  -- the additional section is the same list of bytes in both packets
  have hloop : findOptLoop p (arcount p) (qnameEnd + 4) =
      (findOptLoop (p.drop (qnameEnd + 4)) (arcount p) 0).map (EdnsOpt.shift (qnameEnd + 4)) := by
    have happ := findOptLoop_append_add (p.take (qnameEnd + 4)) (p.drop (qnameEnd + 4))
      (arcount p) 0
    rw [List.take_append_drop, List.length_take_of_le hfit] at happ
    exact happ
  have hloop' : findOptLoop reply (arcount p) (qnameEnd + 4 + 16 * ips.length) =
      (findOptLoop (p.drop (qnameEnd + 4)) (arcount p) 0).map
        (EdnsOpt.shift (qnameEnd + 4 + 16 * ips.length)) := by
    have happ := findOptLoop_append_add (redirectFront p qnameEnd ips.length ++ ips.flatMap
      (redirectAnswer (questionType p qnameEnd) (questionClass p qnameEnd)))
      (p.drop (qnameEnd + 4)) (arcount p) 0
    rw [List.append_assoc, ← h.parts, List.length_append, hfront,
      redirectAnswers_length (questionType_length hfit) (questionClass_length hfit)] at happ
    exact happ
  rw [DnsRelay.findOptRecord, DnsRelay.findOptRecord, if_neg (by omega), if_neg (by omega), hstart,
    hstart']
  simp only
  rw [har, hloop, hloop', Option.map_map]
  congr 1
  funext opt
  rw [Function.comp_apply, EdnsOpt.shift_shift, Nat.add_comm]

/-- Everything behind the question is there behind the answers. -/
theorem Redirected.drop (h : Redirected p qnameEnd ips reply) :
    reply.drop (qnameEnd + 4 + 16 * ips.length) = p.drop (qnameEnd + 4) := by
  obtain ⟨h12, hfit⟩ := h.fits
  obtain ⟨hfront, -⟩ := redirectFront_spec (n := ips.length) (Nat.le_of_lt h12) hfit []
  have hlen : (redirectFront p qnameEnd ips.length ++ ips.flatMap (redirectAnswer
      (questionType p qnameEnd) (questionClass p qnameEnd))).length =
        qnameEnd + 4 + 16 * ips.length := by
    rw [List.length_append, hfront,
      redirectAnswers_length (questionType_length hfit) (questionClass_length hfit)]
  rw [h.parts, ← List.append_assoc, ← hlen, List.drop_left]

/-- The identifier and the question are those of the query. -/
theorem Redirected.front (h : Redirected p qnameEnd ips reply) :
    reply.take 2 = p.take 2 ∧ slice reply 12 (qnameEnd + 4) = slice p 12 (qnameEnd + 4) := by
  obtain ⟨h12, hfit⟩ := h.fits
  have hlong := h.length
  obtain ⟨-, hid, -, -, -, -, hsame⟩ := redirectFront_spec (n := ips.length) (Nat.le_of_lt h12) hfit
    (ips.flatMap (redirectAnswer (questionType p qnameEnd) (questionClass p qnameEnd)) ++
      p.drop (qnameEnd + 4))
  rw [← h.parts] at hid hsame
  exact ⟨hid, (slice_congr hfit hlong (hsame.mono (by omega) (Nat.le_refl _))).symm⟩

end Reading

/-! ## Queries for an address -/

/-- A query for an A record with one question gets a reply that decodes to the
configured addresses, may be cached for a minute, and keeps the identifier, the
question, the OPT record and all other records of the query. -/
theorem redirect_reply_decodes {U : CaseTable} {p : Bytes} {name : Str} {qnameEnd : Nat}
    {targets : List Str} (hqd : qdcount p = 1) (han : ancount p = 0) (hns : nscount p = 0)
    (hname : parseDomain U p 12 = some (name, qnameEnd)) (hfit : qnameEnd + 4 ≤ p.length)
    (hqtype : u16At p qnameEnd = 1)
    (hsome : 1 ≤ (targets.filterMap parseIpv4Addr).length)
    (hmax : (targets.filterMap parseIpv4Addr).length ≤ 65535) :
    ∃ reply, craftRedirectResponse p qnameEnd targets = some reply ∧
      parseARecords reply = (targets.filterMap parseIpv4Addr).map octets ∧
      responseCacheTtl reply = some 60 ∧
      findOptRecord reply = (findOptRecord p).map
        (EdnsOpt.shift (16 * (targets.filterMap parseIpv4Addr).length)) ∧
      reply.take 2 = p.take 2 ∧ slice reply 12 (qnameEnd + 4) = slice p 12 (qnameEnd + 4) ∧
      reply.drop (qnameEnd + 4 + 16 * (targets.filterMap parseIpv4Addr).length) =
        p.drop (qnameEnd + 4) := by
  have hne : targets.filterMap parseIpv4Addr ≠ [] := List.ne_nil_of_length_pos hsome
  obtain ⟨reply, hcraft, h⟩ := redirected hname hfit hne
  exact ⟨reply, hcraft, h.parseARecords hqd hmax hqtype, h.responseCacheTtl hqd hmax hne,
    h.findOptRecord hqd hmax han hns, h.front.1, h.front.2, h.drop⟩

theorem redirect_reply_decodes_edns :
    let p := ednsQuery []
    let targets := ["192.0.2.7".toList, "here".toList, "192.0.2.8".toList]
    (findOptRecord p).isSome ∧ ∃ reply, craftRedirectResponse p 15 targets = some reply ∧
      parseARecords reply = [[192, 0, 2, 7], [192, 0, 2, 8]] ∧
      responseCacheTtl reply = some 60 ∧
      findOptRecord reply = (findOptRecord p).map (EdnsOpt.shift 32) ∧
      reply.take 2 = p.take 2 ∧ slice reply 12 19 = slice p 12 19 ∧
      reply.drop 51 = p.drop 19 := by
  intro p targets
  have hips : targets.filterMap parseIpv4Addr = [⟨192, 0, 2, 7⟩, ⟨192, 0, 2, 8⟩] := by decide
  have h := @redirect_reply_decodes .ascii p ['a'] 15 targets (by decide) (by decide) (by decide)
    (by decide) (by decide) (by decide) (by rw [hips]; decide) (by rw [hips]; decide)
  rw [hips] at h
  exact ⟨by decide, h⟩

/-! ## Queries of every type -/

/-- One of the records that are read from `pos` on, as many as the header
announces answers. -/
def AnswerRecordAt (p : Bytes) (pos : Nat) (rr : Rr) : Prop :=
  ∃ before mid, before.length < ancount p ∧ RrsAt p pos before mid ∧ readRr p mid = some rr

/-- A record that is read in the answer section. -/
def AnswerRecord (p : Bytes) (rr : Rr) : Prop :=
  ∃ pos, skipQuestions p (qdcount p) 12 = some pos ∧ AnswerRecordAt p pos rr

/-- An A record with an address. -/
def Rr.IsA (rr : Rr) : Prop := rr.rtype = 1 ∧ rr.rdlength = 4

/-- An answer record is one of a chain that starts where the answers do. -/
theorem AnswerRecordAt.mem {p : Bytes} {pos last : Nat} {rr : Rr} (h : AnswerRecordAt p pos rr)
    {rrs : List Rr} (hchain : RrsAt p pos rrs last) (hlen : ancount p ≤ rrs.length) :
    rr ∈ rrs := by
  obtain ⟨before, mid, hcount, hbefore, hread⟩ := h
  have hlong : RrsAt p pos (before ++ [rr]) rr.rdataEnd := hbefore.append (.cons hread .nil)
  have hsplit : rrs.take (before.length + 1) ++ rrs.drop (before.length + 1) = rrs :=
    List.take_append_drop _ _
  rw [← hsplit] at hchain
  obtain ⟨mid', htake, -⟩ := hchain.split
  have hn : (before ++ [rr]).length = (rrs.take (before.length + 1)).length := by
    rw [List.length_append, List.length_take_of_le (by omega)]
    rfl
  obtain ⟨heq, -⟩ := hlong.unique htake hn
  have hmem : rr ∈ rrs.take (before.length + 1) := by
    rw [← heq]
    exact List.mem_append_right _ (List.mem_singleton.mpr rfl)
  exact List.mem_of_mem_take hmem

/-- The first record of a chain is an answer record. -/
theorem AnswerRecordAt.head {p : Bytes} {pos last : Nat} {rr : Rr} {rrs : List Rr}
    (hchain : RrsAt p pos (rr :: rrs) last) (hpos : 0 < ancount p) : AnswerRecordAt p pos rr := by
  cases hchain with
  | cons hread _ => exact ⟨[], pos, hpos, .nil, hread⟩

/-- The answers that are written for a question are A records exactly when it
asks for one or none is announced. -/
theorem Redirected.types_iff {p reply : Bytes} {qnameEnd : Nat} {ips : List Ipv4Addr}
    (h : Redirected p qnameEnd ips reply) :
    (∀ rr, AnswerRecordAt reply (qnameEnd + 4) rr → rr.IsA) ↔
      u16At p qnameEnd = 1 ∨ ips.length % 65536 = 0 := by
  obtain ⟨rrs, hlen, hchain, hfields, -⟩ := h.answers
  have hcount := h.ancount
  constructor
  · intro hall
    by_contra hother
    have hpos : 0 < DnsRelay.ancount reply := by omega
    cases rrs with
    | nil =>
        rw [← hlen, List.length_nil] at hcount
        omega
    | cons rr rrs =>
        have hA := hall rr (.head hchain hpos)
        exact hother (.inl ((hfields rr List.mem_cons_self).1.symm.trans hA.1))
  · rintro hcond rr hrr
    have hmem : rr ∈ rrs := hrr.mem hchain (by
      rw [hcount, hlen]
      exact Nat.mod_le _ _)
    obtain ⟨htype, hdata, -⟩ := hfields rr hmem
    obtain hqtype | hzero := hcond
    · exact ⟨htype.trans hqtype, hdata⟩
    · obtain ⟨before, mid, hlt, -⟩ := hrr
      rw [hcount, hzero] at hlt
      exact absurd hlt (Nat.not_lt_zero _)

/-- The rules send the name of a query elsewhere. -/
theorem openQuery_redirect {U : CaseTable} {q : Query} {domain : Str} {qnameEnd : Nat}
    {targets : List Str} (hname : parseDomain U q.payload 12 = some (domain, qnameEnd))
    (hrule : checkRules U domain q.ruleTrie = .redirect targets)
    (relayPicker : Option RelayPicker) : openQuery U relayPicker q =
      .done ((craftRedirectResponse q.payload qnameEnd targets).map (⟨·, .redirect⟩)) := by
  obtain ⟨-, h12, hle⟩ := skipName_of_parseDomain hname
  rw [openQuery, if_neg (by omega), hname]
  simp only [hrule]

/-- A query asks for a redirected name.  All answers of the reply are A records
with an address exactly when the query asks for an A record, when it is cut off
before its type, or when the number of answers is zero in sixteen bits.  The
answers are written behind the first question, and the walkers read them there
if it is the only one. -/
theorem redirect_types_iff {U : CaseTable} {relayPicker : Option RelayPicker} {q : Query}
    {domain : Str} {qnameEnd : Nat} {targets : List Str}
    (hname : parseDomain U q.payload 12 = some (domain, qnameEnd))
    (hrule : checkRules U domain q.ruleTrie = .redirect targets)
    (hips : targets.filterMap parseIpv4Addr ≠ []) :
    let typed := u16At q.payload qnameEnd = 1 ∨ q.payload.length < qnameEnd + 4 ∨
      (targets.filterMap parseIpv4Addr).length % 65536 = 0
    ((∀ reply, openQuery U relayPicker q = .done (some reply) →
        ∀ rr, AnswerRecordAt reply.packet (qnameEnd + 4) rr → rr.IsA) ↔ typed) ∧
      (qdcount q.payload = 1 → ((∀ reply, openQuery U relayPicker q = .done (some reply) →
        ∀ rr, AnswerRecord reply.packet rr → rr.IsA) ↔ typed)) := by
  intro typed
  have hopen := openQuery_redirect hname hrule relayPicker
  by_cases hfit : q.payload.length < qnameEnd + 4
  · have hnone : craftRedirectResponse q.payload qnameEnd targets = none := by
      rw [craftRedirectResponse, if_pos (.inr hfit)]
    have hvoid : ∀ P : Reply → Prop, ∀ reply, openQuery U relayPicker q = .done (some reply) →
        P reply := by
      intro P reply hreply
      rw [hopen, hnone] at hreply
      cases hreply
    exact ⟨iff_of_true (hvoid _) (.inr (.inl hfit)),
      fun _ => iff_of_true (hvoid _) (.inr (.inl hfit))⟩
  · obtain ⟨packet, hcraft, h⟩ := redirected hname (Nat.le_of_not_lt hfit) hips
    have hreply : ∀ P : Bytes → Prop, (∀ reply, openQuery U relayPicker q = .done (some reply) →
        P reply.packet) ↔ P packet := by
      intro P
      rw [hopen, hcraft]
      constructor
      · exact fun hall => hall _ rfl
      · intro hP reply hreply
        cases hreply
        exact hP
    have htyped : u16At q.payload qnameEnd = 1 ∨
        (targets.filterMap parseIpv4Addr).length % 65536 = 0 ↔ typed :=
      or_congr_right (or_iff_right hfit).symm
    refine ⟨(hreply fun b => ∀ rr, AnswerRecordAt b (qnameEnd + 4) rr → rr.IsA).trans
      (h.types_iff.trans htyped), fun hqd => ?_⟩
    have hquestions := skipQuestions_of_readQuestions (h.questions hqd).2
    refine (hreply fun b => ∀ rr, AnswerRecord b rr → rr.IsA).trans
      (Iff.trans ?_ (h.types_iff.trans htyped))
    constructor
    · exact fun hall rr hrr => hall rr ⟨_, hquestions, hrr⟩
    · rintro hall rr ⟨pos, hpos, hrr⟩
      cases hquestions.symm.trans hpos
      exact hall rr hrr

/-- The rules send the name `a` to an address. -/
def redirectingTrie : DomainTrie := DomainTrie.insertRedirect .ascii .new ['a'] "192.0.2.7".toList

/-- The query for a record of a type at the name `a`. -/
def typedQuery (qtype : UInt8) : Query :=
  ⟨queryHeader ++ [1, 0x61, 0] ++ [0, qtype, 0, 1], .v4 ⟨127, 0, 0, 1⟩ 53, redirectingTrie⟩

theorem redirect_types_address :
    (∃ reply, openQuery .ascii none (typedQuery 1) = .done (some reply)) ∧
      ∀ reply, openQuery .ascii none (typedQuery 1) = .done (some reply) →
        ∀ rr, AnswerRecord reply.packet rr → rr.IsA := by
  have hname : parseDomain .ascii (typedQuery 1).payload 12 = some (['a'], 15) := by decide
  have hrule : checkRules .ascii ['a'] (typedQuery 1).ruleTrie =
      .redirect ["192.0.2.7".toList] := by decide
  have hreply : openQuery .ascii none (typedQuery 1) = .done (some ⟨queryHeader.take 2 ++
      [0x81, 0x80, 0, 1, 0, 1, 0, 0, 0, 0] ++ [1, 0x61, 0, 0, 1, 0, 1] ++
      redirectAnswer [0, 1] [0, 1] ⟨192, 0, 2, 7⟩, .redirect⟩) := by decide +kernel
  exact ⟨⟨_, hreply⟩, ((redirect_types_iff hname hrule (by decide)).2 (by decide)).mpr
    (.inl (by decide))⟩

/-- The query for an IPv6 address gets an AAAA record of four bytes. -/
theorem ipv6_question_gets_four_bytes :
    ∃ packet rr, openQuery .ascii none (typedQuery 28) = .done (some ⟨packet, .redirect⟩) ∧
      AnswerRecord packet rr ∧ rr.rtype = 28 ∧ rr.rdlength = 4 ∧ ¬rr.IsA := by
  have hreply : openQuery .ascii none (typedQuery 28) = .done (some ⟨queryHeader.take 2 ++
      [0x81, 0x80, 0, 1, 0, 1, 0, 0, 0, 0] ++ [1, 0x61, 0, 0, 28, 0, 1] ++
      redirectAnswer [0, 28] [0, 1] ⟨192, 0, 2, 7⟩, .redirect⟩) := by decide +kernel
  refine ⟨_, redirectRr 19 [0, 28] [0, 1], hreply,
    ⟨19, by decide, [], 19, by decide, .nil, by decide⟩, by decide, rfl, fun h => ?_⟩
  exact absurd h.1 (by decide)

end DnsRelay
