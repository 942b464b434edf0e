import DnsRelay.Shared.Edns

/-!
# Responses

The walkers over the answer and authority sections of a response.
`responseHasOnlyUnspecifiedAddresses` is the test for a sinkhole,
`responseCacheTtl` decides whether and how long a response is cached, and
`ageResponseTtls` lowers the time to live fields of a cached one.

`Aged` says what ageing does to the bytes of a packet.  `Rewritten` relates a
packet to what becomes of it when identifiers are replaced and time to live
fields lowered.  The sinkhole test does not see such changes.

Times are counted in nanoseconds.
-/

namespace DnsRelay

open Lib

/-! ## Transaction identifiers -/

/-- `with_txid`. -/
def withTxid (packet : Bytes) (txid : UInt8 × UInt8) : Bytes :=
  if 2 ≤ packet.length then overwrite packet 0 [txid.1, txid.2] else packet

@[simp] theorem withTxid_length (p : Bytes) (txid : UInt8 × UInt8) :
    (withTxid p txid).length = p.length := by
  unfold withTxid
  split
  · exact overwrite_length (by simpa)
  · rfl

/-- A new identifier leaves every later byte alone. -/
theorem byteAt_withTxid {p : Bytes} {txid : UInt8 × UInt8} {i : Nat} (hi : 2 ≤ i) :
    byteAt (withTxid p txid) i = byteAt p i := by
  unfold withTxid
  split
  · exact byteAt_overwrite_after (by simpa) hi
  · rfl

/-! ## The sinkhole test -/

def Rr.isAddress (rr : Rr) : Bool :=
  (rr.rtype = 1 && rr.rdlength = 4) || (rr.rtype = 28 && rr.rdlength = 16)

/-- Whether the data of a record has a byte other than zero. -/
def rdataNonZero (p : Bytes) (rr : Rr) : Bool :=
  (slice p rr.rdataStart rr.rdataEnd).any fun byte => byte ≠ 0

/-- The loop over the answers.  It counts addresses and notes whether one of
them is specified. -/
def addressLoop (packet : Bytes) : Nat → Nat → Nat → Bool → Option (Nat × Bool)
  | 0, _, addressCount, hasNonUnspecified => some (addressCount, hasNonUnspecified)
  | n + 1, offset, addressCount, hasNonUnspecified =>
      match readRr packet offset with
      | none => none
      | some rr =>
          if rr.isAddress then
            addressLoop packet n rr.rdataEnd (addressCount + 1)
              (hasNonUnspecified || rdataNonZero packet rr)
          else addressLoop packet n rr.rdataEnd addressCount hasNonUnspecified

/-- `response_has_only_unspecified_addresses`. -/
def responseHasOnlyUnspecifiedAddresses (packet : Bytes) : Bool :=
  if packet.length < 12 then false
  else
    match readQuestions packet (qdcount packet) 12 with
    | none => false
    | some offset =>
        match addressLoop packet (ancount packet) offset 0 false with
        | none => false
        | some (addressCount, hasNonUnspecified) => decide (0 < addressCount) && !hasNonUnspecified

/-- `parse_a_records`: the loop over the answers.  It stops at the first record
that does not fit. -/
def parseARecordsLoop (buf : Bytes) : Nat → Nat → List Bytes
  | 0, _ => []
  | n + 1, pos =>
      match readRr buf pos with
      | none => []
      | some rr =>
          (if rr.rtype = 1 ∧ rr.rdlength = 4 then [slice buf rr.rdataStart rr.rdataEnd] else []) ++
            parseARecordsLoop buf n rr.rdataEnd

/-- `parse_a_records`, each address as its four bytes. -/
def parseARecords (buf : Bytes) : List Bytes :=
  if buf.length < 12 then []
  else
    match skipQuestions buf (qdcount buf) 12 with
    | none => []
    | some pos => parseARecordsLoop buf (ancount buf) pos

/-! ## Time to live -/

def u32Max : Nat := 4294967295

def rrTtl (p : Bytes) (rr : Rr) : Nat := u32At p rr.ttlOffset

/-- The smallest time to live of the answers.  A zero refuses the packet. -/
def answerTtlLoop (packet : Bytes) : Nat → Nat → Nat → Option (Nat × Nat)
  | 0, offset, answerTtl => some (offset, answerTtl)
  | n + 1, offset, answerTtl =>
      match readRr packet offset with
      | none => none
      | some rr =>
          if rrTtl packet rr = 0 then none
          else answerTtlLoop packet n rr.rdataEnd (min answerTtl (rrTtl packet rr))

/-- The time to live that a start of authority record gives to a negative
answer. -/
def soaTtl (packet : Bytes) (rr : Rr) : Option Nat :=
  match skipName packet rr.rdataStart with
  | none => none
  | some mnameEnd =>
      match skipName packet mnameEnd with
      | none => none
      | some rnameEnd =>
          if rr.rdataEnd < rnameEnd + 20 then none
          else
            let negativeTtl := min (rrTtl packet rr) (u32At packet (rnameEnd + 16))
            if 0 < negativeTtl then some negativeTtl else none

def negativeTtlLoop (packet : Bytes) : Nat → Nat → Option Nat
  | 0, _ => none
  | n + 1, offset =>
      match readRr packet offset with
      | none => none
      | some rr => if rr.rtype = 6 then soaTtl packet rr else negativeTtlLoop packet n rr.rdataEnd

/-- A complete response without an error other than a missing name. -/
def cacheableHeader (packet : Bytes) : Bool :=
  decide (12 ≤ packet.length) && decide (byteAt packet 2 &&& 0x80 ≠ 0) &&
    decide (byteAt packet 2 &&& 0x02 = 0) &&
    (decide (byteAt packet 3 &&& 0x0F = 0) || decide (byteAt packet 3 &&& 0x0F = 3))

/-- `response_cache_ttl`. -/
def responseCacheTtl (packet : Bytes) : Option Nat :=
  if !cacheableHeader packet then none
  else
    match readQuestions packet (qdcount packet) 12 with
    | none => none
    | some offset =>
        match answerTtlLoop packet (ancount packet) offset u32Max with
        | none => none
        | some (offset, answerTtl) =>
            if 0 < ancount packet then if answerTtl ≠ u32Max then some answerTtl else none
            else negativeTtlLoop packet (nscount packet) offset

/-! ## Ageing -/

/-- `Duration::as_secs`. -/
def asSecs (d : Nat) : Nat := d / 1000000000

/-- A time to live after some seconds, or zero in a stale packet. -/
def remainingTtl (stale : Bool) (elapsed ttl : Nat) : Nat := if stale then 0 else ttl - elapsed

/-- The loop of `age_response_ttls` over the answers and authority records.
The field is written before the end of the record is checked. -/
def ageTtlsLoop (elapsed : Nat) (stale : Bool) : Nat → Nat → Bytes → Bytes × Bool
  | 0, _, packet => (packet, true)
  | n + 1, offset, packet =>
      match skipName packet offset with
      | none => (packet, false)
      | some nameEnd =>
          if packet.length < nameEnd + 10 then (packet, false)
          else
            let written := overwrite packet (nameEnd + 4)
              (toBe32 (remainingTtl stale elapsed (u32At packet (nameEnd + 4))))
            let next := nameEnd + 10 + u16At written (nameEnd + 8)
            if written.length < next then (written, false)
            else ageTtlsLoop elapsed stale n next written

/-- `age_response_ttls`: the packet afterwards and the result. -/
def ageResponseTtls (packet : Bytes) (elapsed : Nat) (stale : Bool) : Bytes × Bool :=
  if packet.length < 12 then (packet, false)
  else
    match readQuestions packet (qdcount packet) 12 with
    | none => (packet, false)
    | some offset =>
        ageTtlsLoop (min (asSecs elapsed) u32Max) stale (ancount packet + nscount packet) offset
          packet

/-! ## What ageing does -/

/-- A position outside of all time to live fields. -/
def OutsideTtls (rrs : List Rr) (i : Nat) : Prop :=
  ∀ rr ∈ rrs, i < rr.ttlOffset ∨ rr.ttlOffset + 4 ≤ i

/-- `q` is `p` with the time to live of the given records lowered and every
other byte as it was. -/
structure Aged (stale : Bool) (elapsed : Nat) (rrs : List Rr) (p q : Bytes) : Prop where
  length : q.length = p.length
  ttl : ∀ rr ∈ rrs, rrTtl q rr = remainingTtl stale elapsed (rrTtl p rr)
  other : ∀ i, OutsideTtls rrs i → byteAt q i = byteAt p i

theorem remainingTtl_lt (stale : Bool) (elapsed : Nat) (p : Bytes) (i : Nat) :
    remainingTtl stale elapsed (u32At p i) < 4294967296 := by
  have := u32At_lt p i
  unfold remainingTtl
  split <;> omega

/-- The cap on the elapsed seconds makes no difference to a 32-bit field. -/
theorem remainingTtl_cap (stale : Bool) (secs : Nat) (p : Bytes) (i : Nat) :
    remainingTtl stale (min secs u32Max) (u32At p i) = remainingTtl stale secs (u32At p i) := by
  have := u32At_lt p i
  unfold remainingTtl u32Max
  split
  · rfl
  · omega

theorem rrTtl_congr {p q : Bytes} {rr : Rr}
    (h : SameOn rr.ttlOffset (rr.ttlOffset + 4) p q) : rrTtl p rr = rrTtl q rr :=
  h.u32At (Nat.le_refl _) (Nat.le_refl _)

/-- Ageing the first record and then the later ones ages all of them. -/
theorem aged_cons {elapsed : Nat} {stale : Bool} {p q written : Bytes} {rr : Rr} {rrs : List Rr}
    (hfit : rr.ttlOffset + 4 ≤ p.length)
    (hw : overwrite p rr.ttlOffset (toBe32 (remainingTtl stale elapsed (rrTtl p rr))) = written)
    (hlater : ∀ r ∈ rrs, rr.ttlOffset + 4 ≤ r.ttlOffset)
    (haged : Aged stale elapsed rrs written q) : Aged stale elapsed (rr :: rrs) p q := by
  have hfit' : rr.ttlOffset + (toBe32 (remainingTtl stale elapsed (rrTtl p rr))).length ≤
      p.length := by rwa [toBe32_length]
  have hout : ∀ i, i < rr.ttlOffset ∨ rr.ttlOffset + 4 ≤ i → byteAt written i = byteAt p i :=
    fun i hi => hw ▸ byteAt_overwrite_outside hfit' hi
  constructor
  case length => rw [haged.length, ← hw, overwrite_length hfit']
  case ttl =>
    intro r hr
    cases hr with
    | head =>
        have hsame : rrTtl q rr = rrTtl written rr := by
          refine rrTtl_congr fun i h1 h2 => haged.other i fun r hr => .inl ?_
          have := hlater r hr
          omega
        rw [hsame, ← hw]
        exact u32At_overwrite hfit (remainingTtl_lt ..)
    | tail _ hr =>
        have hsame : rrTtl written r = rrTtl p r := by
          refine rrTtl_congr fun i h1 h2 => hout i (.inr ?_)
          have := hlater r hr
          omega
        rw [haged.ttl r hr, hsame]
  case other =>
    intro i hi
    rw [haged.other i fun r hr => hi r (List.mem_cons_of_mem _ hr),
      hout i (hi rr (List.mem_cons_self ..))]

theorem lowered_ttl {elapsed nameEnd : Nat} {stale : Bool} {p written : Bytes}
    (h10 : nameEnd + 10 ≤ p.length) (hw : overwrite p (nameEnd + 4)
      (toBe32 (remainingTtl stale elapsed (u32At p (nameEnd + 4)))) = written) :
    written.length = p.length ∧ u16At written (nameEnd + 8) = u16At p (nameEnd + 8) ∧
      ∀ i, i < nameEnd + 4 ∨ nameEnd + 4 + 4 ≤ i → byteAt written i = byteAt p i := by
  have hfit : nameEnd + 4 + (toBe32 (remainingTtl stale elapsed
      (u32At p (nameEnd + 4)))).length ≤ p.length := by
    rw [toBe32_length]
    omega
  have hout : ∀ i, i < nameEnd + 4 ∨ nameEnd + 4 + 4 ≤ i → byteAt written i = byteAt p i :=
    fun i hi => hw ▸ byteAt_overwrite_outside hfit hi
  refine ⟨hw ▸ overwrite_length hfit, ?_, hout⟩
  rw [u16At, u16At, hout _ (by omega), hout _ (by omega)]

/-- A successful walk ages the records it passes. -/
theorem ageTtlsLoop_spec {elapsed : Nat} {stale : Bool} {q : Bytes} :
    ∀ {n offset : Nat} {p : Bytes}, ageTtlsLoop elapsed stale n offset p = (q, true) →
      ∃ rrs last, rrs.length = n ∧ RrsAt p offset rrs last ∧ Aged stale elapsed rrs p q := by
  intro n
  induction n with
  | zero =>
      intro offset p h
      obtain rfl : p = q := congrArg Prod.fst h
      exact ⟨[], offset, rfl, .nil, rfl, nofun, fun _ _ => rfl⟩
  | succ n ih =>
      intro offset p h
      rw [ageTtlsLoop] at h
      cases hname : skipName p offset with
      | none => simp [hname] at h
      | some nameEnd =>
          simp only [hname] at h
          split at h
          · cases congrArg Prod.snd h
          · next hfixed =>
              generalize hw : overwrite p (nameEnd + 4)
                (toBe32 (remainingTtl stale elapsed (u32At p (nameEnd + 4)))) = written at h
              obtain ⟨hlen, hrd, hout⟩ := lowered_ttl (by omega) hw
              rw [hrd] at h
              split at h
              · cases congrArg Prod.snd h
              · next hend =>
                  -- the head of the chain, read in the packet before the write
                  have hstart : (rrFields p nameEnd).nameEnd = nameEnd := rfl
                  have hnext : (rrFields p nameEnd).rdataEnd =
                    nameEnd + 10 + u16At p (nameEnd + 8) := rfl
                  have hrr : readRr p offset = some (rrFields p nameEnd) :=
                    readRr_eq_some.mpr ⟨hname, by omega, rfl⟩
                  obtain ⟨rrs, last, hn, hchain, haged⟩ := ih h
                  have hb := readRr_bounds hrr
                  have hlast := hchain.last_le_length (by omega)
                  have hlater : ∀ r ∈ rrs, (rrFields p nameEnd).ttlOffset + 4 ≤ r.ttlOffset := by
                    intro r hr
                    have := hchain.mem_bounds hr
                    rw [Rr.ttlOffset, Rr.ttlOffset]
                    omega
                  have hchain' : RrsAt p (rrFields p nameEnd).rdataEnd rrs last := by
                    refine RrsAt.congr hchain (by omega) fun i hi _ _ => hout i ?_
                    right
                    exact Nat.le_trans (by omega) hi
                  refine ⟨rrFields p nameEnd :: rrs, last, by simp [hn], .cons hrr hchain', ?_⟩
                  have hfit : (rrFields p nameEnd).ttlOffset + 4 ≤ p.length := by
                    rw [Rr.ttlOffset, hstart]
                    omega
                  exact aged_cons hfit hw hlater haged

/-- The answers and authority records of a packet, as far as it can be
walked. -/
structure Walk (p : Bytes) where
  offset : Nat
  rrs : List Rr
  last : Nat
  questions : readQuestions p (qdcount p) 12 = some offset
  count : rrs.length = ancount p + nscount p
  chain : RrsAt p offset rrs last

/-- No time to live field lies before the first record. -/
theorem RrsAt.sameOn_front {p q : Bytes} {lo offset last : Nat} {rrs : List Rr}
    (h : RrsAt p offset rrs last)
    (hsame : ∀ i, lo ≤ i → i < offset → OutsideTtls rrs i → byteAt p i = byteAt q i) :
    SameOn lo offset p q := by
  intro i h1 h2
  refine hsame i h1 h2 fun rr hr => .inl ?_
  have := h.mem_bounds hr
  rw [Rr.ttlOffset]
  omega

/-- Packets that agree from the flags on, but for the time to live of the
records, are walked alike. -/
theorem Walk.congr {p q : Bytes} (w : Walk p) (h12 : 12 ≤ p.length) (hlen : q.length = p.length)
    (hsame : ∀ i, 2 ≤ i → OutsideTtls w.rrs i → byteAt p i = byteAt q i) :
    ∃ w' : Walk q, w'.rrs = w.rrs ∧ w'.offset = w.offset ∧ w'.last = w.last ∧
      ancount q = ancount p := by
  have hoff := readQuestions_le w.questions
  have hoff' := readQuestions_le_length w.questions h12
  have hlast := w.chain.last_le_length hoff'
  have hfront : SameOn 2 w.offset p q := w.chain.sameOn_front fun i h1 _ hout => hsame i h1 hout
  have hqd : qdcount q = qdcount p := (hfront.u16At (by omega) (by omega)).symm
  have han : ancount q = ancount p := (hfront.u16At (by omega) (by omega)).symm
  have hns : nscount q = nscount p := (hfront.u16At (by omega) (by omega)).symm
  have hquestions : readQuestions q (qdcount q) 12 = some w.offset := by
    rw [hqd]
    exact readQuestions_congr w.questions (by omega) (hfront.mono (by omega) (Nat.le_refl _))
  have hchain : RrsAt q w.offset w.rrs w.last :=
    w.chain.congr (by omega) fun i h1 _ hout => hsame i (by omega) hout
  exact ⟨⟨w.offset, w.rrs, w.last, hquestions, by rw [w.count, han, hns], hchain⟩, rfl, rfl, rfl,
    han⟩

theorem length_of_aged {p q : Bytes} {elapsed : Nat} {stale : Bool}
    (h : ageResponseTtls p elapsed stale = (q, true)) : 12 ≤ p.length := by
  by_contra hshort
  rw [ageResponseTtls, if_pos (by omega)] at h
  cases congrArg Prod.snd h

/-- What a successful `ageResponseTtls` returns. -/
theorem ageResponseTtls_spec {p q : Bytes} {elapsed : Nat} {stale : Bool}
    (h : ageResponseTtls p elapsed stale = (q, true)) :
    ∃ w : Walk p, Aged stale (asSecs elapsed) w.rrs p q := by
  unfold ageResponseTtls at h
  split at h
  · cases congrArg Prod.snd h
  · cases hq : readQuestions p (qdcount p) 12 with
    | none => simp [hq] at h
    | some offset =>
        simp only [hq] at h
        obtain ⟨rrs, last, hn, hchain, haged⟩ := ageTtlsLoop_spec h
        refine ⟨⟨offset, rrs, last, hq, hn, hchain⟩, haged.length, ?_, haged.other⟩
        intro rr hr
        rw [haged.ttl rr hr]
        exact remainingTtl_cap ..

/-! ## What the sinkhole test looks at -/

/-- The loop over a chain of records counts its addresses. -/
theorem addressLoop_chain {p : Bytes} {pos last : Nat} {rrs : List Rr} (h : RrsAt p pos rrs last) :
    ∀ (c : Nat) (b : Bool), addressLoop p rrs.length pos c b =
      some (c + rrs.countP Rr.isAddress,
        b || rrs.any fun rr => rr.isAddress && rdataNonZero p rr) := by
  induction h with
  | nil => simp [addressLoop]
  | @cons pos last rr rrs hrr _ ih =>
      intro c b
      rw [List.length_cons, addressLoop, hrr]
      simp only [ih]
      cases haddr : rr.isAddress with
      | true =>
          simp [haddr, Bool.or_assoc]
          omega
      | false => simp [haddr]

/-- The loop succeeds only on a chain of records. -/
theorem chain_of_addressLoop {p : Bytes} : ∀ {n pos c : Nat} {b : Bool} {r : Nat × Bool},
    addressLoop p n pos c b = some r → ∃ rrs last, rrs.length = n ∧ RrsAt p pos rrs last := by
  intro n
  induction n with
  | zero => exact fun _ => ⟨[], _, rfl, .nil⟩
  | succ n ih =>
      intro pos c b r h
      rw [addressLoop] at h
      cases hrr : readRr p pos with
      | none => simp [hrr] at h
      | some rr =>
          simp only [hrr] at h
          have hrest : ∃ rrs last, rrs.length = n ∧ RrsAt p rr.rdataEnd rrs last := by
            cases haddr : rr.isAddress with
            | true => exact ih (by simpa [haddr] using h)
            | false => exact ih (by simpa [haddr] using h)
          obtain ⟨rrs, last, hn, hchain⟩ := hrest
          exact ⟨rr :: rrs, last, by simp [hn], .cons hrr hchain⟩

/-- The test of a packet whose answers can be walked. -/
theorem onlyUnspecified_chain {p : Bytes} {offset last : Nat} {rrs : List Rr}
    (h12 : 12 ≤ p.length) (hq : readQuestions p (qdcount p) 12 = some offset)
    (hn : rrs.length = ancount p) (hchain : RrsAt p offset rrs last) :
    responseHasOnlyUnspecifiedAddresses p = (decide (0 < rrs.countP Rr.isAddress) &&
      !rrs.any fun rr => rr.isAddress && rdataNonZero p rr) := by
  rw [responseHasOnlyUnspecifiedAddresses, if_neg (by omega), hq]
  simp only
  rw [← hn, addressLoop_chain hchain]
  simp

/-- A packet that the test accepts has answers that can be walked. -/
theorem chain_of_onlyUnspecified {p : Bytes} (h : responseHasOnlyUnspecifiedAddresses p = true) :
    12 ≤ p.length ∧ ∃ offset rrs last, readQuestions p (qdcount p) 12 = some offset ∧
      rrs.length = ancount p ∧ RrsAt p offset rrs last := by
  unfold responseHasOnlyUnspecifiedAddresses at h
  split at h
  · cases h
  · next h12 =>
      cases hq : readQuestions p (qdcount p) 12 with
      | none => simp [hq] at h
      | some offset =>
          simp only [hq] at h
          cases hloop : addressLoop p (ancount p) offset 0 false with
          | none => simp [hloop] at h
          | some r =>
              obtain ⟨rrs, last, hn, hchain⟩ := chain_of_addressLoop hloop
              exact ⟨by omega, offset, rrs, last, rfl, hn, hchain⟩

/-- Packets that agree from the flags on, but for the time to live of the
answers, are tested alike. -/
theorem onlyUnspecified_congr {p q : Bytes} {offset last : Nat} {rrs : List Rr}
    (h12 : 12 ≤ p.length) (hq : readQuestions p (qdcount p) 12 = some offset)
    (hn : rrs.length = ancount p) (hchain : RrsAt p offset rrs last)
    (hlen : q.length = p.length)
    (hsame : ∀ i, 2 ≤ i → i < last → OutsideTtls rrs i → byteAt p i = byteAt q i) :
    responseHasOnlyUnspecifiedAddresses q = responseHasOnlyUnspecifiedAddresses p := by
  have hoff := readQuestions_le hq
  have hoff' := readQuestions_le_length hq h12
  have hlast := hchain.last_le_length hoff'
  have hle := hchain.pos_le_last
  have hfront : SameOn 2 offset p q :=
    hchain.sameOn_front fun i h1 h2 hout => hsame i h1 (by omega) hout
  have hqd : qdcount q = qdcount p := (hfront.u16At (by omega) (by omega)).symm
  have han : ancount q = ancount p := (hfront.u16At (by omega) (by omega)).symm
  have hq' : readQuestions q (qdcount q) 12 = some offset := by
    rw [hqd]
    exact readQuestions_congr hq (by omega) (hfront.mono (by omega) (Nat.le_refl _))
  have hchain' : RrsAt q offset rrs last :=
    hchain.congr (by omega) fun i h1 h2 h3 => hsame i (by omega) h2 h3
  have hdata : ∀ rr ∈ rrs, rdataNonZero q rr = rdataNonZero p rr := by
    intro rr hr
    have hb := hchain.mem_bounds hr
    have hslice : slice p rr.rdataStart rr.rdataEnd = slice q rr.rdataStart rr.rdataEnd := by
      refine slice_congr (by omega) (by omega) fun i h1 h2 => ?_
      have hstart : rr.nameEnd + 10 ≤ i := h1
      exact hsame i (by omega) (by omega) (hchain.rdata_outside hr h1 h2)
    rw [rdataNonZero, rdataNonZero, hslice]
  rw [onlyUnspecified_chain (by omega) hq' (hn.trans han.symm) hchain',
    onlyUnspecified_chain h12 hq hn hchain]
  congr 2
  rw [Bool.eq_iff_iff, List.any_eq_true, List.any_eq_true]
  constructor
  · rintro ⟨rr, hr, h⟩
    exact ⟨rr, hr, hdata rr hr ▸ h⟩
  · rintro ⟨rr, hr, h⟩
    exact ⟨rr, hr, (hdata rr hr).symm ▸ h⟩

/-- Packets that agree from the flags on are tested alike. -/
theorem onlyUnspecified_of_same {p q : Bytes} (hlen : q.length = p.length)
    (hsame : ∀ i, 2 ≤ i → byteAt p i = byteAt q i)
    (h : responseHasOnlyUnspecifiedAddresses p = true) :
    responseHasOnlyUnspecifiedAddresses q = true := by
  obtain ⟨h12, offset, rrs, last, hq, hn, hchain⟩ := chain_of_onlyUnspecified h
  rw [onlyUnspecified_congr h12 hq hn hchain hlen fun i hi _ _ => hsame i hi, h]

/-- The transaction identifier does not matter to the test. -/
theorem onlyUnspecified_withTxid (p : Bytes) (txid : UInt8 × UInt8) :
    responseHasOnlyUnspecifiedAddresses (withTxid p txid) =
      responseHasOnlyUnspecifiedAddresses p := by
  rw [Bool.eq_iff_iff]
  constructor
  · exact onlyUnspecified_of_same (withTxid_length p txid).symm fun i hi => byteAt_withTxid hi
  · exact onlyUnspecified_of_same (withTxid_length p txid) fun i hi => (byteAt_withTxid hi).symm

/-- Ageing does not matter to the test. -/
theorem onlyUnspecified_aged {p q : Bytes} {elapsed : Nat} {stale : Bool}
    (h : ageResponseTtls p elapsed stale = (q, true)) :
    responseHasOnlyUnspecifiedAddresses q = responseHasOnlyUnspecifiedAddresses p := by
  have h12 := length_of_aged h
  obtain ⟨w, haged⟩ := ageResponseTtls_spec h
  -- the answers are the first records of the walk
  have hsplit : w.rrs = w.rrs.take (ancount p) ++ w.rrs.drop (ancount p) :=
    (List.take_append_drop _ _).symm
  have hchain := w.chain
  rw [hsplit] at hchain
  obtain ⟨mid, hanswers, hrest⟩ := hchain.split
  have hn : (w.rrs.take (ancount p)).length = ancount p := by
    rw [List.length_take, w.count]
    omega
  refine onlyUnspecified_congr h12 w.questions hn hanswers haged.length fun i _ hmid hi => ?_
  refine (haged.other i fun rr hr => ?_).symm
  rw [hsplit] at hr
  cases List.mem_append.mp hr with
  | inl hr => exact hi rr hr
  | inr hr =>
      left
      have := hrest.mem_bounds hr
      rw [Rr.ttlOffset]
      omega

/-! ## The addresses of the answers -/

def Rr.isA (rr : Rr) : Bool := decide (rr.rtype = 1 ∧ rr.rdlength = 4)

/-- The loop over a chain of records keeps the data of the address records. -/
theorem parseARecordsLoop_filter {p : Bytes} {pos last : Nat} {rrs : List Rr}
    (h : RrsAt p pos rrs last) : parseARecordsLoop p rrs.length pos =
      (rrs.filter Rr.isA).map fun rr => slice p rr.rdataStart rr.rdataEnd := by
  induction h with
  | nil => rfl
  | @cons pos last rr rrs hrr _ ih =>
      rw [List.length_cons, parseARecordsLoop, hrr]
      simp only [ih]
      by_cases ha : rr.rtype = 1 ∧ rr.rdlength = 4
      · have hisA : rr.isA = true := decide_eq_true ha
        rw [if_pos ha, List.filter_cons_of_pos hisA]
        rfl
      · have hisA : ¬rr.isA = true := fun h => ha (of_decide_eq_true h)
        rw [if_neg ha, List.filter_cons_of_neg hisA]
        rfl

/-! ## Rewriting -/

/-- A packet after any number of new identifiers and successful ageings. -/
inductive Rewritten (p : Bytes) : Bytes → Prop where
  | refl : Rewritten p p
  | txid {q : Bytes} (txid : UInt8 × UInt8) : Rewritten p q → Rewritten p (withTxid q txid)
  | aged {q q' : Bytes} {elapsed : Nat} {stale : Bool} :
      Rewritten p q → ageResponseTtls q elapsed stale = (q', true) → Rewritten p q'

/-- Rewriting does not matter to the test. -/
theorem Rewritten.onlyUnspecified {p q : Bytes} (h : Rewritten p q) :
    responseHasOnlyUnspecifiedAddresses q = responseHasOnlyUnspecifiedAddresses p := by
  induction h with
  | refl => rfl
  | txid txid _ ih => rw [onlyUnspecified_withTxid, ih]
  | aged _ hage ih => rw [onlyUnspecified_aged hage, ih]

end DnsRelay
