import DnsRelay.Shared.ChainedCache
import DnsRelay.Shared.SameFrom

/-!
# Ageing as an action

`ageResponseTtls` writes into a packet while it walks over it.  On a packet
that can be walked it writes into time to live fields alone, and these are
bytes that no walker goes by.  `ageResponseTtls_iff` says so once: the result is
the one packet with lowered fields and the same other bytes.

What follows is about fields.  Seconds that are taken away one after the other
are taken away together, no seconds change nothing, and a field that was set to
zero stays there.  The other walkers see the same packet.
-/

namespace DnsRelay

open Lib

/-! ## A packet is its fields and its other bytes -/

theorem be16_inj {a b c d : UInt8} (h : be16 a b = be16 c d) : a = c ∧ b = d := by
  have ha := a.toNat_lt
  have hb := b.toNat_lt
  have hc := c.toNat_lt
  have hd := d.toNat_lt
  rw [be16, be16] at h
  exact ⟨UInt8.toNat_inj.mp (by omega), UInt8.toNat_inj.mp (by omega)⟩

/-- A field of four bytes determines them. -/
theorem sameOn_of_u32At {p q : Bytes} {i : Nat} (h : u32At p i = u32At q i) :
    SameOn i (i + 4) p q := by
  have hp := u16At_lt p (i + 2)
  have hq := u16At_lt q (i + 2)
  have hhigh : u16At p i = u16At q i := by
    rw [u32At, u32At] at h
    omega
  have hlow : u16At p (i + 2) = u16At q (i + 2) := by
    rw [u32At, u32At] at h
    omega
  obtain ⟨h0, h1⟩ := be16_inj hhigh
  obtain ⟨h2, h3⟩ := be16_inj hlow
  intro j hj hj'
  obtain rfl | rfl | rfl | rfl : j = i ∨ j = i + 1 ∨ j = i + 2 ∨ j = i + 2 + 1 := by omega
  · exact h0
  · exact h1
  · exact h2
  · exact h3

/-- Packets with the same fields and the same other bytes are equal. -/
theorem ext_ttls {p q : Bytes} (rrs : List Rr) (hlen : p.length = q.length)
    (httl : ∀ rr ∈ rrs, rrTtl p rr = rrTtl q rr)
    (hother : ∀ i, OutsideTtls rrs i → byteAt p i = byteAt q i) : p = q := by
  refine ext_byteAt hlen fun i _ => ?_
  by_cases hout : OutsideTtls rrs i
  · exact hother i hout
  · rw [OutsideTtls] at hout
    push Not at hout
    obtain ⟨rr, hrr, hlo, hhi⟩ := hout
    exact sameOn_of_u32At (httl rr hrr) i hlo hhi

theorem Aged.unique {stale : Bool} {elapsed : Nat} {rrs : List Rr} {p q q' : Bytes}
    (h : Aged stale elapsed rrs p q) (h' : Aged stale elapsed rrs p q') : q = q' := by
  refine ext_ttls rrs (h.length.trans h'.length.symm) (fun rr hrr => ?_) fun i hi => ?_
  · rw [h.ttl rr hrr, h'.ttl rr hrr]
  · rw [h.other i hi, h'.other i hi]

/-- One ageing after the other ages once, as the fields do. -/
theorem Aged.comp {stale stale' stale'' : Bool} {elapsed elapsed' elapsed'' : Nat} {rrs : List Rr}
    {p q r : Bytes} (h : Aged stale elapsed rrs p q) (h' : Aged stale' elapsed' rrs q r)
    (httl : ∀ t, remainingTtl stale' elapsed' (remainingTtl stale elapsed t) =
      remainingTtl stale'' elapsed'' t) : Aged stale'' elapsed'' rrs p r where
  length := h'.length.trans h.length
  ttl rr hrr := by rw [h'.ttl rr hrr, h.ttl rr hrr, httl]
  other i hi := by rw [h'.other i hi, h.other i hi]

theorem Aged.refl {stale : Bool} {elapsed : Nat} {rrs : List Rr} {p : Bytes}
    (httl : ∀ t, remainingTtl stale elapsed t = t) : Aged stale elapsed rrs p p where
  length := rfl
  ttl _ _ := (httl _).symm
  other _ _ := rfl

/-! ## Every packet that can be walked is aged -/

/-- The loop goes over a chain of records to its end. -/
theorem ageTtlsLoop_complete (elapsed : Nat) (stale : Bool) {rrs : List Rr} :
    ∀ {p : Bytes} {pos last : Nat}, RrsAt p pos rrs last → last ≤ p.length →
      ∃ q, ageTtlsLoop elapsed stale rrs.length pos p = (q, true) := by
  induction rrs with
  | nil => exact fun {p} _ _ _ _ => ⟨p, rfl⟩
  | cons rr rrs ih =>
      intro p pos last h hlast
      cases h with
      | cons hrr hrest =>
          obtain ⟨hname, hend, hfields⟩ := readRr_eq_some.mp hrr
          obtain ⟨-, h10, -⟩ := readRr_bounds hrr
          have hrd : rr.rdlength = u16At p (rr.nameEnd + 8) := congrArg Rr.rdlength hfields
          have hnext : rr.rdataEnd = rr.nameEnd + 10 + rr.rdlength := rfl
          rw [List.length_cons, ageTtlsLoop, hname]
          simp only
          rw [if_neg (by omega)]
          generalize hw : overwrite p (rr.nameEnd + 4)
            (toBe32 (remainingTtl stale elapsed (u32At p (rr.nameEnd + 4)))) = written
          obtain ⟨hlen, hrd', hout⟩ := lowered_ttl (by omega) hw
          rw [hrd', ← hrd, ← hnext, if_neg (by omega)]
          -- behind the field the packet is as it was
          refine ih (hrest.congr (by omega) fun i hi _ _ => (hout i (.inr ?_)).symm) (by omega)
          omega

theorem exists_aged {p : Bytes} (h12 : 12 ≤ p.length) (w : Walk p) (elapsed : Nat) (stale : Bool) :
    ∃ q, ageResponseTtls p elapsed stale = (q, true) := by
  have hlast := w.chain.last_le_length (readQuestions_le_length w.questions h12)
  obtain ⟨q, hq⟩ := ageTtlsLoop_complete (min (asSecs elapsed) u32Max) stale w.chain hlast
  refine ⟨q, ?_⟩
  rw [ageResponseTtls, if_neg (by omega), w.questions]
  simp only
  rw [← w.count, hq]

/-- Ageing a packet that can be walked lowers the fields of its records. -/
theorem ageResponseTtls_iff {p : Bytes} (h12 : 12 ≤ p.length) (w : Walk p) {elapsed : Nat}
    {stale : Bool} {q : Bytes} :
    ageResponseTtls p elapsed stale = (q, true) ↔ Aged stale (asSecs elapsed) w.rrs p q := by
  have hsound : ∀ {q}, ageResponseTtls p elapsed stale = (q, true) →
      Aged stale (asSecs elapsed) w.rrs p q := by
    intro q h
    obtain ⟨w', haged⟩ := ageResponseTtls_spec h
    rw [w.rrs_unique w']
    exact haged
  refine ⟨hsound, fun h => ?_⟩
  obtain ⟨q', hq'⟩ := exists_aged h12 w elapsed stale
  rw [hq', (hsound hq').unique h]

/-- A packet that was aged can be walked as before. -/
theorem Aged.walk {stale : Bool} {elapsed : Nat} {p q : Bytes} (h12 : 12 ≤ p.length) (w : Walk p)
    (h : Aged stale elapsed w.rrs p q) :
    ∃ w' : Walk q, w'.rrs = w.rrs ∧ w'.offset = w.offset ∧ w'.last = w.last := by
  obtain ⟨w', hrrs, hoff, hlast, -⟩ := w.congr h12 h.length fun i _ hi => (h.other i hi).symm
  exact ⟨w', hrrs, hoff, hlast⟩

/-! ## What the other walkers see -/

section Walked

variable {stale : Bool} {elapsed : Nat} {p q : Bytes}

/-- The counts in the header are as they were. -/
theorem Aged.u16At_header (w : Walk p) (h : Aged stale elapsed w.rrs p q) {i : Nat}
    (hi : i + 2 ≤ 12) : u16At q i = u16At p i := by
  have hfront : SameOn 0 w.offset p q := w.chain.sameOn_front fun i _ _ hi => (h.other i hi).symm
  have hoff := readQuestions_le w.questions
  exact (hfront.u16At (Nat.zero_le i) (by omega)).symm

theorem Aged.parseARecords (h12 : 12 ≤ p.length) (w : Walk p)
    (h : Aged stale elapsed w.rrs p q) : parseARecords q = parseARecords p := by
  obtain ⟨w', hrrs, hoff, -⟩ := h.walk h12 w
  have hwalk : ∀ {x : Bytes} (wx : Walk x), 12 ≤ x.length →
      DnsRelay.parseARecords x = (wx.answers.filter Rr.isA).map fun rr =>
        slice x rr.rdataStart rr.rdataEnd := by
    intro x wx hx
    have hsplit : wx.rrs = wx.answers ++ wx.rrs.drop (ancount x) :=
      (List.take_append_drop _ _).symm
    have hchain := wx.chain
    rw [hsplit] at hchain
    obtain ⟨mid, hanswers, -⟩ := hchain.split
    have hn : wx.answers.length = ancount x := by
      rw [Walk.answers, List.length_take, wx.count]
      omega
    rw [DnsRelay.parseARecords, if_neg (by omega), skipQuestions_of_readQuestions wx.questions]
    simp only
    rw [← hn, parseARecordsLoop_filter hanswers]
  have hanswers : w'.answers = w.answers := by
    have hcount : ancount q = ancount p := h.u16At_header w (by decide)
    rw [Walk.answers, Walk.answers, hrrs, hcount]
  rw [hwalk w' (by rw [h.length]; exact h12), hwalk w h12, hanswers]
  refine List.map_congr_left fun rr hrr => ?_
  have hmem : rr ∈ w.rrs := List.mem_of_mem_take (List.mem_filter.mp hrr).1
  have hend := (w.chain.mem_bounds hmem).2.2
  have hlast := w.chain.last_le_length (readQuestions_le_length w.questions h12)
  refine slice_congr (by rw [h.length]; omega) (by omega) fun i hi hi' => ?_
  exact h.other i (w.chain.rdata_outside hmem hi hi')

theorem Aged.findOptRecord (h12 : 12 ≤ p.length) (w : Walk p)
    (h : Aged stale elapsed w.rrs p q) : findOptRecord q = findOptRecord p := by
  obtain ⟨w', -, -, hlast⟩ := h.walk h12 w
  have hstart : ∀ {x : Bytes} (wx : Walk x), additionalStart x = some wx.last := by
    intro x wx
    rw [additionalStart, skipQuestions_of_readQuestions wx.questions]
    exact skipRrs_eq_some.mpr ⟨wx.rrs, wx.count, wx.chain⟩
  -- the additional records stand behind all fields that were written
  have hbehind : SameFrom w.last p q := by
    refine ⟨h.length, fun i hi => h.other i fun rr hrr => .inr ?_⟩
    have hbounds := w.chain.mem_bounds hrr
    rw [Rr.ttlOffset]
    omega
  have hcount : arcount q = arcount p := h.u16At_header w (by decide)
  rw [DnsRelay.findOptRecord, DnsRelay.findOptRecord, h.length, hstart w', hstart w, hlast, hcount]
  simp only [findOptLoop_eq_of_same hbehind (Nat.le_refl _)]

end Walked

/-! ## The action -/

/-- What no ageing changes. -/
structure SeenAlike (p q : Bytes) : Prop where
  length : q.length = p.length
  succeeds : ∀ elapsed stale, ∃ r, ageResponseTtls q elapsed stale = (r, true)
  addresses : parseARecords q = parseARecords p
  unspecified :
    responseHasOnlyUnspecifiedAddresses q = responseHasOnlyUnspecifiedAddresses p
  opt : findOptRecord q = findOptRecord p

/-- Two ageings of a packet that can be walked are one. -/
theorem ageResponseTtls_twice {p : Bytes} (h12 : 12 ≤ p.length) (w : Walk p)
    {e e' e'' : Nat} {stale stale' stale'' : Bool}
    (httl : ∀ t, remainingTtl stale' (asSecs e') (remainingTtl stale (asSecs e) t) =
      remainingTtl stale'' (asSecs e'') t) :
    ageResponseTtls (ageResponseTtls p e stale).1 e' stale' = ageResponseTtls p e'' stale'' := by
  obtain ⟨q, hq⟩ := exists_aged h12 w e stale
  have haged := (ageResponseTtls_iff h12 w).mp hq
  obtain ⟨w', hrrs, -⟩ := haged.walk h12 w
  have h12' : 12 ≤ q.length := by
    rw [haged.length]
    exact h12
  obtain ⟨r, hr⟩ := exists_aged h12' w' e' stale'
  have haged' := (ageResponseTtls_iff h12' w').mp hr
  rw [hrrs] at haged'
  rw [hq, hr, (ageResponseTtls_iff h12 w).mpr (haged.comp haged' httl)]

/-- On a packet on which it succeeds ageing by whole seconds is an action, with
no seconds as the identity and stale ageing as a zero, and no other walker
notices it. -/
theorem ageing_is_an_action {p q : Bytes} {elapsed : Nat} {stale : Bool}
    (h : ageResponseTtls p elapsed stale = (q, true)) :
    (∀ e s, ∃ r, ageResponseTtls p e s = (r, true) ∧ SeenAlike p r) ∧
      ageResponseTtls p 0 false = (p, true) ∧
      (∀ m n, ageResponseTtls (ageResponseTtls p (fromSecs m) false).1 (fromSecs n) false =
        ageResponseTtls p (fromSecs m + fromSecs n) false) ∧
      ∀ e s e', ageResponseTtls (ageResponseTtls p e s).1 e' true = ageResponseTtls p e' true ∧
        ageResponseTtls (ageResponseTtls p e' true).1 e s = ageResponseTtls p e' true := by
  have h12 := length_of_aged h
  obtain ⟨w, -⟩ := ageResponseTtls_spec h
  refine ⟨fun e s => ?_, ?_, fun m n => ?_, fun e s e' => ⟨?_, ?_⟩⟩
  · obtain ⟨r, hr⟩ := exists_aged h12 w e s
    have haged := (ageResponseTtls_iff h12 w).mp hr
    obtain ⟨w', -⟩ := haged.walk h12 w
    have h12' : 12 ≤ r.length := by
      rw [haged.length]
      exact h12
    exact ⟨r, hr, haged.length, exists_aged h12' w', haged.parseARecords h12 w,
      onlyUnspecified_aged hr, haged.findOptRecord h12 w⟩
  · exact (ageResponseTtls_iff h12 w).mpr (.refl fun t => Nat.sub_zero t)
  · refine ageResponseTtls_twice h12 w fun t => ?_
    have hsecs : ∀ k, asSecs (fromSecs k) = k := fun k => by
      rw [asSecs, fromSecs]
      omega
    have hsum : asSecs (fromSecs m + fromSecs n) = m + n := by
      rw [asSecs, fromSecs, fromSecs]
      omega
    rw [hsecs, hsecs, hsum]
    exact Nat.sub_sub t m n
  · exact ageResponseTtls_twice h12 w fun t => rfl
  · refine ageResponseTtls_twice h12 w fun t => ?_
    cases s with
    | false => exact Nat.zero_sub _
    | true => rfl

theorem ageing_is_an_action_address :
    let p := addressResponse [192, 0, 2, 1]
    (ageResponseTtls p 0 false).2 = true ∧
      ageResponseTtls (ageResponseTtls p (fromSecs 20) false).1 (fromSecs 30) false =
        ageResponseTtls p (fromSecs 20 + fromSecs 30) false := by
  intro p
  have h : (ageResponseTtls p 0 false).2 = true := by decide +kernel
  exact ⟨h, (ageing_is_an_action (Prod.ext rfl h)).2.2.1 20 30⟩

end DnsRelay
