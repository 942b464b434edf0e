import DnsRelay.Shared.Cache

/-!
# Caches in a chain

A `resolver_proxy` cache may stand in front of a `dns_relay` cache.  The second
cache computes a lifetime from what the first one has aged, and both use
`responseCacheTtl` and `ageResponseTtls`.

An answer loses as much of its lifetime as it ages.  A negative answer need
not: its lifetime is the smaller one of the time to live and the MINIMUM field
of its start of authority record, and ageing lowers only the first.  While the
field is the smaller one the lifetime does not shrink at all.  The last section
says for which responses the lifetimes add up.
-/

namespace DnsRelay

open Lib

/-! ## The lifetime along a chain of records -/

def soaMinimum (packet : Bytes) (rr : Rr) : Option Nat :=
  match skipName packet rr.rdataStart with
  | none => none
  | some mnameEnd =>
      match skipName packet mnameEnd with
      | none => none
      | some rnameEnd =>
          if rr.rdataEnd < rnameEnd + 20 then none else some (u32At packet (rnameEnd + 16))

/-- The lifetime that a record gives is the smaller one of two fields. -/
theorem soaTtl_eq (p : Bytes) (rr : Rr) :
    soaTtl p rr = (soaMinimum p rr).bind fun minimum =>
      if 0 < min (rrTtl p rr) minimum then some (min (rrTtl p rr) minimum) else none := by
  unfold soaTtl soaMinimum
  cases skipName p rr.rdataStart with
  | none => rfl
  | some mnameEnd =>
      simp only
      cases skipName p mnameEnd with
      | none => rfl
      | some rnameEnd =>
          simp only
          split
          · rw [Option.bind_none]
          · rw [Option.bind_some]

theorem soaTtl_eq_some {p : Bytes} {rr : Rr} {t : Nat} (h : soaTtl p rr = some t) :
    ∃ minimum, soaMinimum p rr = some minimum ∧ t = min (rrTtl p rr) minimum := by
  rw [soaTtl_eq] at h
  obtain ⟨minimum, hm, ht⟩ := Option.bind_eq_some_iff.mp h
  refine ⟨minimum, hm, ?_⟩
  split at ht
  · exact (Option.some.inj ht).symm
  · cases ht

/-- The two names and the five numbers of a start of authority record lie in its
data.  The last number is the MINIMUM field. -/
def SoaData (p : Bytes) (soa : Rr) (minimum : Nat) : Prop :=
  ∃ mnameEnd rnameEnd, skipName p soa.rdataStart = some mnameEnd ∧
    skipName p mnameEnd = some rnameEnd ∧ rnameEnd + 20 ≤ soa.rdataEnd ∧
    u32At p (rnameEnd + 16) = minimum

theorem soaMinimum_eq_some {p : Bytes} {soa : Rr} {minimum : Nat} :
    soaMinimum p soa = some minimum ↔ SoaData p soa minimum := by
  unfold soaMinimum
  constructor
  · intro h
    cases hm : skipName p soa.rdataStart with
    | none => simp [hm] at h
    | some mnameEnd =>
        simp only [hm] at h
        cases hr : skipName p mnameEnd with
        | none => simp [hr] at h
        | some rnameEnd =>
            simp only [hr] at h
            split at h
            · cases h
            · next hend => exact ⟨mnameEnd, rnameEnd, hm, hr, by omega, Option.some.inj h⟩
  · rintro ⟨mnameEnd, rnameEnd, hm, hr, hend, rfl⟩
    simp only [hm, hr]
    rw [if_neg (Nat.not_lt_of_le hend)]

/-- The field is the same in a packet with the same data. -/
theorem SoaData.congr {p q : Bytes} {rr : Rr} {minimum : Nat} (h : SoaData p rr minimum)
    (hq : rr.rdataEnd ≤ q.length) (hsame : SameOn rr.rdataStart rr.rdataEnd p q) :
    SoaData q rr minimum := by
  obtain ⟨mnameEnd, rnameEnd, hm, hr, hend, hmin⟩ := h
  have hlt := skipName_lt hm
  have hlt' := skipName_lt hr
  refine ⟨mnameEnd, rnameEnd, ?_, ?_, hend, ?_⟩
  · exact skipName_congr hm (by omega) (hsame.mono (Nat.le_refl _) (by omega))
  · exact skipName_congr hr (by omega) (hsame.mono (by omega) (by omega))
  · rw [← hsame.u32At (by omega) (by omega), hmin]

/-- The loop over a chain of answers keeps the smallest time to live. -/
theorem answerTtlLoop_chain {p : Bytes} {pos last : Nat} {rrs : List Rr}
    (h : RrsAt p pos rrs last) : ∀ {acc offset t : Nat},
    answerTtlLoop p rrs.length pos acc = some (offset, t) →
      offset = last ∧ t ≤ acc ∧ (∀ rr ∈ rrs, t ≤ rrTtl p rr) ∧
        (t = acc ∨ ∃ rr ∈ rrs, t = rrTtl p rr) := by
  induction h with
  | nil =>
      intro acc offset t hloop
      cases hloop
      exact ⟨rfl, Nat.le_refl _, fun rr hr => absurd hr List.not_mem_nil, .inl rfl⟩
  | @cons pos last rr rrs hrr _ ih =>
      intro acc offset t hloop
      rw [List.length_cons, answerTtlLoop, hrr] at hloop
      simp only at hloop
      split at hloop
      · cases hloop
      · obtain ⟨hoff, hle, hall, hattained⟩ := ih hloop
        refine ⟨hoff, by omega, ?_, ?_⟩
        · intro r hr
          rcases List.mem_cons.mp hr with rfl | hr
          · omega
          · exact hall r hr
        · rcases hattained with heq | ⟨r, hr, heq⟩
          · by_cases hsmall : rrTtl p rr < acc
            · exact .inr ⟨rr, List.mem_cons_self .., by omega⟩
            · exact .inl (by omega)
          · exact .inr ⟨r, List.mem_cons_of_mem _ hr, heq⟩

def firstSoa (rrs : List Rr) : Option Rr := rrs.find? fun rr => rr.rtype = 6

/-- The search goes to the first start of authority record. -/
theorem negativeTtlLoop_chain {p : Bytes} {pos last : Nat} {rrs : List Rr}
    (h : RrsAt p pos rrs last) :
    negativeTtlLoop p rrs.length pos = (firstSoa rrs).bind (soaTtl p) := by
  induction h with
  | nil => rfl
  | @cons pos last rr rrs hrr _ ih =>
      rw [List.length_cons, negativeTtlLoop, hrr]
      by_cases hsoa : rr.rtype = 6
      · simp [firstSoa, hsoa]
      · simpa [firstSoa, hsoa] using ih

def Walk.answers {p : Bytes} (w : Walk p) : List Rr := w.rrs.take (ancount p)

/-- Where a lifetime comes from: the answer with the smallest time to live, or
the first start of authority record. -/
theorem responseCacheTtl_walk {p : Bytes} {t : Nat} (w : Walk p)
    (h : responseCacheTtl p = some t) :
    (0 < ancount p ∧ (∀ rr ∈ w.answers, t ≤ rrTtl p rr) ∧ ∃ rr ∈ w.answers, t = rrTtl p rr) ∨
      (ancount p = 0 ∧ ∃ rr, firstSoa w.rrs = some rr ∧ soaTtl p rr = some t) := by
  have hchain := w.chain
  rw [← List.take_append_drop (ancount p) w.rrs] at hchain
  obtain ⟨mid, hanswers, hrest⟩ := hchain.split
  have hcount := w.count
  have hn : w.answers.length = ancount p := by
    rw [Walk.answers, List.length_take]
    omega
  unfold responseCacheTtl at h
  split at h
  · cases h
  · rw [w.questions] at h
    simp only at h
    cases hloop : answerTtlLoop p (ancount p) w.offset u32Max with
    | none => simp [hloop] at h
    | some r =>
        obtain ⟨offset, answerTtl⟩ := r
        simp only [hloop] at h
        rw [← hn] at hloop
        obtain ⟨hoff, -, hall, hattained⟩ := answerTtlLoop_chain hanswers hloop
        split at h
        next hpos =>
          left
          split at h
          next hmax =>
            cases h
            exact ⟨hpos, hall, hattained.resolve_left hmax⟩
          · cases h
        next hzero =>
          right
          have hzero : ancount p = 0 := by omega
          have hrrs : w.rrs.drop (ancount p) = w.rrs := by rw [hzero, List.drop_zero]
          rw [hrrs] at hrest
          rw [hoff, show nscount p = w.rrs.length by omega, negativeTtlLoop_chain hrest] at h
          exact ⟨hzero, Option.bind_eq_some_iff.mp h⟩

/-! ## Two lifetimes -/

/-- The response has answers, or its first start of authority record lives no
longer than its own MINIMUM field. -/
def LifetimeAges (p : Bytes) : Prop :=
  0 < ancount p ∨ ∃ (w : Walk p) (rr : Rr) (minimum : Nat), firstSoa w.rrs = some rr ∧
    soaMinimum p rr = some minimum ∧ rrTtl p rr ≤ minimum

theorem Walk.rrs_unique {p : Bytes} (w w' : Walk p) : w.rrs = w'.rrs := by
  have hoff : w.offset = w'.offset := Option.some.inj (w.questions.symm.trans w'.questions)
  have hchain := w'.chain
  rw [← hoff] at hchain
  exact (w.chain.unique hchain (w.count.trans w'.count.symm)).1

/-- A negative answer whose record is aged. -/
theorem negative_lifetime {ttl minimum e : Nat} (he : e < min ttl minimum) :
    e + min (ttl - e) minimum ≤ min ttl minimum ↔ e = 0 ∨ ttl ≤ minimum := by
  omega

/-- What a packet ages and what it may still be cached for add up to no more
than its first lifetime exactly when nothing has aged, or there are answers, or
the time to live of the start of authority record is what bounds the
lifetime. -/
theorem chained_lifetime_iff {p p' : Bytes} {t t' e : Nat} (ht : responseCacheTtl p = some t)
    (he : e < t) (hage : ageResponseTtls p (fromSecs e) false = (p', true))
    (ht' : responseCacheTtl p' = some t') : e + t' ≤ t ↔ e = 0 ∨ LifetimeAges p := by
  have h12 := length_of_cacheableHeader (cacheableHeader_of_ttl ht)
  obtain ⟨w, haged⟩ := ageResponseTtls_spec hage
  have hsecs : asSecs (fromSecs e) = e := by
    rw [asSecs, fromSecs]
    omega
  rw [hsecs] at haged
  obtain ⟨w', hrrs, -, -, han⟩ :=
    w.congr h12 haged.length fun i _ hout => (haged.other i hout).symm
  rcases responseCacheTtl_walk w ht with ⟨hpos, -, rr, hr, hrr⟩ | ⟨hzero, rr, hsoa, hrr⟩
  · have hage : rrTtl p' rr = rrTtl p rr - e := haged.ttl rr (List.mem_of_mem_take hr)
    rcases responseCacheTtl_walk w' ht' with ⟨-, hall, -⟩ | ⟨hzero, -⟩
    · have hr' : rr ∈ w'.answers := by rwa [Walk.answers, hrrs, han]
      have hle := hall rr hr'
      exact iff_of_true (by omega) (.inr (.inl hpos))
    · omega
  · rcases responseCacheTtl_walk w' ht' with ⟨hpos, -⟩ | ⟨-, rr', hsoa', hrr'⟩
    · omega
    · -- both packets have the same start of authority record, with the same data
      rw [hrrs, hsoa] at hsoa'
      obtain rfl := Option.some.inj hsoa'
      have hmem : rr ∈ w.rrs := List.mem_of_find?_eq_some hsoa
      have hb := w.chain.mem_bounds hmem
      have hlast := w.chain.last_le_length (readQuestions_le_length w.questions h12)
      obtain ⟨minimum, hmin, rfl⟩ := soaTtl_eq_some hrr
      obtain ⟨minimum', hmin', rfl⟩ := soaTtl_eq_some hrr'
      have hdata : soaMinimum p' rr = some minimum := by
        refine soaMinimum_eq_some.mpr ((soaMinimum_eq_some.mp hmin).congr
          (by rw [haged.length]; omega) fun i h1 h2 => ?_)
        exact (haged.other i (w.chain.rdata_outside hmem h1 h2)).symm
      obtain rfl := Option.some.inj (hdata.symm.trans hmin')
      have hage : rrTtl p' rr = rrTtl p rr - e := haged.ttl rr hmem
      rw [hage, negative_lifetime he]
      refine or_congr_right ⟨fun h => .inr ⟨w, rr, minimum, hsoa, hmin, h⟩, ?_⟩
      rintro (hpos | ⟨v, rr', minimum', hfirst, hmin'', hle⟩)
      · omega
      · rw [v.rrs_unique w, hsoa] at hfirst
        obtain rfl := Option.some.inj hfirst
        obtain rfl := Option.some.inj (hmin.symm.trans hmin'')
        exact hle

theorem chained_lifetime_iff_address :
    let p := addressResponse [192, 0, 2, 1]
    let aged := ageResponseTtls p (fromSecs 10) false
    responseCacheTtl p = some 60 ∧ aged.2 = true ∧ responseCacheTtl aged.1 = some 50 ∧
      (10 + 50 ≤ 60 ↔ 10 = 0 ∨ LifetimeAges p) := by
  intro p aged
  have ht : responseCacheTtl p = some 60 := by decide
  have hok : aged.2 = true := by decide
  have ht' : responseCacheTtl aged.1 = some 50 := by decide
  have hage : aged = (aged.1, true) := Prod.ext_iff.mpr ⟨Eq.refl _, hok⟩
  exact ⟨ht, hok, ht', chained_lifetime_iff ht (by decide) hage ht'⟩

/-- A missing name.  Its start of authority record lives two minutes and gives
half a minute to negative answers. -/
def negativeResponse : Bytes :=
  [0, 0, 0x81, 0x83, 0, 1, 0, 0, 0, 1, 0, 0] ++ [1, 0x61, 0] ++ [0, 1, 0, 1] ++
    [0xC0, 12, 0, 6, 0, 1, 0, 0, 0, 120, 0, 22] ++
    [0, 0, 0, 0, 0, 1, 0, 0, 0, 2, 0, 0, 0, 3, 0, 0, 0, 4, 0, 0, 0, 30]

/-- After ten of thirty seconds it may be cached for thirty seconds again. -/
theorem negative_lifetime_restarts :
    let aged := ageResponseTtls negativeResponse (fromSecs 10) false
    responseCacheTtl negativeResponse = some 30 ∧ aged.2 = true ∧
      responseCacheTtl aged.1 = some 30 ∧ ¬10 + 30 ≤ 30 :=
  ⟨by decide, by decide, by decide, by decide⟩

end DnsRelay
