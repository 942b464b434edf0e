import DnsRelay.Shared.Message

/-!
# Packets that agree from an offset on

A walker that starts behind a change of a packet does not notice it.
`SameFrom` says that two packets differ in front of an offset alone, and each
walker has a lemma that it sees the same in both.  The changes are a new
transaction identifier and the fields that ageing writes.
-/

namespace DnsRelay

open Lib

/-- The packets have the same bytes from an offset on, and the same length. -/
structure SameFrom (start : Nat) (p q : Bytes) : Prop where
  length : q.length = p.length
  bytes : ∀ i, start ≤ i → byteAt q i = byteAt p i

section Walkers

variable {p q : Bytes} {start : Nat} (h : SameFrom start p q)

include h

/-! ## Fields -/

theorem u16At_eq_of_same {i : Nat} (hi : start ≤ i) : u16At q i = u16At p i := by
  rw [u16At, u16At, h.bytes i hi, h.bytes (i + 1) (by omega)]

theorem u32At_eq_of_same {i : Nat} (hi : start ≤ i) : u32At q i = u32At p i := by
  rw [u32At, u32At, u16At_eq_of_same h hi, u16At_eq_of_same h (by omega)]

theorem rrTtl_eq_of_same {rr : Rr} (hrr : start ≤ rr.nameEnd) : rrTtl q rr = rrTtl p rr := by
  refine u32At_eq_of_same h ?_
  rw [Rr.ttlOffset]
  omega

/-! ## Names and records -/

theorem skipName_eq_of_same {pos : Nat} (hpos : start ≤ pos) : skipName q pos = skipName p pos := by
  have hlen := h.length
  fun_induction skipName p pos with
  | case1 pos hend => rw [skipName, dif_pos (by omega)]
  | case2 pos hend hzero =>
      rw [skipName, dif_neg (by omega), h.bytes pos hpos, if_pos hzero]
  | case3 pos hend hzero hptr =>
      rw [skipName, dif_neg (by omega), h.bytes pos hpos, if_neg hzero, if_pos hptr]
  | case4 pos hend hzero hptr ih =>
      rw [skipName, dif_neg (by omega), h.bytes pos hpos, if_neg hzero, if_neg hptr]
      exact ih (by omega)

theorem readRr_eq_of_same {pos : Nat} (hpos : start ≤ pos) : readRr q pos = readRr p pos := by
  rw [readRr, readRr, skipName_eq_of_same h hpos]
  cases hname : skipName p pos with
  | none => rfl
  | some nameEnd =>
      have hlt := skipName_lt hname
      have hfields : rrFields q nameEnd = rrFields p nameEnd := by
        rw [rrFields, rrFields, u16At_eq_of_same h (by omega), u16At_eq_of_same h (by omega),
          u16At_eq_of_same h (by omega)]
      simp only [hfields, h.length]

theorem readQuestions_eq_of_same {n pos : Nat} (hpos : start ≤ pos) :
    readQuestions q n pos = readQuestions p n pos := by
  induction n generalizing pos with
  | zero => rfl
  | succ n ih =>
      rw [readQuestions, readQuestions, skipName_eq_of_same h hpos, h.length]
      cases hname : skipName p pos with
      | none => rfl
      | some nameEnd =>
          have hlt := skipName_lt hname
          simp only [ih (by omega : start ≤ nameEnd + 4)]

theorem rrsAt_of_same {pos last : Nat} {rrs : List Rr} (hchain : RrsAt p pos rrs last)
    (hpos : start ≤ pos) : RrsAt q pos rrs last := by
  induction hchain with
  | nil => exact .nil
  | cons hrr _ ih =>
      have hbounds := readRr_bounds hrr
      rw [← readRr_eq_of_same h hpos] at hrr
      exact .cons hrr (ih (by omega))

/-! ## Loops over records -/

theorem findOptLoop_eq_of_same {n pos : Nat} (hpos : start ≤ pos) :
    findOptLoop q n pos = findOptLoop p n pos := by
  have hlen := h.length
  induction n generalizing pos with
  | zero => rfl
  | succ n ih =>
      rw [findOptLoop, findOptLoop, readRr_eq_of_same h hpos]
      cases hrr : readRr p pos with
      | none => rfl
      | some rr =>
          obtain ⟨hlt, h10, hend⟩ := readRr_bounds hrr
          have hslice : slice q rr.rdataStart rr.rdataEnd = slice p rr.rdataStart rr.rdataEnd := by
            refine slice_congr (by omega) hend fun i hi _ => h.bytes i ?_
            rw [Rr.rdataStart] at hi
            omega
          have hopt : ednsOptAt q pos rr = ednsOptAt p pos rr := by
            have httl : rr.ttlOffset = rr.nameEnd + 4 := rfl
            rw [ednsOptAt, ednsOptAt, hslice, h.bytes rr.ttlOffset (by omega),
              h.bytes (rr.ttlOffset + 1) (by omega), u16At_eq_of_same h (by omega)]
          simp only [hopt, ih (by omega : start ≤ rr.rdataEnd)]

theorem answerTtlLoop_eq_of_same {n pos acc : Nat} (hpos : start ≤ pos) :
    answerTtlLoop q n pos acc = answerTtlLoop p n pos acc := by
  induction n generalizing pos acc with
  | zero => rfl
  | succ n ih =>
      rw [answerTtlLoop, answerTtlLoop, readRr_eq_of_same h hpos]
      cases hrr : readRr p pos with
      | none => rfl
      | some rr =>
          have hbounds := readRr_bounds hrr
          simp only [rrTtl_eq_of_same h (by omega : start ≤ rr.nameEnd),
            ih (by omega : start ≤ rr.rdataEnd)]

theorem soaTtl_eq_of_same {rr : Rr} (hrr : start ≤ rr.nameEnd) : soaTtl q rr = soaTtl p rr := by
  have hdata : start ≤ rr.rdataStart := by
    rw [Rr.rdataStart]
    omega
  rw [soaTtl, soaTtl, skipName_eq_of_same h hdata]
  cases hmname : skipName p rr.rdataStart with
  | none => rfl
  | some mnameEnd =>
      have hlt := skipName_lt hmname
      simp only [skipName_eq_of_same h (by omega : start ≤ mnameEnd)]
      cases hrname : skipName p mnameEnd with
      | none => rfl
      | some rnameEnd =>
          have hlt' := skipName_lt hrname
          simp only [rrTtl_eq_of_same h hrr,
            u32At_eq_of_same h (by omega : start ≤ rnameEnd + 16)]

theorem negativeTtlLoop_eq_of_same {n pos : Nat} (hpos : start ≤ pos) :
    negativeTtlLoop q n pos = negativeTtlLoop p n pos := by
  induction n generalizing pos with
  | zero => rfl
  | succ n ih =>
      rw [negativeTtlLoop, negativeTtlLoop, readRr_eq_of_same h hpos]
      cases hrr : readRr p pos with
      | none => rfl
      | some rr =>
          have hbounds := readRr_bounds hrr
          simp only [soaTtl_eq_of_same h (by omega : start ≤ rr.nameEnd),
            ih (by omega : start ≤ rr.rdataEnd)]

end Walkers

end DnsRelay
