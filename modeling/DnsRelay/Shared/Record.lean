import DnsRelay.Shared.Name

/-!
# Records and sections

Every walker of the source goes over a packet in the same way.  It skips the
questions, then reads records one after the other: a name, ten bytes of fixed
fields, and as many bytes of data as the last field says.  `readRr` is one
step of it and `RrsAt` the whole chain of records of a section.

The walk only moves forward.  So it does not see what an earlier position
holds, and `RrsAt.congr` carries a chain to any packet that agrees with the
first one on names and fixed fields.  Time to live fields do not take part in
the walk and may differ.
-/

namespace DnsRelay

open Lib

/-! ## Skipping names -/

theorem skipName_lt {p : Bytes} {pos e : Nat} (h : skipName p pos = some e) : pos < e := by
  fun_induction skipName p pos with
  | case1 => exact absurd h nofun
  | case2 | case3 =>
      obtain rfl := Option.some.inj h
      omega
  | case4 pos _ _ _ ih =>
      have := ih h
      omega

/-- The end of a name depends on the bytes of the name alone. -/
theorem skipName_congr {p q : Bytes} {pos e : Nat} (h : skipName p pos = some e)
    (hq : e ≤ q.length) (hsame : SameOn pos e p q) : skipName q pos = some e := by
  fun_induction skipName p pos with
  | case1 => exact absurd h nofun
  | case2 pos hpos hzero =>
      obtain rfl := Option.some.inj h
      have hb := hsame pos (by omega) (by omega)
      rw [skipName, dif_neg (by omega), if_pos (hb ▸ hzero)]
  | case3 pos hpos hzero hptr =>
      obtain rfl := Option.some.inj h
      have hb := hsame pos (by omega) (by omega)
      rw [skipName, dif_neg (by omega), if_neg (hb ▸ hzero), if_pos (hb ▸ hptr)]
  | case4 pos hpos hzero hptr ih =>
      have hlt := skipName_lt h
      have hb := hsame pos (by omega) (by omega)
      rw [skipName, dif_neg (by omega), if_neg (hb ▸ hzero), if_neg (hb ▸ hptr), ← hb]
      exact ih h (hsame.mono (by omega) (by omega))

/-! ## One record -/

/-- The fixed fields of a record that the walk looks at. -/
structure Rr where
  nameEnd : Nat
  rtype : Nat
  rclass : Nat
  rdlength : Nat
deriving DecidableEq, Repr

namespace Rr

def ttlOffset (rr : Rr) : Nat := rr.nameEnd + 4

def rdataStart (rr : Rr) : Nat := rr.nameEnd + 10

def rdataEnd (rr : Rr) : Nat := rr.rdataStart + rr.rdlength

end Rr

/-- The fixed fields behind a name that ends at `nameEnd`. -/
def rrFields (buf : Bytes) (nameEnd : Nat) : Rr :=
  ⟨nameEnd, u16At buf nameEnd, u16At buf (nameEnd + 2), u16At buf (nameEnd + 8)⟩

/-- Read one record, as each of the record loops of `dns.rs` does. -/
def readRr (buf : Bytes) (offset : Nat) : Option Rr :=
  match skipName buf offset with
  | none => none
  | some nameEnd =>
      if buf.length < nameEnd + 10 then none
      else if buf.length < (rrFields buf nameEnd).rdataEnd then none
      else some (rrFields buf nameEnd)

/-- `skip_rr`. -/
def skipRr (buf : Bytes) (offset : Nat) : Option Nat := (readRr buf offset).map Rr.rdataEnd

/-- What a record that was read satisfies. -/
theorem readRr_eq_some {p : Bytes} {pos : Nat} {rr : Rr} :
    readRr p pos = some rr ↔
      skipName p pos = some rr.nameEnd ∧ rr.rdataEnd ≤ p.length ∧ rr = rrFields p rr.nameEnd := by
  unfold readRr
  constructor
  · intro h
    split at h
    · cases h
    · next nameEnd hname =>
        split at h
        · cases h
        · split at h
          · cases h
          · obtain rfl := Option.some.inj h
            exact ⟨hname, by omega, rfl⟩
  · rintro ⟨hname, hend, hrr⟩
    have h10 : rr.nameEnd + 10 ≤ rr.rdataEnd := by
      rw [Rr.rdataEnd, Rr.rdataStart]
      omega
    rw [hname]
    simp only [← hrr]
    rw [if_neg (by omega), if_neg (by omega)]

theorem readRr_bounds {p : Bytes} {pos : Nat} {rr : Rr} (h : readRr p pos = some rr) :
    pos < rr.nameEnd ∧ rr.nameEnd + 10 ≤ rr.rdataEnd ∧ rr.rdataEnd ≤ p.length := by
  obtain ⟨hname, hend, -⟩ := readRr_eq_some.mp h
  refine ⟨skipName_lt hname, ?_, hend⟩
  rw [Rr.rdataEnd, Rr.rdataStart]
  omega

/-- A record is read alike in a packet with the same name and fixed fields.
The time to live may differ. -/
theorem readRr_congr {p q : Bytes} {pos : Nat} {rr : Rr} (h : readRr p pos = some rr)
    (hq : rr.rdataEnd ≤ q.length) (hname : SameOn pos rr.ttlOffset p q)
    (hlen : SameOn (rr.ttlOffset + 4) rr.rdataStart p q) : readRr q pos = some rr := by
  obtain ⟨hpos, h10, hp⟩ := readRr_bounds h
  obtain ⟨hskip, -, hrr⟩ := readRr_eq_some.mp h
  rw [Rr.ttlOffset] at hname hlen
  rw [Rr.rdataStart] at hlen
  refine readRr_eq_some.mpr ⟨?_, hq, ?_⟩
  · exact skipName_congr hskip (by omega) (hname.mono (by omega) (by omega))
  · rw [hrr, rrFields, rrFields, hname.u16At (by omega) (by omega),
      hname.u16At (by omega) (by omega), hlen.u16At (by omega) (by omega)]

/-! ## Chains of records -/

/-- `RrsAt p pos rrs last`: the records `rrs` follow each other from `pos`, and
the last one ends at `last`. -/
inductive RrsAt (p : Bytes) : Nat → List Rr → Nat → Prop where
  | nil {pos : Nat} : RrsAt p pos [] pos
  | cons {pos last : Nat} {rr : Rr} {rrs : List Rr} :
      readRr p pos = some rr →
      RrsAt p rr.rdataEnd rrs last →
      RrsAt p pos (rr :: rrs) last

def skipRrs (buf : Bytes) : Nat → Nat → Option Nat
  | 0, pos => some pos
  | n + 1, pos =>
      match skipRr buf pos with
      | none => none
      | some next => skipRrs buf n next

namespace RrsAt

variable {p q : Bytes} {pos last : Nat} {rrs : List Rr}

theorem pos_le_last (h : RrsAt p pos rrs last) : pos ≤ last := by
  induction h with
  | nil => exact Nat.le_refl _
  | cons hrr _ ih =>
      have := readRr_bounds hrr
      omega

/-- A chain that is not empty ends inside the packet. -/
theorem last_le_length (h : RrsAt p pos rrs last) (hpos : pos ≤ p.length) : last ≤ p.length := by
  induction h with
  | nil => exact hpos
  | cons hrr _ ih => exact ih (readRr_bounds hrr).2.2

/-- Every record of a chain lies between its ends. -/
theorem mem_bounds (h : RrsAt p pos rrs last) {rr : Rr} (hmem : rr ∈ rrs) :
    pos < rr.nameEnd ∧ rr.nameEnd + 10 ≤ rr.rdataEnd ∧ rr.rdataEnd ≤ last := by
  induction h with
  | nil => exact absurd hmem List.not_mem_nil
  | cons hrr hrest ih =>
      have hb := readRr_bounds hrr
      have hle := hrest.pos_le_last
      rcases List.mem_cons.mp hmem with rfl | hmem
      · exact ⟨hb.1, hb.2.1, hle⟩
      · obtain ⟨h1, h2, h3⟩ := ih hmem
        exact ⟨by omega, h2, h3⟩

/-- A position starts one chain of each length. -/
theorem unique {rrs' : List Rr} {last' : Nat} (h : RrsAt p pos rrs last)
    (h' : RrsAt p pos rrs' last') (hlen : rrs.length = rrs'.length) :
    rrs = rrs' ∧ last = last' := by
  induction h generalizing rrs' last' with
  | nil =>
      cases h' with
      | nil => exact ⟨rfl, rfl⟩
      | cons => exact absurd hlen (by simp)
  | cons hrr _ ih =>
      cases h' with
      | nil => exact absurd hlen (by simp)
      | cons hrr' hrest' =>
          obtain rfl := Option.some.inj (hrr.symm.trans hrr')
          obtain ⟨rfl, rfl⟩ := ih hrest' (by simpa using hlen)
          exact ⟨rfl, rfl⟩

/-- Two packets that agree from `pos` on, but for the time to live fields of
the records, have the same chain there. -/
theorem congr (h : RrsAt p pos rrs last) (hq : last ≤ q.length)
    (hsame : ∀ i, pos ≤ i → i < last →
      (∀ rr ∈ rrs, i < rr.ttlOffset ∨ rr.ttlOffset + 4 ≤ i) → byteAt p i = byteAt q i) :
    RrsAt q pos rrs last := by
  induction h with
  | nil => exact .nil
  | @cons pos last rr rrs hrr hrest ih =>
      obtain ⟨hpos, h10, hend⟩ := readRr_bounds hrr
      have hle := hrest.pos_le_last
      -- later records lie behind this one
      have hlater : ∀ i, i < rr.rdataEnd → ∀ r ∈ rrs, i < r.ttlOffset := by
        intro i hi r hr
        have hb := hrest.mem_bounds hr
        rw [Rr.ttlOffset]
        omega
      refine .cons (readRr_congr hrr (by omega) ?_ ?_) (ih hq ?_)
      · intro i h1 h2
        rw [Rr.ttlOffset] at h2
        refine hsame i h1 (by omega) fun r hr => .inl ?_
        rcases List.mem_cons.mp hr with rfl | hr
        · exact h2
        · exact hlater i (by omega) r hr
      · intro i h1 h2
        rw [Rr.rdataStart] at h2
        rw [Rr.ttlOffset] at h1
        refine hsame i (by omega) (by omega) fun r hr => ?_
        rcases List.mem_cons.mp hr with rfl | hr
        · exact .inr h1
        · exact .inl (hlater i (by omega) r hr)
      · intro i h1 h2 hout
        refine hsame i (by omega) h2 fun r hr => ?_
        rcases List.mem_cons.mp hr with rfl | hr
        · right
          rw [Rr.ttlOffset]
          omega
        · exact hout r hr

/-- The data of a record lies outside all time to live fields of its chain. -/
theorem rdata_outside (h : RrsAt p pos rrs last) {rr : Rr} (hmem : rr ∈ rrs) {i : Nat}
    (h1 : rr.rdataStart ≤ i) (h2 : i < rr.rdataEnd) :
    ∀ r ∈ rrs, i < r.ttlOffset ∨ r.ttlOffset + 4 ≤ i := by
  induction h with
  | nil => exact absurd hmem List.not_mem_nil
  | @cons pos last head rrs hhead hrest ih =>
      intro r hr
      rcases List.mem_cons.mp hmem with rfl | hlater
      · rcases List.mem_cons.mp hr with rfl | hr
        · right
          rw [Rr.ttlOffset]
          rw [Rr.rdataStart] at h1
          omega
        · left
          have := hrest.mem_bounds hr
          rw [Rr.ttlOffset]
          omega
      · rcases List.mem_cons.mp hr with rfl | hr
        · right
          have := hrest.mem_bounds hlater
          have := readRr_bounds hhead
          rw [Rr.ttlOffset]
          rw [Rr.rdataStart] at h1
          omega
        · exact ih hlater r hr

/-- A chain splits where its list does. -/
theorem split : ∀ {rrs rrs' : List Rr} {pos : Nat}, RrsAt p pos (rrs ++ rrs') last →
    ∃ mid, RrsAt p pos rrs mid ∧ RrsAt p mid rrs' last
  | [], _, pos, h => ⟨pos, .nil, h⟩
  | _ :: _, _, _, .cons hrr hrest => by
      obtain ⟨mid, h1, h2⟩ := split hrest
      exact ⟨mid, .cons hrr h1, h2⟩

end RrsAt

theorem skipRrs_eq_some {p : Bytes} {n pos last : Nat} :
    skipRrs p n pos = some last ↔ ∃ rrs, rrs.length = n ∧ RrsAt p pos rrs last := by
  induction n generalizing pos with
  | zero =>
      simp only [skipRrs, Option.some.injEq, List.length_eq_zero_iff, exists_eq_left]
      constructor
      · rintro rfl
        exact .nil
      · rintro ⟨⟩
        rfl
  | succ n ih =>
      simp only [skipRrs, skipRr]
      cases hrr : readRr p pos with
      | none =>
          simp only [Option.map_none, reduceCtorEq, false_iff]
          rintro ⟨rrs, hlen, h⟩
          cases h with
          | nil => exact absurd hlen (by simp)
          | cons hrr' => exact absurd (hrr.symm.trans hrr') (by simp)
      | some rr =>
          simp only [Option.map_some, ih]
          constructor
          · rintro ⟨rrs, hlen, h⟩
            exact ⟨rr :: rrs, by simp [hlen], .cons hrr h⟩
          · rintro ⟨rrs, hlen, h⟩
            cases h with
            | nil => exact absurd hlen (by simp)
            | @cons _ _ rr' rrs hrr' hrest =>
                obtain rfl := Option.some.inj (hrr.symm.trans hrr')
                exact ⟨rrs, by simpa using hlen, hrest⟩

/-! ## Questions -/

/-- Skip a number of questions, each a name and four bytes. -/
def skipQuestions (buf : Bytes) : Nat → Nat → Option Nat
  | 0, pos => some pos
  | n + 1, pos =>
      match skipName buf pos with
      | none => none
      | some nameEnd => skipQuestions buf n (nameEnd + 4)

/-- Skip a number of questions and check that each ends inside the packet. -/
def readQuestions (buf : Bytes) : Nat → Nat → Option Nat
  | 0, offset => some offset
  | n + 1, offset =>
      match skipName buf offset with
      | none => none
      | some nameEnd =>
          if buf.length < nameEnd + 4 then none else readQuestions buf n (nameEnd + 4)

theorem skipQuestions_le {p : Bytes} : ∀ {n pos e : Nat}, skipQuestions p n pos = some e → pos ≤ e
  | 0, _, _, h => by
      obtain rfl := Option.some.inj h
      exact Nat.le_refl _
  | n + 1, pos, e, h => by
      rw [skipQuestions] at h
      cases hname : skipName p pos with
      | none => simp [hname] at h
      | some nameEnd =>
          simp only [hname] at h
          have := skipName_lt hname
          have := skipQuestions_le h
          omega

theorem skipQuestions_of_readQuestions {p : Bytes} : ∀ {n pos e : Nat},
    readQuestions p n pos = some e → skipQuestions p n pos = some e
  | 0, _, _, h => h
  | n + 1, pos, e, h => by
      rw [readQuestions] at h
      rw [skipQuestions]
      cases hname : skipName p pos with
      | none => simp [hname] at h
      | some nameEnd =>
          simp only [hname] at h ⊢
          split at h
          · cases h
          · exact skipQuestions_of_readQuestions h

theorem readQuestions_le {p : Bytes} {n pos e : Nat} (h : readQuestions p n pos = some e) :
    pos ≤ e :=
  skipQuestions_le (skipQuestions_of_readQuestions h)

theorem readQuestions_le_length {p : Bytes} : ∀ {n pos e : Nat},
    readQuestions p n pos = some e → pos ≤ p.length → e ≤ p.length
  | 0, _, _, h, hpos => by
      obtain rfl := Option.some.inj h
      exact hpos
  | n + 1, pos, e, h, _ => by
      rw [readQuestions] at h
      cases hname : skipName p pos with
      | none => simp [hname] at h
      | some nameEnd =>
          simp only [hname] at h
          split at h
          · cases h
          · exact readQuestions_le_length h (by omega)

/-- Questions are read alike in a packet with the same question bytes. -/
theorem readQuestions_congr {p q : Bytes} : ∀ {n pos e : Nat},
    readQuestions p n pos = some e → e ≤ q.length → SameOn pos e p q →
      readQuestions q n pos = some e
  | 0, _, _, h, _, _ => h
  | n + 1, pos, e, h, hq, hsame => by
      rw [readQuestions] at h
      cases hname : skipName p pos with
      | none => simp [hname] at h
      | some nameEnd =>
          simp only [hname] at h
          split at h
          · cases h
          · have hlt := skipName_lt hname
            have hle := readQuestions_le h
            have hname' : skipName q pos = some nameEnd :=
              skipName_congr hname (by omega) (hsame.mono (by omega) (by omega))
            rw [readQuestions]
            simp only [hname']
            rw [if_neg (by omega)]
            exact readQuestions_congr h hq (hsame.mono (by omega) (by omega))

/-- The same without the checks, for a packet that is long enough. -/
theorem skipQuestions_congr {p q : Bytes} : ∀ {n pos e : Nat},
    skipQuestions p n pos = some e → e ≤ q.length → SameOn pos e p q →
      skipQuestions q n pos = some e
  | 0, _, _, h, _, _ => h
  | n + 1, pos, e, h, hq, hsame => by
      rw [skipQuestions] at h ⊢
      cases hname : skipName p pos with
      | none => simp [hname] at h
      | some nameEnd =>
          simp only [hname] at h
          have hlt := skipName_lt hname
          have hle := skipQuestions_le h
          rw [skipName_congr hname (by omega) (hsame.mono (by omega) (by omega))]
          exact skipQuestions_congr h hq (hsame.mono (by omega) (by omega))

/-! ## Both readers of a name -/

/-- Behind a name that is parsed every walker goes on where the parser
ends. -/
theorem name_readers_agree {U : CaseTable} {p : Bytes} {offset last : Nat} {domain : Str}
    (h : parseDomain U p offset = some (domain, last)) :
    skipName p offset = some last ∧
      (∀ n, skipQuestions p (n + 1) offset = skipQuestions p n (last + 4)) ∧
      (∀ n, readQuestions p (n + 1) offset =
        if p.length < last + 4 then none else readQuestions p n (last + 4)) ∧
      ∀ rr, readRr p offset = some rr → rr = rrFields p last := by
  have hskip := (skipName_of_parseDomain h).1
  refine ⟨hskip, fun n => ?_, fun n => ?_, fun rr hrr => ?_⟩
  · rw [skipQuestions, hskip]
  · rw [readQuestions, hskip]
  · obtain ⟨hname, -, hfields⟩ := readRr_eq_some.mp hrr
    obtain rfl := Option.some.inj (hskip.symm.trans hname)
    exact hfields

/-- A label, then a name that is a pointer to it. -/
theorem name_readers_agree_pointer :
    parseDomain .ascii [1, 0x41, 0, 0xC0, 0] 3 = some (['a'], 5) ∧
      skipName [1, 0x41, 0, 0xC0, 0] 3 = some 5 := by
  have h : parseDomain .ascii [1, 0x41, 0, 0xC0, 0] 3 = some (['a'], 5) := by decide
  exact ⟨h, (name_readers_agree h).1⟩

/-! ## Behind a front

Bytes in front of a packet move what is read by their length and change
nothing else. -/

theorem skipName_append_add (a b : Bytes) (pos : Nat) :
    skipName (a ++ b) (a.length + pos) = (skipName b pos).map (a.length + ·) := by
  fun_induction skipName b pos with
  | case1 pos hpos =>
      rw [skipName, dif_pos (by rw [List.length_append]; omega)]
      rfl
  | case2 pos hpos hzero =>
      rw [skipName, dif_neg (by rw [List.length_append]; omega), byteAt_append_add, if_pos hzero]
      rfl
  | case3 pos hpos hzero hptr =>
      rw [skipName, dif_neg (by rw [List.length_append]; omega), byteAt_append_add, if_neg hzero,
        if_pos hptr]
      rfl
  | case4 pos hpos hzero hptr ih =>
      rw [skipName, dif_neg (by rw [List.length_append]; omega), byteAt_append_add, if_neg hzero,
        if_neg hptr, ← ih]
      congr 1
      omega

def Rr.shift (n : Nat) (rr : Rr) : Rr := { rr with nameEnd := n + rr.nameEnd }

theorem Rr.shift_ttlOffset (n : Nat) (rr : Rr) : (rr.shift n).ttlOffset = n + rr.ttlOffset :=
  Nat.add_assoc ..

theorem Rr.shift_rdataStart (n : Nat) (rr : Rr) : (rr.shift n).rdataStart = n + rr.rdataStart :=
  Nat.add_assoc ..

theorem Rr.shift_rdataEnd (n : Nat) (rr : Rr) : (rr.shift n).rdataEnd = n + rr.rdataEnd := by
  rw [Rr.rdataEnd, Rr.rdataEnd, Rr.shift_rdataStart]
  exact Nat.add_assoc ..

theorem rrFields_append_add (a b : Bytes) (nameEnd : Nat) :
    rrFields (a ++ b) (a.length + nameEnd) = (rrFields b nameEnd).shift a.length := by
  rw [rrFields, u16At_append_add, Nat.add_assoc, u16At_append_add, Nat.add_assoc, u16At_append_add]
  rfl

theorem readRr_append_add (a b : Bytes) (pos : Nat) :
    readRr (a ++ b) (a.length + pos) = (readRr b pos).map (Rr.shift a.length) := by
  rw [readRr, readRr, skipName_append_add]
  cases skipName b pos with
  | none => rfl
  | some nameEnd =>
      simp only [Option.map_some, List.length_append, rrFields_append_add, Rr.shift_rdataEnd,
        Nat.add_assoc, Nat.add_lt_add_iff_left]
      split
      · rfl
      · split
        · rfl
        · rfl

theorem readQuestions_append_add (a b : Bytes) : ∀ n pos : Nat,
    readQuestions (a ++ b) n (a.length + pos) = (readQuestions b n pos).map (a.length + ·)
  | 0, _ => rfl
  | n + 1, pos => by
      rw [readQuestions, readQuestions, skipName_append_add]
      cases skipName b pos with
      | none => rfl
      | some nameEnd =>
          simp only [Option.map_some, List.length_append, Nat.add_assoc, Nat.add_lt_add_iff_left]
          split
          · rfl
          · exact readQuestions_append_add a b n (nameEnd + 4)

theorem RrsAt.append {p : Bytes} {pos mid last : Nat} {rrs rrs' : List Rr}
    (h : RrsAt p pos rrs mid) (h' : RrsAt p mid rrs' last) : RrsAt p pos (rrs ++ rrs') last := by
  induction h with
  | nil => exact h'
  | cons hrr _ ih => exact .cons hrr (ih h')

end DnsRelay
