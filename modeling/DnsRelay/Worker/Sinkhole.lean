import DnsRelay.Shared.Message

/-!
# The sinkhole test of the Worker

The Worker tests the replies of its upstreams as the relay does.  It has a
walker of its own, with a stricter reader for names and an early exit at the
first specified address.

Both tests are compared with one statement, `ZeroAnswers`.  The relay accepts
exactly the packets that satisfy it.  The Worker also wants every name on the
way to be free of the reserved label encodings, on which the reader of the
relay goes on.
-/

namespace DnsRelay

open Lib

/-! ## The Worker -/

namespace Worker

/-- `skipDnsName`. -/
@[semireducible] def skipDnsName (packet : Bytes) (offset : Nat) : Option Nat :=
  if packet.length ≤ offset then none
  else if byteAt packet offset = 0 then some (offset + 1)
  else if byteAt packet offset &&& 0xC0 = 0xC0 then
    if offset + 2 ≤ packet.length then some (offset + 2) else none
  else if byteAt packet offset &&& 0xC0 ≠ 0 ∨
      packet.length < offset + 1 + (byteAt packet offset).toNat then none
  else skipDnsName packet (offset + 1 + (byteAt packet offset).toNat)
termination_by packet.length - offset

def questionLoop (packet : Bytes) : Nat → Nat → Option Nat
  | 0, offset => some offset
  | n + 1, offset =>
      match skipDnsName packet offset with
      | none => none
      | some nameEnd =>
          if packet.length < nameEnd + 4 then none else questionLoop packet n (nameEnd + 4)

/-- The head of the loop over the answers: one record. -/
def readAnswer (packet : Bytes) (offset : Nat) : Option Rr :=
  match skipDnsName packet offset with
  | none => none
  | some nameEnd =>
      if packet.length < nameEnd + 10 then none
      else if packet.length < (rrFields packet nameEnd).rdataEnd then none
      else some (rrFields packet nameEnd)

/-- The loop over the answers.  It ends at the first specified address. -/
def answerLoop (packet : Bytes) : Nat → Nat → Nat → Bool
  | 0, _, addressCount => decide (0 < addressCount)
  | n + 1, offset, addressCount =>
      match readAnswer packet offset with
      | none => false
      | some rr =>
          if rr.isAddress then
            if rdataNonZero packet rr then false
            else answerLoop packet n rr.rdataEnd (addressCount + 1)
          else answerLoop packet n rr.rdataEnd addressCount

def hasOnlyUnspecifiedAddresses (packet : Bytes) : Bool :=
  if packet.length < 12 then false
  else
    match questionLoop packet (qdcount packet) 12 with
    | none => false
    | some offset => answerLoop packet (ancount packet) offset 0

end Worker

/-! ## Reserved labels -/

/-- A length byte with the high bits 01 or 10 stands on the way through the
name at `pos`. -/
@[semireducible] def reservedIn (p : Bytes) (pos : Nat) : Bool :=
  if p.length ≤ pos then false
  else if byteAt p pos = 0 then false
  else if byteAt p pos &&& 0xC0 = 0xC0 then false
  else if byteAt p pos &&& 0xC0 ≠ 0 then true
  else reservedIn p (pos + 1 + (byteAt p pos).toNat)
termination_by p.length - pos

def questionNames (p : Bytes) : Nat → Nat → List Nat
  | 0, _ => []
  | n + 1, pos =>
      pos :: match skipName p pos with
        | none => []
        | some nameEnd => questionNames p n (nameEnd + 4)

def answerNames (p : Bytes) : Nat → Nat → List Nat
  | 0, _ => []
  | n + 1, pos =>
      pos :: match readRr p pos with
        | none => []
        | some rr => answerNames p n rr.rdataEnd

/-- Where the names of the questions and answers start, as far as they can be
walked. -/
def walkedNames (p : Bytes) : List Nat :=
  questionNames p (qdcount p) 12 ++
    match readQuestions p (qdcount p) 12 with
    | none => []
    | some offset => answerNames p (ancount p) offset

/-- These names have no reserved label. -/
def PlainAt (p : Bytes) (starts : List Nat) : Prop := ∀ pos ∈ starts, reservedIn p pos = false

theorem plainAt_cons {p : Bytes} {pos : Nat} {starts : List Nat} :
    PlainAt p (pos :: starts) ↔ reservedIn p pos = false ∧ PlainAt p starts :=
  List.forall_mem_cons

/-- The Worker reads a name as the relay does if it ends inside the packet and
has no reserved label. -/
theorem skipDnsName_eq_some {p : Bytes} {pos e : Nat} :
    Worker.skipDnsName p pos = some e ↔
      skipName p pos = some e ∧ e ≤ p.length ∧ reservedIn p pos = false := by
  fun_induction Worker.skipDnsName p pos with
  | case1 pos hpos =>
      rw [skipName, dif_pos hpos]
      simp
  | case2 pos hpos hzero =>
      rw [skipName, dif_neg hpos, if_pos hzero, reservedIn, if_neg hpos, if_pos hzero]
      constructor
      · intro h
        cases h
        exact ⟨rfl, by omega, rfl⟩
      · exact fun h => h.1
  | case3 pos hpos hzero hptr hfit =>
      rw [skipName, dif_neg hpos, if_neg hzero, if_pos hptr, reservedIn, if_neg hpos,
        if_neg hzero, if_pos hptr]
      constructor
      · intro h
        cases h
        exact ⟨rfl, hfit, rfl⟩
      · exact fun h => h.1
  | case4 pos hpos hzero hptr hfit =>
      rw [skipName, dif_neg hpos, if_neg hzero, if_pos hptr]
      constructor
      · intro h
        cases h
      · rintro ⟨h, hle, -⟩
        cases h
        exact absurd hle hfit
  | case5 pos hpos hzero hptr hbad =>
      rw [skipName, dif_neg hpos, if_neg hzero, if_neg hptr, reservedIn, if_neg hpos,
        if_neg hzero, if_neg hptr]
      constructor
      · intro h
        cases h
      · rintro ⟨hskip, hle, hplain⟩
        rcases hbad with hres | hlong
        · rw [if_pos hres] at hplain
          cases hplain
        · have hlt := skipName_lt hskip
          omega
  | case6 pos hpos hzero hptr hbad ih =>
      obtain ⟨hres, hlong⟩ := not_or.mp hbad
      rw [skipName, dif_neg hpos, if_neg hzero, if_neg hptr, reservedIn, if_neg hpos,
        if_neg hzero, if_neg hptr, if_neg hres]
      exact ih

theorem questionLoop_succ {p : Bytes} {n pos offset : Nat} :
    Worker.questionLoop p (n + 1) pos = some offset ↔ ∃ nameEnd,
      Worker.skipDnsName p pos = some nameEnd ∧ nameEnd + 4 ≤ p.length ∧
        Worker.questionLoop p n (nameEnd + 4) = some offset := by
  rw [Worker.questionLoop]
  cases Worker.skipDnsName p pos with
  | none => simp
  | some nameEnd => simp

theorem readQuestions_succ {p : Bytes} {n pos offset : Nat} :
    readQuestions p (n + 1) pos = some offset ↔ ∃ nameEnd, skipName p pos = some nameEnd ∧
      nameEnd + 4 ≤ p.length ∧ readQuestions p n (nameEnd + 4) = some offset := by
  rw [readQuestions]
  cases skipName p pos with
  | none => simp
  | some nameEnd => simp

/-- The questions are read alike if their names are plain. -/
theorem questionLoop_eq_some {p : Bytes} : ∀ {n pos offset : Nat},
    Worker.questionLoop p n pos = some offset ↔
      readQuestions p n pos = some offset ∧ PlainAt p (questionNames p n pos)
  | 0, pos, offset => by
      simp [Worker.questionLoop, readQuestions, questionNames, PlainAt]
  | n + 1, pos, offset => by
      rw [questionLoop_succ, readQuestions_succ, questionNames, plainAt_cons]
      constructor
      · rintro ⟨nameEnd, hskip, hle, hrest⟩
        obtain ⟨hskip, -, hplain⟩ := skipDnsName_eq_some.mp hskip
        obtain ⟨hrest, hplains⟩ := questionLoop_eq_some.mp hrest
        rw [hskip]
        exact ⟨⟨nameEnd, rfl, hle, hrest⟩, hplain, hplains⟩
      · rintro ⟨⟨nameEnd, hskip, hle, hrest⟩, hplain, hplains⟩
        rw [hskip] at hplains
        exact ⟨nameEnd, skipDnsName_eq_some.mpr ⟨hskip, by omega, hplain⟩, hle,
          questionLoop_eq_some.mpr ⟨hrest, hplains⟩⟩

/-- An answer is read alike if its name is plain. -/
theorem readAnswer_eq_some {p : Bytes} {pos : Nat} {rr : Rr} :
    Worker.readAnswer p pos = some rr ↔ readRr p pos = some rr ∧ reservedIn p pos = false := by
  constructor
  · intro h
    rw [Worker.readAnswer] at h
    cases hskip : Worker.skipDnsName p pos with
    | none =>
        rw [hskip] at h
        cases h
    | some nameEnd =>
        obtain ⟨hname, -, hplain⟩ := skipDnsName_eq_some.mp hskip
        rw [hskip] at h
        rw [readRr, hname]
        exact ⟨h, hplain⟩
  · rintro ⟨hread, hplain⟩
    obtain ⟨hname, -, -⟩ := readRr_eq_some.mp hread
    obtain ⟨-, h10, hend⟩ := readRr_bounds hread
    rw [readRr, hname] at hread
    rw [Worker.readAnswer, skipDnsName_eq_some.mpr ⟨hname, by omega, hplain⟩]
    exact hread

/-! ## Both tests -/

/-- The addresses among some records are all unspecified. -/
def AllZero (p : Bytes) (rrs : List Rr) : Prop :=
  ∀ rr ∈ rrs, rr.isAddress = true → rdataNonZero p rr = false

/-- The questions and answers of a packet can be walked, and the answers have
addresses, all of them unspecified. -/
def ZeroAnswers (p : Bytes) : Prop :=
  12 ≤ p.length ∧ ∃ offset rrs last, readQuestions p (qdcount p) 12 = some offset ∧
    rrs.length = ancount p ∧ RrsAt p offset rrs last ∧ 0 < rrs.countP Rr.isAddress ∧
    AllZero p rrs

theorem onlyUnspecified_iff {p : Bytes} :
    responseHasOnlyUnspecifiedAddresses p = true ↔ ZeroAnswers p := by
  have hany : ∀ rrs : List Rr,
      (rrs.any fun rr => rr.isAddress && rdataNonZero p rr) = false ↔ AllZero p rrs := by
    intro rrs
    simp [List.any_eq_false, AllZero]
  constructor
  · intro h
    obtain ⟨h12, offset, rrs, last, hq, hn, hchain⟩ := chain_of_onlyUnspecified h
    rw [onlyUnspecified_chain h12 hq hn hchain, Bool.and_eq_true, decide_eq_true_iff,
      Bool.not_eq_true', hany] at h
    exact ⟨h12, offset, rrs, last, hq, hn, hchain, h.1, h.2⟩
  · rintro ⟨h12, offset, rrs, last, hq, hn, hchain, hcount, hzero⟩
    rw [onlyUnspecified_chain h12 hq hn hchain, Bool.and_eq_true, decide_eq_true_iff,
      Bool.not_eq_true', hany]
    exact ⟨hcount, hzero⟩

/-- The loop of the Worker over answers that follow each other. -/
theorem answerLoop_chain {p : Bytes} {pos last : Nat} {rrs : List Rr}
    (h : RrsAt p pos rrs last) : ∀ {c : Nat}, 0 < c + rrs.countP Rr.isAddress → AllZero p rrs →
      PlainAt p (answerNames p rrs.length pos) →
      Worker.answerLoop p rrs.length pos c = true := by
  induction h with
  | nil =>
      intro c hcount _ _
      rw [List.countP_nil] at hcount
      exact decide_eq_true hcount
  | @cons pos last rr rrs hread hrest ih =>
      intro c hcount hzero hplain
      rw [List.length_cons, answerNames, plainAt_cons, hread] at hplain
      have hrest_zero : AllZero p rrs := fun x hx => hzero x (List.mem_cons_of_mem rr hx)
      rw [List.length_cons, Worker.answerLoop, readAnswer_eq_some.mpr ⟨hread, hplain.1⟩]
      simp only
      rw [List.countP_cons] at hcount
      split
      · next haddr =>
          rw [hzero rr List.mem_cons_self haddr, if_neg Bool.false_ne_true]
          rw [if_pos haddr] at hcount
          exact ih (by omega) hrest_zero hplain.2
      · next haddr =>
          rw [if_neg haddr] at hcount
          exact ih hcount hrest_zero hplain.2

/-- The loop of the Worker succeeds only on such answers. -/
theorem chain_of_answerLoop {p : Bytes} : ∀ {n pos c : Nat},
    Worker.answerLoop p n pos c = true → ∃ rrs last, rrs.length = n ∧ RrsAt p pos rrs last ∧
      0 < c + rrs.countP Rr.isAddress ∧ AllZero p rrs ∧ PlainAt p (answerNames p n pos)
  | 0, pos, c, h =>
      ⟨[], pos, rfl, .nil, of_decide_eq_true h, fun rr hrr => absurd hrr List.not_mem_nil,
        fun x hx => absurd hx List.not_mem_nil⟩
  | n + 1, pos, c, h => by
      rw [Worker.answerLoop] at h
      cases hanswer : Worker.readAnswer p pos with
      | none =>
          rw [hanswer] at h
          cases h
      | some rr =>
          obtain ⟨hread, hplain⟩ := readAnswer_eq_some.mp hanswer
          simp only [hanswer] at h
          have hstep : ∀ {c' : Nat}, Worker.answerLoop p n rr.rdataEnd c' = true →
              c' ≤ c + (if rr.isAddress then 1 else 0) →
              (rr.isAddress = true → rdataNonZero p rr = false) →
              ∃ rrs last, rrs.length = n + 1 ∧ RrsAt p pos rrs last ∧
                0 < c + rrs.countP Rr.isAddress ∧ AllZero p rrs ∧
                PlainAt p (answerNames p (n + 1) pos) := by
            intro c' hloop hc' hzero
            obtain ⟨rrs, last, hn, hchain, hcount, hzeros, hplains⟩ := chain_of_answerLoop hloop
            refine ⟨rr :: rrs, last, by rw [List.length_cons, hn], .cons hread hchain, ?_, ?_, ?_⟩
            · rw [List.countP_cons]
              omega
            · exact List.forall_mem_cons.mpr ⟨hzero, hzeros⟩
            · rw [answerNames, hread]
              exact plainAt_cons.mpr ⟨hplain, hplains⟩
          split at h
          · next haddr =>
              split at h
              · cases h
              · next hnon =>
                  exact hstep h (by rw [if_pos haddr]) fun _ => Bool.eq_false_iff.mpr hnon
          · next haddr =>
              exact hstep h (Nat.le_add_right ..) fun h => absurd h haddr

theorem worker_onlyUnspecified_iff {p : Bytes} :
    Worker.hasOnlyUnspecifiedAddresses p = true ↔ ZeroAnswers p ∧ PlainAt p (walkedNames p) := by
  rw [Worker.hasOnlyUnspecifiedAddresses, walkedNames]
  constructor
  · intro h
    split at h
    · cases h
    next h12 =>
      cases hloop : Worker.questionLoop p (qdcount p) 12 with
      | none =>
          rw [hloop] at h
          cases h
      | some offset =>
          rw [hloop] at h
          obtain ⟨hq, hplain⟩ := questionLoop_eq_some.mp hloop
          obtain ⟨rrs, last, hn, hchain, hcount, hzero, hplain'⟩ := chain_of_answerLoop h
          rw [Nat.zero_add] at hcount
          refine ⟨⟨by omega, offset, rrs, last, hq, hn, hchain, hcount, hzero⟩, ?_⟩
          rw [hq]
          exact List.forall_mem_append.mpr ⟨hplain, hplain'⟩
  · rintro ⟨⟨h12, offset, rrs, last, hq, hn, hchain, hcount, hzero⟩, hplain⟩
    rw [hq] at hplain
    obtain ⟨hquestions, hanswers⟩ := List.forall_mem_append.mp hplain
    rw [if_neg (by omega), questionLoop_eq_some.mpr ⟨hq, hquestions⟩]
    rw [← hn] at hanswers ⊢
    exact answerLoop_chain hchain (by omega) hzero hanswers

/-- The relay and the Worker test a packet alike exactly when it is no sinkhole
or no name on the way has a reserved label. -/
theorem sinkhole_rules_agree_iff (p : Bytes) :
    responseHasOnlyUnspecifiedAddresses p = Worker.hasOnlyUnspecifiedAddresses p ↔
      ¬ZeroAnswers p ∨ PlainAt p (walkedNames p) := by
  rw [Bool.eq_iff_iff, onlyUnspecified_iff, worker_onlyUnspecified_iff]
  constructor
  · intro h
    by_cases hzero : ZeroAnswers p
    · exact .inr (h.mp hzero).2
    · exact .inl hzero
  · rintro (hno | hplain)
    · exact ⟨fun h => absurd h hno, fun h => h.1⟩
    · exact ⟨fun h => ⟨h, hplain⟩, fun h => h.1⟩

/-- A response for one question.  The name of the answer is a label of 64
bytes. -/
def reservedResponse : Bytes :=
  [0, 0, 0x81, 0x80, 0, 1, 0, 1, 0, 0, 0, 0] ++ [1, 0x61, 0, 0, 1, 0, 1] ++
    (0x40 :: List.replicate 64 0x61 ++ [0]) ++ [0, 1, 0, 1, 0, 0, 0, 60, 0, 4, 0, 0, 0, 0]

/-- The relay takes it for a sinkhole and the Worker does not. -/
theorem reserved_label_splits_rules :
    responseHasOnlyUnspecifiedAddresses reservedResponse = true ∧
      Worker.hasOnlyUnspecifiedAddresses reservedResponse = false := by
  decide +kernel

end DnsRelay
