import DnsRelay.Shared.EcsScope
import DnsRelay.Shared.Sections

/-!
# Rewriting the client subnet

`set_ecs_ipv4_subnet` on a packet whose counts describe all of it.  On the
sections of the packet it replaces one additional record, or appends one and
counts it.  `setEcs_replaced` and `setEcs_appended` say so, and every other
result here is about sections.

The new record is read back with the fields of the old one, with its other
options in order, and with one client subnet option at the end.  Writing a
second network over the first one is therefore writing the second one alone.
-/

namespace DnsRelay

open Lib

/-! ## OPT records by themselves -/

def optOf (r : Bytes) : Option EdnsOpt := findOptLoop r 1 0

def isOpt (r : Bytes) : Bool := (optOf r).isSome

theorem optOf_of_readRr {r : Bytes} {rr : Rr} (h : readRr r 0 = some rr) :
    optOf r = if rr.rtype = 41 then some (ednsOptAt r 0 rr) else none := by
  rw [optOf, findOptLoop, h]
  rfl

/-- The fields of a record do not depend on what stands behind it. -/
theorem ednsOptAt_append_left {r : Bytes} {rr : Rr} (h : readRr r 0 = some rr) (b : Bytes) :
    ednsOptAt (r ++ b) 0 rr = ednsOptAt r 0 rr := by
  obtain ⟨hpos, h10, hend⟩ := readRr_bounds h
  have hbyte : ∀ i < rr.rdataEnd, byteAt (r ++ b) i = byteAt r i :=
    fun i hi => byteAt_append_left (by omega)
  have hslice : slice (r ++ b) rr.rdataStart rr.rdataEnd = slice r rr.rdataStart rr.rdataEnd :=
    slice_congr (by rw [List.length_append]; omega) hend fun i _ hi => hbyte i hi
  rw [ednsOptAt, ednsOptAt, hslice, u16At, u16At, hbyte, hbyte, hbyte, hbyte]
  all_goals
    rw [Rr.ttlOffset]
    omega

/-- The search at the start of a record. -/
theorem findOptLoop_record {r : Bytes} (h : IsRecord r) (a b : Bytes) (n : Nat) :
    findOptLoop (a ++ (r ++ b)) (n + 1) a.length =
      match optOf r with
      | some opt => some (opt.shift a.length)
      | none => findOptLoop ((a ++ r) ++ b) n (a ++ r).length := by
  obtain ⟨rr, hread, hend⟩ := h.read
  have hopt : ednsOptAt (a ++ (r ++ b)) a.length (rr.shift a.length) =
      (ednsOptAt r 0 rr).shift a.length := by
    rw [← ednsOptAt_append_left hread b]
    exact ednsOptAt_append_add a (r ++ b) 0 rr
  have htype : (rr.shift a.length).rtype = rr.rtype := rfl
  rw [findOptLoop, readRr_isRecord hread, optOf_of_readRr hread]
  simp only [htype, hopt, Rr.shift_rdataEnd, hend]
  split
  · rfl
  · rw [List.append_assoc, List.length_append]

theorem findOptLoop_none (b : Bytes) : ∀ {rs : List Bytes} (a : Bytes), (∀ r ∈ rs, IsRecord r) →
    (∀ r ∈ rs, optOf r = none) → ∀ n : Nat,
    findOptLoop (a ++ (rs.flatten ++ b)) (rs.length + n) a.length =
      findOptLoop ((a ++ rs.flatten) ++ b) n (a ++ rs.flatten).length
  | [], a, _, _, n => by
      rw [List.flatten_nil, List.nil_append, List.append_nil, List.length_nil, Nat.zero_add]
  | r :: rs, a, h, hno, n => by
      have hnext := findOptLoop_none b (a ++ r) (fun x hx => h x (List.mem_cons_of_mem r hx))
        (fun x hx => hno x (List.mem_cons_of_mem r hx)) n
      rw [List.flatten_cons, List.append_assoc, List.length_cons, Nat.add_right_comm,
        findOptLoop_record (h r List.mem_cons_self), hno r List.mem_cons_self]
      simp only
      rw [hnext, List.append_assoc a r]

/-- A list of records has an OPT record or it has none. -/
theorem exists_first_opt : ∀ rs : List Bytes, (∀ r ∈ rs, optOf r = none) ∨
    ∃ before old after opt, rs = before ++ old :: after ∧ (∀ r ∈ before, optOf r = none) ∧
      optOf old = some opt
  | [] => .inl fun r hr => absurd hr List.not_mem_nil
  | r :: rs => by
      cases hopt : optOf r with
      | some opt =>
          exact .inr ⟨[], r, rs, opt, rfl, fun x hx => absurd hx List.not_mem_nil, hopt⟩
      | none =>
          obtain hnone | ⟨before, old, after, opt, rfl, hbefore, hold⟩ := exists_first_opt rs
          · refine .inl fun x hx => ?_
            rcases List.mem_cons.mp hx with rfl | hx
            · exact hopt
            · exact hnone x hx
          · refine .inr ⟨r :: before, old, after, opt, rfl, fun x hx => ?_, hold⟩
            rcases List.mem_cons.mp hx with rfl | hx
            · exact hopt
            · exact hbefore x hx

/-- What is known of an OPT record by itself. -/
theorem optOf_bounds {r : Bytes} (hr : IsRecord r) {opt : EdnsOpt} (h : optOf r = some opt) :
    opt.rrStart = 0 ∧ opt.rrEnd = r.length ∧ opt.udpPayloadSize < 65536 ∧ opt.flags < 65536 ∧
      opt.options.length + 11 ≤ r.length := by
  obtain ⟨rr, hread, hend⟩ := hr.read
  obtain ⟨hpos, h10, hle⟩ := readRr_bounds hread
  obtain ⟨-, -, hfields⟩ := readRr_eq_some.mp hread
  rw [optOf_of_readRr hread] at h
  split at h
  · cases h
    refine ⟨rfl, hend, ?_, u16At_lt _ _, ?_⟩
    · show rr.rclass < 65536
      rw [hfields]
      exact u16At_lt _ _
    · show (slice r rr.rdataStart rr.rdataEnd).length + 11 ≤ r.length
      rw [slice_length hle, Rr.rdataStart]
      omega
  · cases h

/-! ## Written records -/

theorem readRr_optRecord_self (opt : EdnsOpt) (new : Bytes) :
    readRr (optRecord opt new) 0 = some (writtenRr 0 opt new) := by
  have hread := readRr_optRecord [] [] opt new
  rw [List.nil_append, List.append_nil] at hread
  exact hread

theorem isRecord_optRecord {opt : EdnsOpt} {new : Bytes} (hnew : new.length < 65536) :
    IsRecord (optRecord opt new) := by
  rw [IsRecord, skipRr, readRr_optRecord_self, optRecord_length]
  show some (0 + 1 + 10 + new.length % 65536) = some (11 + new.length)
  rw [Nat.mod_eq_of_lt hnew]

/-- A written record is read with the fields and the data that were written. -/
theorem optOf_optRecord {opt : EdnsOpt} {new : Bytes} (hsize : opt.udpPayloadSize < 65536)
    (hflags : opt.flags < 65536) (hnew : new.length < 65536) :
    optOf (optRecord opt new) =
      some { opt with rrStart := 0, rrEnd := 11 + new.length, options := new } := by
  have hoptions := options_optRecord [] [] opt new
  rw [List.nil_append, List.append_nil, Nat.mod_eq_of_lt hnew, List.take_length] at hoptions
  have hend : (writtenRr 0 opt new).rdataEnd = 11 + new.length := by
    show 0 + 1 + 10 + new.length % 65536 = 11 + new.length
    rw [Nat.mod_eq_of_lt hnew]
  have hclass : (writtenRr 0 opt new).rclass = opt.udpPayloadSize := Nat.mod_eq_of_lt hsize
  have hf : u16At (optRecord opt new) 7 = opt.flags :=
    (be16_toBe16 opt.flags).trans (Nat.mod_eq_of_lt hflags)
  rw [optOf_of_readRr (readRr_optRecord_self opt new)]
  show some (ednsOptAt (optRecord opt new) 0 (writtenRr 0 opt new)) = _
  rw [Option.some_inj, ednsOptAt, EdnsOpt.mk.injEq]
  exact ⟨rfl, hend, hclass, rfl, rfl, hf, hoptions⟩

/-! ## The search on sections -/

theorem findOptRecord_bytes {m : Sections} (h : m.Wf) :
    findOptRecord m.bytes =
      findOptLoop (m.front ++ m.additional.flatten) m.additional.length m.front.length := by
  have h12 := h.length_bytes
  rw [findOptRecord, if_neg (by omega), h.additionalStart]
  simp only
  rw [arcount, Sections.u16At_bytes h (by decide), h.additionalCount]
  rfl

theorem findOptRecord_none {m : Sections} (h : m.Wf)
    (hno : ∀ r ∈ m.additional, optOf r = none) : findOptRecord m.bytes = none := by
  have hloop := findOptLoop_none [] m.front h.additional hno 0
  rw [List.append_nil, List.append_nil, Nat.add_zero] at hloop
  rw [findOptRecord_bytes h, hloop]
  rfl

section First

variable {m : Sections} {before after : List Bytes} {old : Bytes} {opt : EdnsOpt}

theorem findOptRecord_first (h : m.Wf) (hadd : m.additional = before ++ old :: after)
    (hno : ∀ r ∈ before, optOf r = none) (hold : optOf old = some opt) :
    findOptRecord m.bytes = some (opt.shift (m.front ++ before.flatten).length) := by
  have hrecord := h.additional
  rw [hadd] at hrecord
  have hloop := findOptLoop_none (old ++ after.flatten) m.front
    (fun r hr => hrecord r (List.mem_append_left _ hr)) hno (after.length + 1)
  rw [findOptRecord_bytes h, hadd, List.flatten_append, List.flatten_cons, List.length_append,
    List.length_cons, hloop,
    findOptLoop_record (hrecord old (List.mem_append_right _ List.mem_cons_self)), hold]

/-! ## Writing on sections -/

def Sections.withAdditional (m : Sections) (rs : List Bytes) : Sections :=
  { m with additional := rs }

def countOne (header : Bytes) : Bytes :=
  overwrite header 10 (toBe16 ((arcount header + 1) % 65536))

def Sections.push (m : Sections) (r : Bytes) : Sections :=
  { m with header := countOne m.header, additional := m.additional ++ [r] }

theorem setEcs_replaced (h : m.Wf) (hadd : m.additional = before ++ old :: after)
    (hno : ∀ r ∈ before, optOf r = none) (hold : optOf old = some opt) (n : Ipv4Subnet) :
    setEcsIpv4Subnet m.bytes (some n) = some (m.withAdditional
      (before ++ optRecord opt (newOptions (keptOptions opt) n) :: after)).bytes := by
  have hrecord : IsRecord old := h.additional old (by rw [hadd]; simp)
  obtain ⟨hstart, hend, -, -, hlen⟩ := optOf_bounds hrecord hold
  have hbytes : m.bytes = (m.front ++ before.flatten) ++ (old ++ after.flatten) := by
    rw [Sections.bytes, hadd, List.flatten_append, List.flatten_cons, List.append_assoc]
  have hnew : encodeOptions (keptOptions opt) ++ encodeOption (ecsOption n) =
      newOptions (keptOptions opt) n := by
    rw [newOptions, encodeOptions_append]
    rfl
  rw [setEcsIpv4Subnet, findOptRecord_first h hadd hno hold]
  show rebuildWithNewOpt m.bytes (opt.shift (m.front ++ before.flatten).length)
    (encodeOptions (keptOptions opt) ++ encodeOption (ecsOption n)) = _
  rw [hnew]
  simp only [rebuildWithNewOpt, EdnsOpt.shift, hstart, hend, Nat.add_zero]
  rw [if_neg (by omega), hbytes, List.take_left, ← List.drop_drop, List.drop_left,
    List.drop_left, Sections.withAdditional, Sections.bytes, List.flatten_append,
    List.flatten_cons, List.append_assoc, List.append_assoc]
  rfl

end First

/-- Without an OPT record one is appended. -/
theorem setEcs_appended {m : Sections} (h : m.Wf) (hno : ∀ r ∈ m.additional, optOf r = none)
    (n : Ipv4Subnet) :
    setEcsIpv4Subnet m.bytes (some n) =
      some (m.push (optRecord (syntheticOpt []) (newOptions [] n))).bytes := by
  have h12 := h.length_bytes
  have hcount : arcount m.bytes = arcount m.header := Sections.u16At_bytes h (by decide)
  have hfit : 10 + (toBe16 ((arcount m.header + 1) % 65536)).length ≤ m.header.length := by
    rw [h.header, toBe16_length]
  rw [setEcsIpv4Subnet, findOptRecord_none h hno]
  refine (rebuild_synthetic h12 n).trans ?_
  rw [appended, hcount, m.bytes_eq, List.append_assoc, overwrite_append_left hfit,
    Sections.bytes_eq]
  simp only [Sections.push, countOne, List.flatten_append, List.append_assoc]
  rfl

/-! ## Well-formed results -/

theorem countOne_spec {header : Bytes} (h12 : header.length = 12) :
    (countOne header).length = 12 ∧ (∀ i, i ≠ 10 → i ≠ 11 → byteAt (countOne header) i =
      byteAt header i) ∧ arcount (countOne header) = (arcount header + 1) % 65536 := by
  have hfit : 10 + (toBe16 ((arcount header + 1) % 65536)).length ≤ header.length := by
    rw [h12, toBe16_length]
  refine ⟨(overwrite_length hfit).trans h12, fun i h10 h11 => ?_, ?_⟩
  · refine byteAt_overwrite_outside hfit ?_
    rw [toBe16_length]
    omega
  · exact (u16At_overwrite hfit).trans (Nat.mod_mod _ _)

theorem Sections.Wf.withAdditional {m : Sections} (h : m.Wf) {before after : List Bytes}
    {old new : Bytes} (hadd : m.additional = before ++ old :: after) (hnew : IsRecord new) :
    (m.withAdditional (before ++ new :: after)).Wf := by
  refine ⟨h.header, h.questions, h.recordCount, h.records, ?_, ?_⟩
  · refine Eq.trans ?_ h.additionalCount
    rw [hadd]
    simp [Sections.withAdditional]
  · intro r hr
    have hrecord := h.additional r
    rw [hadd] at hrecord
    rcases List.mem_append.mp hr with hr | hr
    · exact hrecord (List.mem_append_left _ hr)
    · rcases List.mem_cons.mp hr with rfl | hr
      · exact hnew
      · exact hrecord (List.mem_append_right _ (List.mem_cons_of_mem _ hr))

theorem Sections.Wf.push {m : Sections} (h : m.Wf) {new : Bytes} (hnew : IsRecord new)
    (hroom : arcount m.header + 1 < 65536) : (m.push new).Wf := by
  obtain ⟨hlen, hbyte, hcount⟩ := countOne_spec h.header
  have hfield : ∀ i < 9, u16At (countOne m.header) i = u16At m.header i := by
    intro i hi
    rw [u16At, u16At, hbyte i (by omega) (by omega), hbyte (i + 1) (by omega) (by omega)]
  refine ⟨hlen, ?_, ?_, h.records, ?_, ?_⟩
  · show DnsRelay.readQuestions m.questions (u16At (countOne m.header) 4) 0 = _
    rw [hfield 4 (by decide)]
    exact h.questions
  · show m.records.length = u16At (countOne m.header) 6 + u16At (countOne m.header) 8
    rw [hfield 6 (by decide), hfield 8 (by decide)]
    exact h.recordCount
  · show (m.additional ++ [new]).length = arcount (countOne m.header)
    rw [hcount, List.length_append, h.additionalCount, Nat.mod_eq_of_lt hroom]
    rfl
  · intro r hr
    rcases List.mem_append.mp hr with hr | hr
    · exact h.additional r hr
    · rw [List.mem_singleton.mp hr]
      exact hnew

/-- Every record takes eleven bytes at least. -/
theorem records_length : ∀ {rs : List Bytes}, (∀ r ∈ rs, IsRecord r) →
    11 * rs.length ≤ rs.flatten.length
  | [], _ => Nat.le_refl _
  | r :: rs, h => by
      obtain ⟨rr, hread, hend⟩ := (h r List.mem_cons_self).read
      obtain ⟨hpos, h10, -⟩ := readRr_bounds hread
      have ih := records_length fun x hx => h x (List.mem_cons_of_mem r hx)
      rw [List.length_cons, List.flatten_cons, List.length_append]
      omega

/-! ## Setting the client subnet of a packet -/

/-- The fixed fields of an OPT record: payload size, extended response code,
version and flags. -/
def EdnsOpt.fields (opt : EdnsOpt) : Nat × UInt8 × UInt8 × Nat :=
  (opt.udpPayloadSize, opt.extendedRcode, opt.version, opt.flags)

/-- Option data that is a list of whole options. -/
def WellFormedOptions (options : Bytes) : Prop :=
  ∃ os : List EdnsOption, (∀ o ∈ os, o.Fits) ∧ options = encodeOptions os

/-- What setting the client subnet does to the additional records. -/
inductive OptSet (n : Ipv4Subnet) : List Bytes → List Bytes → Prop where
  | appended {rs : List Bytes} {new : Bytes} {opt : EdnsOpt}
      (hno : ∀ r ∈ rs, optOf r = none) (hnew : optOf new = some opt)
      (hfields : opt.fields = (4096, 0, 0, 0))
      (hoptions : opt.options = encodeOptions [ecsOption n]) : OptSet n rs (rs ++ [new])
  | replaced {before after : List Bytes} {old new : Bytes} {opt opt' : EdnsOpt}
      {os : List EdnsOption} (hno : ∀ r ∈ before ++ after, optOf r = none)
      (hold : optOf old = some opt) (hfits : ∀ o ∈ os, o.Fits)
      (hos : opt.options = encodeOptions os) (hnew : optOf new = some opt')
      (hfields : opt'.fields = opt.fields)
      (hoptions : opt'.options =
        encodeOptions (os.filter (fun o => o.code ≠ optCodeEcs) ++ [ecsOption n])) :
      OptSet n (before ++ old :: after) (before ++ new :: after)

/-- A packet before and after setting its client subnet. -/
structure EcsSet (n : Ipv4Subnet) (m m' : Sections) : Prop where
  questions : m'.questions = m.questions
  records : m'.records = m.records
  header : ∀ i, i ≠ 10 → i ≠ 11 → byteAt m'.header i = byteAt m.header i
  count : arcount m'.header = arcount m.header + if m.additional.any isOpt then 0 else 1
  additional : OptSet n m.additional m'.additional
  one : m'.additional.countP isOpt = 1

/-- What is kept of options that were written is what was kept before. -/
theorem keptOptions_newOptions {opt : EdnsOpt} {kept : List EdnsOption} {n : Ipv4Subnet}
    (hkept : ∀ o ∈ kept, o.Fits ∧ o.code ≠ optCodeEcs) (h : opt.options = newOptions kept n) :
    keptOptions opt = kept := by
  have hfits := newOptions_fits (fun o ho => (hkept o ho).1) n
  have hall : kept.filter (fun o => o.code ≠ optCodeEcs) = kept := by
    rw [List.filter_eq_self]
    intro o ho
    simpa using (hkept o ho).2
  rw [keptOptions, h, newOptions, parseOptions_encodeOptions hfits, List.filter_append, hall]
  exact List.append_nil kept

theorem countP_isOpt_none {rs : List Bytes} (h : ∀ r ∈ rs, optOf r = none) :
    rs.countP isOpt = 0 := by
  rw [List.countP_eq_zero]
  intro r hr
  rw [isOpt, h r hr]
  exact Bool.false_ne_true

theorem OptSet.countP {n : Ipv4Subnet} {rs rs' : List Bytes} (h : OptSet n rs rs') :
    rs'.countP isOpt = 1 := by
  cases h with
  | appended hno hnew =>
      rw [List.countP_append, countP_isOpt_none hno, List.countP_singleton, isOpt, hnew]
      rfl
  | @replaced before after old new opt opt' os hno _ _ _ hnew =>
      have hbefore : ∀ r ∈ before, optOf r = none := fun r hr => hno r (List.mem_append_left _ hr)
      have hafter : ∀ r ∈ after, optOf r = none := fun r hr => hno r (List.mem_append_right _ hr)
      rw [List.countP_append, List.countP_cons, countP_isOpt_none hbefore,
        countP_isOpt_none hafter, isOpt, hnew]
      rfl

theorem ecsSet_replaced {m : Sections} (h : m.Wf) (hlen : m.bytes.length ≤ 65507)
    {before after : List Bytes} {old : Bytes} {opt : EdnsOpt}
    (hadd : m.additional = before ++ old :: after)
    (hno : ∀ r ∈ before ++ after, optOf r = none) (hold : optOf old = some opt)
    (hoptions : WellFormedOptions opt.options) (n n' : Ipv4Subnet) :
    let m' := m.withAdditional
      (before ++ optRecord opt (newOptions (keptOptions opt) n) :: after)
    m'.Wf ∧ EcsSet n m m' ∧
      setEcsIpv4Subnet m'.bytes (some n') = setEcsIpv4Subnet m.bytes (some n') := by
  intro m'
  obtain ⟨os, hfits, hos⟩ := hoptions
  have hbefore : ∀ r ∈ before, optOf r = none := fun r hr => hno r (List.mem_append_left _ hr)
  obtain ⟨-, -, hsize, hflags, hroom⟩ := optOf_bounds
    (h.additional old (by rw [hadd]; simp)) hold
  have hnew : (newOptions (keptOptions opt) n).length < 65536 := by
    have hkept := keptOptions_length_le opt
    have hle : old.length ≤ m.bytes.length := by
      rw [Sections.bytes, hadd, List.flatten_append, List.flatten_cons]
      simp only [List.length_append]
      omega
    rw [newOptions_length]
    omega
  have hwf : m'.Wf := h.withAdditional hadd (isRecord_optRecord hnew)
  have hopt := optOf_optRecord hsize hflags hnew
  have hkept : keptOptions opt = os.filter fun o => o.code ≠ optCodeEcs := by
    rw [keptOptions, hos, parseOptions_encodeOptions hfits]
  have hset : OptSet n m.additional m'.additional := by
    rw [hadd]
    refine .replaced hno hold hfits hos hopt rfl ?_
    rw [← hkept]
    rfl
  have hany : m.additional.any isOpt = true := by
    rw [hadd, List.any_append, List.any_cons, isOpt, hold, Option.isSome_some, Bool.true_or,
      Bool.or_true]
  have hcount : arcount m'.header =
      arcount m.header + if m.additional.any isOpt then 0 else 1 := by
    rw [hany, if_pos rfl, Nat.add_zero]
    rfl
  have hagain : keptOptions { opt with
      rrStart := 0
      rrEnd := 11 + (newOptions (keptOptions opt) n).length
      options := newOptions (keptOptions opt) n } = keptOptions opt :=
    keptOptions_newOptions (fun o => mem_keptOptions) rfl
  refine ⟨hwf, ⟨rfl, rfl, fun _ _ _ => rfl, hcount, hset, hset.countP⟩, ?_⟩
  rw [setEcs_replaced h hadd hbefore hold, setEcs_replaced hwf rfl hbefore hopt, hagain]
  rfl

theorem ecsSet_appended {m : Sections} (h : m.Wf) (hlen : m.bytes.length ≤ 65507)
    (hno : ∀ r ∈ m.additional, optOf r = none) (n n' : Ipv4Subnet) :
    let m' := m.push (optRecord (syntheticOpt []) (newOptions [] n))
    m'.Wf ∧ EcsSet n m m' ∧
      setEcsIpv4Subnet m'.bytes (some n') = setEcsIpv4Subnet m.bytes (some n') := by
  intro m'
  have hnew : (newOptions [] n).length < 65536 := by
    rw [newOptions_length]
    decide
  have hroom : arcount m.header + 1 < 65536 := by
    have hcount := records_length h.additional
    rw [h.additionalCount] at hcount
    rw [Sections.bytes, List.length_append] at hlen
    omega
  obtain ⟨-, hbyte, hcount⟩ := countOne_spec h.header
  have hwf : m'.Wf := h.push (isRecord_optRecord hnew) hroom
  have hopt := @optOf_optRecord (syntheticOpt []) _ (by decide) (by decide) hnew
  have hset : OptSet n m.additional m'.additional := .appended hno hopt rfl rfl
  have hany : m.additional.any isOpt = false := by
    rw [List.any_eq_false]
    intro r hr
    rw [isOpt, hno r hr]
    exact Bool.false_ne_true
  refine ⟨hwf, ⟨rfl, rfl, hbyte, ?_, hset, hset.countP⟩, ?_⟩
  · rw [hany]
    exact hcount.trans (Nat.mod_eq_of_lt hroom)
  · rw [setEcs_appended h hno, setEcs_replaced hwf rfl hno hopt,
      keptOptions_newOptions (fun o ho => absurd ho List.not_mem_nil) rfl]
    rfl

/-- Setting the client subnet of a packet that its counts describe does that
and nothing else, and the last network that is set wins. -/
theorem set_ecs_exact {p : Bytes} (hlen : p.length ≤ 65507) {m : Sections}
    (hm : sections p = some m) (hone : m.additional.countP isOpt ≤ 1)
    (hoptions : ∀ r ∈ m.additional, ∀ opt, optOf r = some opt → WellFormedOptions opt.options)
    (n n' : Ipv4Subnet) :
    ∃ q m', setEcsIpv4Subnet p (some n) = some q ∧ sections q = some m' ∧ EcsSet n m m' ∧
      setEcsIpv4Subnet q (some n') = setEcsIpv4Subnet p (some n') := by
  obtain ⟨rfl, hwf⟩ := sections_spec hm
  obtain hno | ⟨before, old, after, opt, hadd, hno, hold⟩ := exists_first_opt m.additional
  · obtain ⟨hwf', hset, hlast⟩ := ecsSet_appended hwf hlen hno n n'
    exact ⟨_, _, setEcs_appended hwf hno n, sections_bytes hwf', hset, hlast⟩
  · have hafter : ∀ r ∈ after, optOf r = none := by
      rw [hadd, List.countP_append, List.countP_cons, countP_isOpt_none hno, isOpt, hold] at hone
      have hzero : after.countP isOpt = 0 := by simpa using hone
      intro r hr
      simpa [isOpt] using List.countP_eq_zero.mp hzero r hr
    have hrest : ∀ r ∈ before ++ after, optOf r = none := by
      intro r hr
      rcases List.mem_append.mp hr with hr | hr
      · exact hno r hr
      · exact hafter r hr
    obtain ⟨hwf', hset, hlast⟩ := ecsSet_replaced hwf hlen hadd hrest hold
      (hoptions old (by rw [hadd]; simp) opt hold) n n'
    exact ⟨_, _, setEcs_replaced hwf hadd hno hold n, sections_bytes hwf', hset, hlast⟩

/-- The options of the query below: a cookie and a network of its own. -/
def sampleOptions : List EdnsOption := [⟨10, [1, 2]⟩, ecsOption ⟨198, 51, 100⟩]

def ednsSections : Sections where
  header := [0, 0, 1, 0, 0, 1, 0, 0, 0, 0, 0, 1]
  questions := [1, 0x61, 0, 0, 1, 0, 1]
  records := []
  additional := [optRecord (syntheticOpt []) (encodeOptions sampleOptions)]

theorem set_ecs_exact_edns :
    let p := ednsQuery (encodeOptions sampleOptions)
    p.length ≤ 65507 ∧ sections p = some ednsSections ∧
      ∃ q m', setEcsIpv4Subnet p (some ⟨203, 0, 113⟩) = some q ∧ sections q = some m' ∧
        EcsSet ⟨203, 0, 113⟩ ednsSections m' ∧
        setEcsIpv4Subnet q (some ⟨192, 0, 2⟩) = setEcsIpv4Subnet p (some ⟨192, 0, 2⟩) := by
  have hm : sections (ednsQuery (encodeOptions sampleOptions)) = some ednsSections := by
    decide +kernel
  refine ⟨by decide, hm, set_ecs_exact (by decide) hm (by decide +kernel) ?_ _ _⟩
  intro r hr opt hopt
  rw [List.mem_singleton.mp hr, optOf_optRecord (by decide) (by decide) (by decide)] at hopt
  cases hopt
  refine ⟨sampleOptions, fun o ho => ?_, rfl⟩
  rcases List.mem_cons.mp ho with rfl | ho
  · exact ⟨by decide, by decide⟩
  · rw [List.mem_singleton.mp ho]
    exact ecsOption_fits _

end DnsRelay
