import DnsRelay.Shared.Record

/-!
# EDNS and the client subnet option

An OPT record carries options, one of which may name the client's network.
`findOptRecord` looks for the record in the additional section, `parseOptions`
splits its data, and `setEcsIpv4Subnet` writes the option of one network in
place of the client's own.

Without a network the packet is forwarded as it came.  Without an OPT record a
new one is appended at the end of the packet and counted as one more
additional record, wherever the sections end.
-/

namespace DnsRelay

open Lib

/-! ## Header counts -/

def qdcount (p : Bytes) : Nat := u16At p 4

def ancount (p : Bytes) : Nat := u16At p 6

def nscount (p : Bytes) : Nat := u16At p 8

def arcount (p : Bytes) : Nat := u16At p 10

/-! ## Finding the record -/

/-- An OPT record as it was found. -/
structure EdnsOpt where
  rrStart : Nat
  rrEnd : Nat
  udpPayloadSize : Nat
  extendedRcode : UInt8
  version : UInt8
  flags : Nat
  options : Bytes
deriving DecidableEq, Repr

/-- An OPT record at `rrStart` with the given fixed fields. -/
def ednsOptAt (buf : Bytes) (rrStart : Nat) (rr : Rr) : EdnsOpt where
  rrStart := rrStart
  rrEnd := rr.rdataEnd
  udpPayloadSize := rr.rclass
  extendedRcode := byteAt buf rr.ttlOffset
  version := byteAt buf (rr.ttlOffset + 1)
  flags := u16At buf (rr.ttlOffset + 2)
  options := slice buf rr.rdataStart rr.rdataEnd

def findOptLoop (buf : Bytes) : Nat → Nat → Option EdnsOpt
  | 0, _ => none
  | n + 1, pos =>
      match readRr buf pos with
      | none => none
      | some rr =>
          if rr.rtype = 41 then some (ednsOptAt buf pos rr) else findOptLoop buf n rr.rdataEnd

def additionalStart (buf : Bytes) : Option Nat :=
  match skipQuestions buf (qdcount buf) 12 with
  | none => none
  | some pos => skipRrs buf (ancount buf + nscount buf) pos

/-- `find_opt_record`. -/
def findOptRecord (buf : Bytes) : Option EdnsOpt :=
  if buf.length < 12 then none
  else
    match additionalStart buf with
    | none => none
    | some pos => findOptLoop buf (arcount buf) pos

/-! ## Options -/

structure EdnsOption where
  code : Nat
  data : Bytes
deriving DecidableEq, Repr

/-- The loop of `parse_options`.  It stops at the first option that does not
fit. -/
@[semireducible] def parseOptionsLoop (options : Bytes) (pos : Nat) : List EdnsOption :=
  if pos + 4 ≤ options.length then
    if options.length < pos + 4 + u16At options (pos + 2) then []
    else
      ⟨u16At options pos, slice options (pos + 4) (pos + 4 + u16At options (pos + 2))⟩ ::
        parseOptionsLoop options (pos + 4 + u16At options (pos + 2))
  else []
termination_by options.length - pos

/-- `parse_options`. -/
def parseOptions (options : Bytes) : List EdnsOption := parseOptionsLoop options 0

def encodeOption (o : EdnsOption) : Bytes := toBe16 o.code ++ toBe16 o.data.length ++ o.data

def encodeOptions (os : List EdnsOption) : Bytes := os.flatMap encodeOption

/-! ## Setting the client subnet -/

/-- The first three bytes of an IPv4 network of 24 bits. -/
structure Ipv4Subnet where
  a : UInt8
  b : UInt8
  c : UInt8
deriving DecidableEq, Repr

/-- `OPT_CODE_ECS`. -/
def optCodeEcs : Nat := 8

/-- The data of the client subnet option: family 1, 24 bits of source, none of
scope, and the network. -/
def ecsData (n : Ipv4Subnet) : Bytes := [0x00, 0x01] ++ [24] ++ [0] ++ [n.a, n.b, n.c]

def ecsOption (n : Ipv4Subnet) : EdnsOption := ⟨optCodeEcs, ecsData n⟩

/-- The bytes of an OPT record with the fixed fields of `existing`. -/
def optRecord (existing : EdnsOpt) (newOptions : Bytes) : Bytes :=
  [0x00] ++ toBe16 41 ++ toBe16 existing.udpPayloadSize ++
    [existing.extendedRcode, existing.version] ++ toBe16 existing.flags ++
    toBe16 newOptions.length ++ newOptions

/-- `rebuild_with_new_opt`.  The count wraps, as it does in a release build. -/
def rebuildWithNewOpt (payload : Bytes) (existing : EdnsOpt) (newOptions : Bytes) :
    Option Bytes :=
  let out := payload.take existing.rrStart ++ optRecord existing newOptions ++
    payload.drop existing.rrEnd
  -- a record at the very end of the packet was not in it before
  if existing.rrStart = existing.rrEnd ∧ existing.rrStart = payload.length then
    if out.length < 12 then none
    else some (overwrite out 10 (toBe16 ((arcount out + 1) % 65536)))
  else some out

/-- The record that is appended to a packet without one. -/
def syntheticOpt (payload : Bytes) : EdnsOpt where
  rrStart := payload.length
  rrEnd := payload.length
  udpPayloadSize := 4096
  extendedRcode := 0
  version := 0
  flags := 0
  options := []

/-- The options of `existing` other than a client subnet. -/
def keptOptions (existing : EdnsOpt) : List EdnsOption :=
  (parseOptions existing.options).filter fun o => o.code ≠ optCodeEcs

/-- `set_ecs_ipv4_subnet`. -/
def setEcsIpv4Subnet (payload : Bytes) : Option Ipv4Subnet → Option Bytes
  | none => some payload
  | some n =>
      match findOptRecord payload with
      | some existing =>
          rebuildWithNewOpt payload existing
            (encodeOptions (keptOptions existing) ++ encodeOption (ecsOption n))
      | none => rebuildWithNewOpt payload (syntheticOpt payload) (encodeOption (ecsOption n))

/-! ## Options round trip -/

/-- An option whose fields fit their 16 bits. -/
def EdnsOption.Fits (o : EdnsOption) : Prop := o.code < 65536 ∧ o.data.length < 65536

@[simp] theorem encodeOption_length (o : EdnsOption) :
    (encodeOption o).length = 4 + o.data.length := by
  simp [encodeOption]
  omega

@[simp] theorem encodeOptions_nil : encodeOptions [] = [] := rfl

@[simp] theorem encodeOptions_cons (o : EdnsOption) (os : List EdnsOption) :
    encodeOptions (o :: os) = encodeOption o ++ encodeOptions os := rfl

theorem encodeOptions_append (os os' : List EdnsOption) :
    encodeOptions (os ++ os') = encodeOptions os ++ encodeOptions os' :=
  List.flatMap_append

/-- One option is read where it was written. -/
theorem parseOptionsLoop_encodeOption {o : EdnsOption} (h : o.Fits) (front back : Bytes) :
    parseOptionsLoop (front ++ (encodeOption o ++ back)) front.length =
      o :: parseOptionsLoop (front ++ (encodeOption o ++ back))
        (front.length + (encodeOption o).length) := by
  obtain ⟨hcode, hdata⟩ := h
  have hcode' : u16At (front ++ (encodeOption o ++ back)) front.length = o.code := by
    rw [← Nat.add_zero front.length, u16At_append_add, encodeOption, List.append_assoc,
      List.append_assoc, u16At_toBe16_append, Nat.mod_eq_of_lt hcode]
  have hlen : u16At (front ++ (encodeOption o ++ back)) (front.length + 2) = o.data.length := by
    rw [u16At_append_add, encodeOption, List.append_assoc, List.append_assoc]
    rw [show 2 = (toBe16 o.code).length + 0 from rfl, u16At_append_add, u16At_toBe16_append,
      Nat.mod_eq_of_lt hdata]
  have hslice : slice (front ++ (encodeOption o ++ back)) (front.length + 4)
      (front.length + 4 + o.data.length) = o.data := by
    rw [Nat.add_assoc, slice_append_add, encodeOption, List.append_assoc]
    rw [show 4 = (toBe16 o.code ++ toBe16 o.data.length).length + 0 from rfl, Nat.add_assoc,
      slice_append_add, Nat.zero_add, slice_append_left]
  have htotal : (front ++ (encodeOption o ++ back)).length =
      front.length + 4 + o.data.length + back.length := by
    simp only [List.length_append, encodeOption_length]
    omega
  conv_lhs => rw [parseOptionsLoop]
  rw [if_pos (by omega), hlen, if_neg (by omega), hcode', hslice, encodeOption_length,
    Nat.add_assoc]

/-- Options that were written are read back. -/
theorem parseOptionsLoop_encodeOptions : ∀ {os : List EdnsOption} (front : Bytes),
    (∀ o ∈ os, o.Fits) → parseOptionsLoop (front ++ encodeOptions os) front.length = os
  | [], front, _ => by
      rw [parseOptionsLoop, if_neg (by simp)]
  | o :: os, front, h => by
      rw [encodeOptions_cons, parseOptionsLoop_encodeOption (h o (List.mem_cons_self ..)),
        ← List.append_assoc, ← List.length_append,
        parseOptionsLoop_encodeOptions _ fun o' ho' => h o' (List.mem_cons_of_mem _ ho')]

theorem parseOptions_encodeOptions {os : List EdnsOption} (h : ∀ o ∈ os, o.Fits) :
    parseOptions (encodeOptions os) = os :=
  parseOptionsLoop_encodeOptions [] h

/-- Every option that was read fits and lies inside the data. -/
theorem mem_parseOptionsLoop {options : Bytes} {pos : Nat} {o : EdnsOption}
    (h : o ∈ parseOptionsLoop options pos) :
    o.Fits ∧ pos + 4 + o.data.length ≤ options.length := by
  fun_induction parseOptionsLoop options pos with
  | case1 => exact absurd h List.not_mem_nil
  | case2 pos hpos hfit ih =>
      rcases List.mem_cons.mp h with rfl | h
      · have hlen := slice_length (b := options) (i := pos + 4)
          (j := pos + 4 + u16At options (pos + 2)) (by omega)
        have hlt := u16At_lt options (pos + 2)
        refine ⟨⟨u16At_lt _ _, ?_⟩, ?_⟩ <;> simp only [hlen] <;> omega
      · obtain ⟨hfits, hle⟩ := ih h
        exact ⟨hfits, by omega⟩
  | case3 => exact absurd h List.not_mem_nil

/-- Writing the options again takes no more room. -/
theorem encodeOptions_parse_length {options : Bytes} {pos : Nat} (hpos : pos ≤ options.length) :
    (encodeOptions (parseOptionsLoop options pos)).length + pos ≤ options.length := by
  fun_induction parseOptionsLoop options pos with
  | case1 | case3 => simpa using hpos
  | case2 pos h4 hfit ih =>
      have hlen := slice_length (b := options) (i := pos + 4)
        (j := pos + 4 + u16At options (pos + 2)) (by omega)
      have := ih (by omega)
      rw [encodeOptions_cons, List.length_append, encodeOption_length]
      simp only [hlen]
      omega

theorem encodeOptions_filter_length (f : EdnsOption → Bool) : ∀ os : List EdnsOption,
    (encodeOptions (os.filter f)).length ≤ (encodeOptions os).length
  | [] => Nat.le_refl _
  | o :: os => by
      have ih := encodeOptions_filter_length f os
      rw [List.filter_cons]
      split
      · simp only [encodeOptions_cons, List.length_append]
        omega
      · simp only [encodeOptions_cons, List.length_append]
        omega

/-! ## What the search finds -/

/-- The start of the additional section lies behind the header, and every
count but that of the additional records decides it. -/
theorem additionalStart_eq_some {p : Bytes} {pos : Nat} :
    additionalStart p = some pos ↔ ∃ mid rrs, skipQuestions p (qdcount p) 12 = some mid ∧
      rrs.length = ancount p + nscount p ∧ RrsAt p mid rrs pos := by
  unfold additionalStart
  cases skipQuestions p (qdcount p) 12 with
  | none => simp
  | some mid => simp [skipRrs_eq_some]

theorem additionalStart_ge {p : Bytes} {pos : Nat} (h : additionalStart p = some pos) :
    12 ≤ pos := by
  obtain ⟨mid, rrs, hq, -, hrrs⟩ := additionalStart_eq_some.mp h
  have := skipQuestions_le hq
  have := hrrs.pos_le_last
  omega

/-- The start of the additional section depends on the counts and the bytes
before it. -/
theorem additionalStart_congr {p q : Bytes} {pos : Nat} (h : additionalStart p = some pos)
    (hlen : pos ≤ q.length) (hcounts : SameOn 4 10 p q) (hsame : SameOn 12 pos p q) :
    additionalStart q = some pos := by
  obtain ⟨mid, rrs, hq, hn, hrrs⟩ := additionalStart_eq_some.mp h
  have h12 := skipQuestions_le hq
  have hmid := hrrs.pos_le_last
  refine additionalStart_eq_some.mpr ⟨mid, rrs, ?_, ?_, ?_⟩
  · rw [qdcount, ← hcounts.u16At (by omega) (by omega)]
    exact skipQuestions_congr hq (by omega) (hsame.mono (by omega) hmid)
  · rw [hn, ancount, ancount, nscount, nscount, hcounts.u16At (by omega) (by omega),
      hcounts.u16At (by omega) (by omega)]
  · exact hrrs.congr hlen fun i h1 h2 _ => hsame i (by omega) h2

/-- The search stops at the first OPT record of the chain. -/
theorem findOptLoop_eq_some {p : Bytes} : ∀ {n pos : Nat} {opt : EdnsOpt},
    findOptLoop p n pos = some opt ↔ ∃ before rr,
      before.length < n ∧ RrsAt p pos before opt.rrStart ∧ (∀ r ∈ before, r.rtype ≠ 41) ∧
      readRr p opt.rrStart = some rr ∧ rr.rtype = 41 ∧ opt = ednsOptAt p opt.rrStart rr
  | 0, _, _ => by simp [findOptLoop]
  | n + 1, pos, opt => by
      rw [findOptLoop]
      cases hrr : readRr p pos with
      | none =>
          simp only [reduceCtorEq, false_iff]
          rintro ⟨before, rr, -, hchain, -, hread, -⟩
          cases hchain with
          | nil => exact absurd (hrr.symm.trans hread) (by simp)
          | cons hread' => exact absurd (hrr.symm.trans hread') (by simp)
      | some rr =>
          simp only
          split
          · next h41 =>
              constructor
              · intro h
                obtain rfl := Option.some.inj h
                exact ⟨[], rr, by simp, .nil, by simp, hrr, h41, rfl⟩
              · rintro ⟨before, rr', -, hchain, hno, hread, -, hopt⟩
                cases hchain with
                | nil =>
                    obtain rfl := Option.some.inj (hrr.symm.trans hread)
                    rw [hopt]
                    rfl
                | cons hread' _ =>
                    obtain rfl := Option.some.inj (hrr.symm.trans hread')
                    exact absurd h41 (hno _ (List.mem_cons_self ..))
          · next h41 =>
              rw [findOptLoop_eq_some]
              constructor
              · rintro ⟨before, rr', hn, hchain, hno, hread⟩
                refine ⟨rr :: before, rr', by simpa using hn, .cons hrr hchain, ?_, hread⟩
                intro r hr
                rcases List.mem_cons.mp hr with rfl | hr
                · exact h41
                · exact hno r hr
              · rintro ⟨before, rr', hn, hchain, hno, hread, h41', hopt⟩
                cases hchain with
                | nil =>
                    obtain rfl := Option.some.inj (hrr.symm.trans hread)
                    exact absurd h41' h41
                | cons hread' hchain =>
                    obtain rfl := Option.some.inj (hrr.symm.trans hread')
                    exact ⟨_, rr', by simpa using hn, hchain,
                      fun r hr => hno r (List.mem_cons_of_mem _ hr), hread, h41', hopt⟩

/-- What `findOptRecord` finds is the first OPT record of the additional
section. -/
theorem findOptRecord_eq_some {p : Bytes} {opt : EdnsOpt} :
    findOptRecord p = some opt ↔ 12 ≤ p.length ∧ ∃ pos before rr,
      additionalStart p = some pos ∧ before.length < arcount p ∧
      RrsAt p pos before opt.rrStart ∧ (∀ r ∈ before, r.rtype ≠ 41) ∧
      readRr p opt.rrStart = some rr ∧ rr.rtype = 41 ∧ opt = ednsOptAt p opt.rrStart rr := by
  unfold findOptRecord
  split
  · next h12 =>
      simp only [reduceCtorEq, false_iff]
      omega
  · next h12 =>
      cases additionalStart p with
      | none => simp
      | some pos =>
          simp only [findOptLoop_eq_some, Option.some.injEq]
          constructor
          · rintro ⟨before, rr, h⟩
            exact ⟨by omega, pos, before, rr, rfl, h⟩
          · rintro ⟨-, _, before, rr, rfl, h⟩
            exact ⟨before, rr, h⟩

/-- No record that the search passes in vain is an OPT record. -/
theorem no_opt_of_findOptLoop {p : Bytes} {pos last : Nat} {rrs : List Rr}
    (hchain : RrsAt p pos rrs last) {n : Nat} (hn : rrs.length ≤ n)
    (h : findOptLoop p n pos = none) : ∀ r ∈ rrs, r.rtype ≠ 41 := by
  induction hchain generalizing n with
  | nil => simp
  | cons hread _ ih =>
      obtain ⟨m, rfl⟩ : ∃ m, n = m + 1 := ⟨n - 1, by simp at hn; omega⟩
      simp only [findOptLoop, hread] at h
      split at h
      · cases h
      · next h41 =>
          intro r hr
          rcases List.mem_cons.mp hr with rfl | hr
          · exact h41
          · exact ih (by simpa using hn) h r hr

/-! ## Behind a front -/

/-- An OPT record that stands some bytes later, with the same fields. -/
def EdnsOpt.shift (n : Nat) (opt : EdnsOpt) : EdnsOpt :=
  { opt with rrStart := n + opt.rrStart, rrEnd := n + opt.rrEnd }

theorem EdnsOpt.shift_shift (m n : Nat) (opt : EdnsOpt) :
    (opt.shift n).shift m = opt.shift (m + n) := by
  rw [EdnsOpt.shift, EdnsOpt.shift, EdnsOpt.shift, Nat.add_assoc, Nat.add_assoc]

theorem ednsOptAt_append_add (a b : Bytes) (pos : Nat) (rr : Rr) :
    ednsOptAt (a ++ b) (a.length + pos) (rr.shift a.length) =
      (ednsOptAt b pos rr).shift a.length := by
  rw [ednsOptAt, Rr.shift_ttlOffset, Rr.shift_rdataStart, Rr.shift_rdataEnd, byteAt_append_add,
    Nat.add_assoc, byteAt_append_add, Nat.add_assoc, u16At_append_add, slice_append_add]
  rfl

theorem findOptLoop_append_add (a b : Bytes) : ∀ n pos : Nat,
    findOptLoop (a ++ b) n (a.length + pos) =
      (findOptLoop b n pos).map (EdnsOpt.shift a.length)
  | 0, _ => rfl
  | n + 1, pos => by
      rw [findOptLoop, findOptLoop, readRr_append_add]
      cases readRr b pos with
      | none => rfl
      | some rr =>
          simp only [Option.map_some, Rr.shift_rdataEnd, ednsOptAt_append_add,
            findOptLoop_append_add a b n]
          have htype : (rr.shift a.length).rtype = rr.rtype := rfl
          rw [htype]
          split
          · rfl
          · rfl

end DnsRelay
