import DnsRelay.Lib.Checked
import DnsRelay.Shared.Craft
import DnsRelay.Shared.Message

/-!
# Walkers stay inside their packet

The walkers once more, with every index and every range of a slice checked as
Rust checks it.  None of them panics, on any bytes: each one gives what the
walker without checks gives.

`skip_name` may end one byte past the packet, behind a pointer that is cut off.
What comes next compares that end with the length before it reads anything, or
hands it to `skip_name`, which does.
-/

namespace DnsRelay

open Lib

namespace Bounds

/-! ## The walkers -/

/-- `skip_name`. -/
def skipName (buf : Bytes) (pos : Nat) : Checked (Option Nat) :=
  if buf.length ≤ pos then .ok none
  else do
    let len ← index buf pos
    if len = 0 then return some (pos + 1)
    else if len &&& 0xC0 = 0xC0 then return some (pos + 2)
    else skipName buf (pos + 1 + len.toNat)
termination_by buf.length - pos

def skipQuestions (buf : Bytes) : Nat → Nat → Checked (Option Nat)
  | 0, pos => return some pos
  | n + 1, pos => do
      match ← skipName buf pos with
      | none => return none
      | some nameEnd => skipQuestions buf n (nameEnd + 4)

/-- Skip a number of questions and check that each ends inside the packet. -/
def readQuestions (buf : Bytes) : Nat → Nat → Checked (Option Nat)
  | 0, offset => return some offset
  | n + 1, offset => do
      match ← skipName buf offset with
      | none => return none
      | some nameEnd =>
          if buf.length < nameEnd + 4 then return none else readQuestions buf n (nameEnd + 4)

/-- The loop of `response_has_only_unspecified_addresses`. -/
def addressLoop (packet : Bytes) : Nat → Nat → Nat → Bool → Checked (Option (Nat × Bool))
  | 0, _, addressCount, hasNonUnspecified => return some (addressCount, hasNonUnspecified)
  | n + 1, offset, addressCount, hasNonUnspecified => do
      match ← skipName packet offset with
      | none => return none
      | some nameEnd =>
          if packet.length < nameEnd + 10 then return none
          else
            let rtype ← u16FromBeBytes packet nameEnd
            let rdlength ← u16FromBeBytes packet (nameEnd + 8)
            if packet.length < nameEnd + 10 + rdlength then return none
            else if (rtype = 1 && rdlength = 4) || (rtype = 28 && rdlength = 16) then
              let data ← range packet (nameEnd + 10) (nameEnd + 10 + rdlength)
              addressLoop packet n (nameEnd + 10 + rdlength) (addressCount + 1)
                (hasNonUnspecified || data.any fun byte => byte ≠ 0)
            else
              addressLoop packet n (nameEnd + 10 + rdlength) addressCount hasNonUnspecified

/-- `response_has_only_unspecified_addresses`. -/
def responseHasOnlyUnspecifiedAddresses (packet : Bytes) : Checked Bool :=
  if packet.length < 12 then return false
  else do
    let qdcount ← u16FromBeBytes packet 4
    let ancount ← u16FromBeBytes packet 6
    match ← readQuestions packet qdcount 12 with
    | none => return false
    | some offset =>
        match ← addressLoop packet ancount offset 0 false with
        | none => return false
        | some (addressCount, hasNonUnspecified) =>
            return decide (0 < addressCount) && !hasNonUnspecified

/-- The loop of `parse_a_records`. -/
def parseARecordsLoop (buf : Bytes) : Nat → Nat → Checked (List Bytes)
  | 0, _ => return []
  | n + 1, pos => do
      match ← skipName buf pos with
      | none => return []
      | some nameEnd =>
          if buf.length < nameEnd + 10 then return []
          else
            let rtype ← u16FromBeBytes buf nameEnd
            let rdlength ← u16FromBeBytes buf (nameEnd + 8)
            let rdataStart := nameEnd + 10
            if buf.length < rdataStart + rdlength then return []
            else if rtype = 1 ∧ rdlength = 4 then
              let a ← index buf rdataStart
              let b ← index buf (rdataStart + 1)
              let c ← index buf (rdataStart + 2)
              let d ← index buf (rdataStart + 3)
              return [a, b, c, d] :: (← parseARecordsLoop buf n (rdataStart + rdlength))
            else parseARecordsLoop buf n (rdataStart + rdlength)

/-- `parse_a_records`. -/
def parseARecords (buf : Bytes) : Checked (List Bytes) :=
  if buf.length < 12 then return []
  else do
    let qdcount ← u16FromBeBytes buf 4
    let ancount ← u16FromBeBytes buf 6
    match ← skipQuestions buf qdcount 12 with
    | none => return []
    | some pos => parseARecordsLoop buf ancount pos

/-- The loop of `response_cache_ttl` over the answers. -/
def answerTtlLoop (packet : Bytes) : Nat → Nat → Nat → Checked (Option (Nat × Nat))
  | 0, offset, answerTtl => return some (offset, answerTtl)
  | n + 1, offset, answerTtl => do
      match ← skipName packet offset with
      | none => return none
      | some nameEnd =>
          if packet.length < nameEnd + 10 then return none
          else
            match u32FromSlice (← range packet (nameEnd + 4) (nameEnd + 4 + 4)) with
            | none => return none
            | some ttl =>
                let rdlength ← u16FromBeBytes packet (nameEnd + 8)
                if packet.length < nameEnd + 10 + rdlength ∨ ttl = 0 then return none
                else answerTtlLoop packet n (nameEnd + 10 + rdlength) (min answerTtl ttl)

/-- What `response_cache_ttl` does with a start of authority record. -/
def soaTtl (packet : Bytes) (rdataStart rdataEnd ttl : Nat) : Checked (Option Nat) := do
  match ← skipName packet rdataStart with
  | none => return none
  | some mnameEnd =>
      match ← skipName packet mnameEnd with
      | none => return none
      | some rnameEnd =>
          if rdataEnd < rnameEnd + 20 then return none
          else
            match u32FromSlice (← range packet (rnameEnd + 16) (rnameEnd + 16 + 4)) with
            | none => return none
            | some minimum => return if 0 < min ttl minimum then some (min ttl minimum) else none

/-- The loop of `response_cache_ttl` over the authority records. -/
def negativeTtlLoop (packet : Bytes) : Nat → Nat → Checked (Option Nat)
  | 0, _ => return none
  | n + 1, offset => do
      match ← skipName packet offset with
      | none => return none
      | some nameEnd =>
          if packet.length < nameEnd + 10 then return none
          else
            let rtype ← u16FromBeBytes packet nameEnd
            match u32FromSlice (← range packet (nameEnd + 4) (nameEnd + 4 + 4)) with
            | none => return none
            | some ttl =>
                let rdlength ← u16FromBeBytes packet (nameEnd + 8)
                if packet.length < nameEnd + 10 + rdlength then return none
                else if rtype = 6 then
                  soaTtl packet (nameEnd + 10) (nameEnd + 10 + rdlength) ttl
                else negativeTtlLoop packet n (nameEnd + 10 + rdlength)

/-- The sections of `response_cache_ttl`. -/
def cacheTtlSections (packet : Bytes) : Checked (Option Nat) := do
  let qdcount ← u16FromBeBytes packet 4
  let ancount ← u16FromBeBytes packet 6
  let nscount ← u16FromBeBytes packet 8
  match ← readQuestions packet qdcount 12 with
  | none => return none
  | some offset =>
      match ← answerTtlLoop packet ancount offset u32Max with
      | none => return none
      | some (offset, answerTtl) =>
          if 0 < ancount then return if answerTtl ≠ u32Max then some answerTtl else none
          else negativeTtlLoop packet nscount offset

/-- `response_cache_ttl`. -/
def responseCacheTtl (packet : Bytes) : Checked (Option Nat) :=
  if packet.length < 12 then return none
  else do
    if (← index packet 2) &&& 0x80 = 0 then return none
    else if (← index packet 2) &&& 0x02 ≠ 0 then return none
    else
      let rcode := (← index packet 3) &&& 0x0F
      if rcode ≠ 0 ∧ rcode ≠ 3 then return none else cacheTtlSections packet

/-- The loop of `age_response_ttls`. -/
def ageTtlsLoop (elapsed : Nat) (stale : Bool) : Nat → Nat → Bytes → Checked (Bytes × Bool)
  | 0, _, packet => return (packet, true)
  | n + 1, offset, packet => do
      match ← skipName packet offset with
      | none => return (packet, false)
      | some nameEnd =>
          if packet.length < nameEnd + 10 then return (packet, false)
          else
            let ttl ← expect (u32FromSlice (← range packet (nameEnd + 4) (nameEnd + 4 + 4)))
            let packet ← copyFromSlice packet (nameEnd + 4) (nameEnd + 4 + 4)
              (toBe32 (remainingTtl stale elapsed ttl))
            let rdlength ← u16FromBeBytes packet (nameEnd + 8)
            if packet.length < nameEnd + 10 + rdlength then return (packet, false)
            else ageTtlsLoop elapsed stale n (nameEnd + 10 + rdlength) packet

/-- `age_response_ttls`. -/
def ageResponseTtls (packet : Bytes) (elapsed : Nat) (stale : Bool) : Checked (Bytes × Bool) :=
  if packet.length < 12 then return (packet, false)
  else do
    let qdcount ← u16FromBeBytes packet 4
    let ancount ← u16FromBeBytes packet 6
    let nscount ← u16FromBeBytes packet 8
    match ← readQuestions packet qdcount 12 with
    | none => return (packet, false)
    | some offset =>
        ageTtlsLoop (min (asSecs elapsed) u32Max) stale (ancount + nscount) offset packet

/-- `skip_rr`. -/
def skipRr (buf : Bytes) (offset : Nat) : Checked (Option Nat) := do
  match ← skipName buf offset with
  | none => return none
  | some nameEnd =>
      if buf.length < nameEnd + 10 then return none
      else
        let rdlength ← u16FromBeBytes buf (nameEnd + 8)
        if buf.length < nameEnd + 10 + rdlength then return none
        else return some (nameEnd + 10 + rdlength)

def skipRrs (buf : Bytes) : Nat → Nat → Checked (Option Nat)
  | 0, pos => return some pos
  | n + 1, pos => do
      match ← skipRr buf pos with
      | none => return none
      | some next => skipRrs buf n next

/-- The loop of `find_opt_record` over the additional records. -/
def findOptLoop (buf : Bytes) : Nat → Nat → Checked (Option EdnsOpt)
  | 0, _ => return none
  | n + 1, rrStart => do
      match ← skipName buf rrStart with
      | none => return none
      | some nameEnd =>
          if buf.length < nameEnd + 10 then return none
          else
            let rtype ← u16FromBeBytes buf nameEnd
            let rclass ← u16FromBeBytes buf (nameEnd + 2)
            let ttlBytes ← range buf (nameEnd + 4) (nameEnd + 8)
            let rdlength ← u16FromBeBytes buf (nameEnd + 8)
            let rdataStart := nameEnd + 10
            if buf.length < rdataStart + rdlength then return none
            else if rtype = 41 then
              let extendedRcode ← index ttlBytes 0
              let version ← index ttlBytes 1
              let flags ← u16FromBeBytes ttlBytes 2
              let options ← range buf rdataStart (rdataStart + rdlength)
              return some
                ⟨rrStart, rdataStart + rdlength, rclass, extendedRcode, version, flags, options⟩
            else findOptLoop buf n (rdataStart + rdlength)

/-- `find_opt_record`. -/
def findOptRecord (buf : Bytes) : Checked (Option EdnsOpt) :=
  if buf.length < 12 then return none
  else do
    let qdcount ← u16FromBeBytes buf 4
    let ancount ← u16FromBeBytes buf 6
    let nscount ← u16FromBeBytes buf 8
    let arcount ← u16FromBeBytes buf 10
    match ← skipQuestions buf qdcount 12 with
    | none => return none
    | some pos =>
        match ← skipRrs buf (ancount + nscount) pos with
        | none => return none
        | some pos => findOptLoop buf arcount pos

/-- The loop of `parse_options`. -/
def parseOptionsLoop (options : Bytes) (pos : Nat) : Checked (List EdnsOption) :=
  if pos + 4 ≤ options.length then do
    let code ← u16FromBeBytes options pos
    let len ← u16FromBeBytes options (pos + 2)
    if options.length < pos + 4 + len then return []
    else
      let data ← range options (pos + 4) (pos + 4 + len)
      return ⟨code, data⟩ :: (← parseOptionsLoop options (pos + 4 + len))
  else return []
termination_by options.length - pos

/-- `parse_options`. -/
def parseOptions (options : Bytes) : Checked (List EdnsOption) := parseOptionsLoop options 0

/-- `craft_redirect_response`. -/
def craftRedirectResponse (payload : Bytes) (qnameEnd : Nat) (ipsStr : List Str) :
    Checked (Option Bytes) :=
  if payload.length < 12 then return none
  else do
    let resp ← assign payload 2 0x81
    let resp ← assign resp 3 0x80
    if resp.length < qnameEnd + 4 then return none
    else
      let qtype ← copyFromSlice [0, 0] 0 2 (← range resp qnameEnd (qnameEnd + 2))
      let qclass ← copyFromSlice [0, 0] 0 2 (← range resp (qnameEnd + 2) (qnameEnd + 4))
      let ips := ipsStr.filterMap parseIpv4Addr
      if ips.isEmpty then return none
      else
        let ancount := ips.length % 65536
        let resp ← assign resp 6 (UInt8.ofNat (ancount / 256))
        let resp ← assign resp 7 (UInt8.ofNat ancount)
        let resp ← splice resp (qnameEnd + 4) (ips.flatMap (redirectAnswer qtype qclass))
        return some resp

/-! ## None of them panics -/

section Names

variable {buf : Bytes}

theorem skipName_eq (pos : Nat) : skipName buf pos = .ok (DnsRelay.skipName buf pos) := by
  fun_induction DnsRelay.skipName buf pos with
  | case1 pos hend => rw [skipName, if_pos hend]
  | case2 pos hend hzero =>
      rw [skipName, if_neg hend, index_bind (by omega), if_pos hzero]
      rfl
  | case3 pos hend hzero hptr =>
      rw [skipName, if_neg hend, index_bind (by omega), if_neg hzero, if_pos hptr]
      rfl
  | case4 pos hend hzero hptr ih =>
      rw [skipName, if_neg hend, index_bind (by omega), if_neg hzero, if_neg hptr]
      exact ih

/-- A name ends at most one byte past the packet. -/
theorem skipName_le {pos e : Nat} (h : DnsRelay.skipName buf pos = some e) :
    e ≤ buf.length + 1 := by
  fun_induction DnsRelay.skipName buf pos with
  | case1 => cases h
  | case2 | case3 =>
      obtain rfl := Option.some.inj h
      omega
  | case4 pos _ _ _ ih => exact ih h

theorem skipQuestions_eq (n pos : Nat) :
    skipQuestions buf n pos = .ok (DnsRelay.skipQuestions buf n pos) := by
  induction n generalizing pos with
  | zero => rfl
  | succ n ih =>
      rw [skipQuestions, DnsRelay.skipQuestions, skipName_eq, ok_bind]
      cases DnsRelay.skipName buf pos with
      | none => rfl
      | some nameEnd => exact ih (nameEnd + 4)

theorem readQuestions_eq (n pos : Nat) :
    readQuestions buf n pos = .ok (DnsRelay.readQuestions buf n pos) := by
  induction n generalizing pos with
  | zero => rfl
  | succ n ih =>
      rw [readQuestions, DnsRelay.readQuestions, skipName_eq, ok_bind]
      cases DnsRelay.skipName buf pos with
      | none => rfl
      | some nameEnd =>
          simp only
          split
          · rfl
          · exact ih (nameEnd + 4)

end Names

section Records

variable {buf : Bytes}

/-- The record loops differ in the fields they read and in what they do with
them.  They give up alike: at a name that does not end, at fixed fields that do
not fit and at data that does not fit. -/
theorem readRr_cases {α : Type} (pos : Nat) {body : Nat → Checked α} {other : α} {found : Rr → α}
    (hshort : ∀ nameEnd, nameEnd + 10 ≤ buf.length →
      buf.length < nameEnd + 10 + u16At buf (nameEnd + 8) → body nameEnd = .ok other)
    (hfits : ∀ nameEnd, nameEnd + 10 + u16At buf (nameEnd + 8) ≤ buf.length →
      body nameEnd = .ok (found (rrFields buf nameEnd))) :
    (do match ← skipName buf pos with
        | none => return other
        | some nameEnd => if buf.length < nameEnd + 10 then return other else body nameEnd) =
      (.ok (match readRr buf pos with
        | none => other
        | some rr => found rr) : Checked α) := by
  rw [skipName_eq, ok_bind, readRr]
  cases DnsRelay.skipName buf pos with
  | none => rfl
  | some nameEnd =>
      simp only
      by_cases h10 : buf.length < nameEnd + 10
      · rw [if_pos h10, if_pos h10]
        rfl
      · have hdata : (rrFields buf nameEnd).rdataEnd = nameEnd + 10 + u16At buf (nameEnd + 8) := rfl
        rw [if_neg h10, if_neg h10, hdata]
        by_cases hend : buf.length < nameEnd + 10 + u16At buf (nameEnd + 8)
        · rw [if_pos hend, hshort nameEnd (by omega) hend]
        · rw [if_neg hend, hfits nameEnd (by omega)]

theorem addressLoop_eq (n offset count : Nat) (nonZero : Bool) :
    addressLoop buf n offset count nonZero =
      .ok (DnsRelay.addressLoop buf n offset count nonZero) := by
  induction n generalizing offset count nonZero with
  | zero => rfl
  | succ n ih =>
      rw [addressLoop, DnsRelay.addressLoop]
      refine readRr_cases offset (fun nameEnd h10 hend => ?_) fun nameEnd hend => ?_
      · rw [u16FromBeBytes_bind (by omega), u16FromBeBytes_bind (by omega), if_pos hend]
        rfl
      · rw [u16FromBeBytes_bind (by omega), u16FromBeBytes_bind (by omega),
          if_neg (by omega), range_inside (Nat.le_add_right ..) hend, ok_bind, ih, ih]
        exact (apply_ite Except.ok _ _ _).symm

theorem parseARecordsLoop_eq (n pos : Nat) :
    parseARecordsLoop buf n pos = .ok (DnsRelay.parseARecordsLoop buf n pos) := by
  induction n generalizing pos with
  | zero => rfl
  | succ n ih =>
      rw [parseARecordsLoop, DnsRelay.parseARecordsLoop]
      refine readRr_cases pos (fun nameEnd h10 hend => ?_) fun nameEnd hend => ?_
      · rw [u16FromBeBytes_bind (by omega), u16FromBeBytes_bind (by omega), if_pos hend]
        rfl
      · rw [u16FromBeBytes_bind (by omega), u16FromBeBytes_bind (by omega), if_neg (by omega), ih]
        by_cases ha : u16At buf nameEnd = 1 ∧ u16At buf (nameEnd + 8) = 4
        · have hslice := slice_four (b := buf) (i := nameEnd + 10) (by omega)
          have hdata : slice buf (rrFields buf nameEnd).rdataStart (rrFields buf nameEnd).rdataEnd =
              slice buf (nameEnd + 10) (nameEnd + 10 + 4) := by
            rw [← ha.2]
            rfl
          have ha' : (rrFields buf nameEnd).rtype = 1 ∧ (rrFields buf nameEnd).rdlength = 4 := ha
          rw [if_pos ha, if_pos ha', hdata, hslice, index_bind (by omega),
            index_bind (by omega), index_bind (by omega),
            index_bind (by omega)]
          rfl
        · have ha' : ¬((rrFields buf nameEnd).rtype = 1 ∧ (rrFields buf nameEnd).rdlength = 4) := ha
          rw [if_neg ha, if_neg ha']
          rfl

theorem answerTtlLoop_eq (n offset answerTtl : Nat) :
    answerTtlLoop buf n offset answerTtl = .ok (DnsRelay.answerTtlLoop buf n offset answerTtl) := by
  induction n generalizing offset answerTtl with
  | zero => rfl
  | succ n ih =>
      rw [answerTtlLoop, DnsRelay.answerTtlLoop]
      refine readRr_cases offset (fun nameEnd h10 hend => ?_) fun nameEnd hend => ?_
      · rw [range_bind (by omega) (by omega), u32FromSlice_slice (by omega)]
        simp only
        rw [u16FromBeBytes_bind (by omega), if_pos (.inl hend)]
        rfl
      · rw [range_bind (by omega) (by omega), u32FromSlice_slice (by omega)]
        simp only
        rw [u16FromBeBytes_bind (by omega), ih]
        by_cases hzero : u32At buf (nameEnd + 4) = 0
        · rw [if_pos (.inr hzero), if_pos (show rrTtl buf (rrFields buf nameEnd) = 0 from hzero)]
          rfl
        · rw [if_neg (by omega), if_neg (show ¬rrTtl buf (rrFields buf nameEnd) = 0 from hzero)]
          rfl

theorem soaTtl_eq (rr : Rr) (hend : rr.rdataEnd ≤ buf.length) :
    soaTtl buf rr.rdataStart rr.rdataEnd (rrTtl buf rr) = .ok (DnsRelay.soaTtl buf rr) := by
  rw [soaTtl, DnsRelay.soaTtl, skipName_eq, ok_bind]
  cases DnsRelay.skipName buf rr.rdataStart with
  | none => rfl
  | some mnameEnd =>
      simp only
      rw [skipName_eq, ok_bind]
      cases DnsRelay.skipName buf mnameEnd with
      | none => rfl
      | some rnameEnd =>
          simp only
          by_cases hlong : rr.rdataEnd < rnameEnd + 20
          · rw [if_pos hlong, if_pos hlong]
            rfl
          · rw [if_neg hlong, if_neg hlong, range_bind (by omega) (by omega),
              u32FromSlice_slice (by omega)]
            rfl

theorem negativeTtlLoop_eq (n offset : Nat) :
    negativeTtlLoop buf n offset = .ok (DnsRelay.negativeTtlLoop buf n offset) := by
  induction n generalizing offset with
  | zero => rfl
  | succ n ih =>
      rw [negativeTtlLoop, DnsRelay.negativeTtlLoop]
      refine readRr_cases offset (fun nameEnd h10 hend => ?_) fun nameEnd hend => ?_
      · rw [u16FromBeBytes_bind (by omega), range_bind (by omega) (by omega),
          u32FromSlice_slice (by omega)]
        simp only
        rw [u16FromBeBytes_bind (by omega), if_pos hend]
        rfl
      · have hsoa := soaTtl_eq (rrFields buf nameEnd) hend
        rw [u16FromBeBytes_bind (by omega), range_bind (by omega) (by omega),
          u32FromSlice_slice (by omega)]
        simp only
        rw [u16FromBeBytes_bind (by omega), if_neg (by omega), ih]
        exact (congrArg (fun x => if u16At buf nameEnd = 6 then x else _) hsoa).trans
          (apply_ite Except.ok _ _ _).symm

theorem skipRr_eq (offset : Nat) : skipRr buf offset = .ok (DnsRelay.skipRr buf offset) := by
  have hmap : DnsRelay.skipRr buf offset = match readRr buf offset with
      | none => none
      | some rr => some rr.rdataEnd := by
    rw [DnsRelay.skipRr]
    cases readRr buf offset with
    | none => rfl
    | some rr => rfl
  rw [skipRr, hmap]
  refine readRr_cases offset (fun nameEnd h10 hend => ?_) fun nameEnd hend => ?_
  · rw [u16FromBeBytes_bind (by omega), if_pos hend]
    rfl
  · rw [u16FromBeBytes_bind (by omega), if_neg (by omega)]
    rfl

theorem skipRrs_eq (n pos : Nat) : skipRrs buf n pos = .ok (DnsRelay.skipRrs buf n pos) := by
  induction n generalizing pos with
  | zero => rfl
  | succ n ih =>
      rw [skipRrs, DnsRelay.skipRrs, skipRr_eq, ok_bind]
      cases DnsRelay.skipRr buf pos with
      | none => rfl
      | some next => exact ih next

theorem findOptLoop_eq (n pos : Nat) :
    findOptLoop buf n pos = .ok (DnsRelay.findOptLoop buf n pos) := by
  induction n generalizing pos with
  | zero => rfl
  | succ n ih =>
      rw [findOptLoop, DnsRelay.findOptLoop]
      refine readRr_cases pos (fun nameEnd h10 hend => ?_) fun nameEnd hend => ?_
      · rw [u16FromBeBytes_bind (by omega), u16FromBeBytes_bind (by omega),
          range_bind (by omega) (by omega), u16FromBeBytes_bind (by omega), if_pos hend]
        rfl
      · have hslice := slice_four (b := buf) (i := nameEnd + 4) (by omega)
        rw [u16FromBeBytes_bind (by omega), u16FromBeBytes_bind (by omega),
          range_bind (by omega) (by omega), u16FromBeBytes_bind (by omega),
          if_neg (by omega), range_inside (Nat.le_add_right ..) hend, ih, hslice]
        exact (apply_ite Except.ok _ _ _).symm

theorem parseOptionsLoop_eq (pos : Nat) :
    parseOptionsLoop buf pos = .ok (DnsRelay.parseOptionsLoop buf pos) := by
  fun_induction DnsRelay.parseOptionsLoop buf pos with
  | case1 pos hhead hlong =>
      rw [parseOptionsLoop, if_pos hhead, u16FromBeBytes_bind (by omega),
        u16FromBeBytes_bind (by omega), if_pos hlong]
      rfl
  | case2 pos hhead hlong ih =>
      rw [parseOptionsLoop, if_pos hhead, u16FromBeBytes_bind (by omega),
        u16FromBeBytes_bind (by omega), if_neg hlong,
        range_inside (Nat.le_add_right ..) (by omega), ok_bind, ih]
      rfl
  | case3 pos hhead =>
      rw [parseOptionsLoop, if_neg hhead]
      rfl

end Records

theorem ageTtlsLoop_eq (elapsed : Nat) (stale : Bool) (n offset : Nat) (packet : Bytes) :
    ageTtlsLoop elapsed stale n offset packet =
      .ok (DnsRelay.ageTtlsLoop elapsed stale n offset packet) := by
  induction n generalizing offset packet with
  | zero => rfl
  | succ n ih =>
      rw [ageTtlsLoop, DnsRelay.ageTtlsLoop, skipName_eq, ok_bind]
      cases DnsRelay.skipName packet offset with
      | none => rfl
      | some nameEnd =>
          simp only
          by_cases h10 : packet.length < nameEnd + 10
          · rw [if_pos h10, if_pos h10]
            rfl
          · rw [if_neg h10, if_neg h10, range_bind (by omega) (by omega),
              u32FromSlice_slice (by omega)]
            generalize hnew : toBe32 (remainingTtl stale elapsed (u32At packet (nameEnd + 4))) = new
            have hlen : new.length = 4 := hnew ▸ toBe32_length _
            have hfit : nameEnd + 4 + new.length ≤ packet.length := by omega
            have hcopy := copyFromSlice_inside hfit
            have hwritten := overwrite_length hfit
            rw [hlen] at hcopy
            -- the field is written before the length of the data is read
            simp only [expect, ok_bind, hnew, hcopy]
            rw [u16FromBeBytes_bind (by omega)]
            by_cases hend : (overwrite packet (nameEnd + 4) new).length <
                nameEnd + 10 + u16At (overwrite packet (nameEnd + 4) new) (nameEnd + 8)
            · rw [if_pos hend, if_pos hend]
              rfl
            · rw [if_neg hend, if_neg hend]
              exact ih _ _

section Packets

variable (packet : Bytes)

theorem responseHasOnlyUnspecifiedAddresses_eq :
    responseHasOnlyUnspecifiedAddresses packet =
      .ok (DnsRelay.responseHasOnlyUnspecifiedAddresses packet) := by
  rw [responseHasOnlyUnspecifiedAddresses, DnsRelay.responseHasOnlyUnspecifiedAddresses]
  by_cases h12 : packet.length < 12
  · rw [if_pos h12, if_pos h12]
    rfl
  · rw [if_neg h12, if_neg h12, u16FromBeBytes_bind (by omega),
      u16FromBeBytes_bind (by omega), readQuestions_eq, ok_bind]
    simp only [qdcount, ancount]
    cases DnsRelay.readQuestions packet (u16At packet 4) 12 with
    | none => rfl
    | some offset =>
        simp only
        rw [addressLoop_eq, ok_bind]
        cases DnsRelay.addressLoop packet (u16At packet 6) offset 0 false with
        | none => rfl
        | some r => rfl

theorem parseARecords_eq : parseARecords packet = .ok (DnsRelay.parseARecords packet) := by
  rw [parseARecords, DnsRelay.parseARecords]
  by_cases h12 : packet.length < 12
  · rw [if_pos h12, if_pos h12]
    rfl
  · rw [if_neg h12, if_neg h12, u16FromBeBytes_bind (by omega),
      u16FromBeBytes_bind (by omega), skipQuestions_eq, ok_bind]
    simp only [qdcount, ancount]
    cases DnsRelay.skipQuestions packet (u16At packet 4) 12 with
    | none => rfl
    | some pos => exact parseARecordsLoop_eq _ _

theorem responseCacheTtl_eq : responseCacheTtl packet = .ok (DnsRelay.responseCacheTtl packet) := by
  have hsections : 12 ≤ packet.length → cacheTtlSections packet =
      .ok (match DnsRelay.readQuestions packet (qdcount packet) 12 with
        | none => none
        | some offset =>
            match DnsRelay.answerTtlLoop packet (ancount packet) offset u32Max with
            | none => none
            | some (offset, answerTtl) =>
                if 0 < ancount packet then if answerTtl ≠ u32Max then some answerTtl else none
                else DnsRelay.negativeTtlLoop packet (nscount packet) offset) := by
    intro h12
    rw [cacheTtlSections, u16FromBeBytes_bind (by omega),
      u16FromBeBytes_bind (by omega), u16FromBeBytes_bind (by omega), readQuestions_eq, ok_bind]
    simp only [qdcount, ancount, nscount]
    cases DnsRelay.readQuestions packet (u16At packet 4) 12 with
    | none => rfl
    | some offset =>
        simp only
        rw [answerTtlLoop_eq, ok_bind]
        cases DnsRelay.answerTtlLoop packet (u16At packet 6) offset u32Max with
        | none => rfl
        | some r =>
            simp only
            rw [negativeTtlLoop_eq]
            exact (apply_ite Except.ok _ _ _).symm
  rw [responseCacheTtl, DnsRelay.responseCacheTtl]
  by_cases h12 : packet.length < 12
  · rw [if_pos h12, if_pos (by simp [cacheableHeader, h12])]
    rfl
  · have h2 := index_inside (b := packet) (i := 2) (by omega)
    have h3 := index_inside (b := packet) (i := 3) (by omega)
    rw [if_neg h12, h2, ok_bind]
    by_cases hqr : byteAt packet 2 &&& 0x80 = 0
    · rw [if_pos hqr, if_pos (by simp [cacheableHeader, hqr])]
      rfl
    · rw [if_neg hqr, ok_bind]
      by_cases htc : byteAt packet 2 &&& 0x02 ≠ 0
      · rw [if_pos htc, if_pos (by simp [cacheableHeader, htc])]
        rfl
      · rw [if_neg htc, h3, ok_bind, hsections (by omega)]
        by_cases hrcode : byteAt packet 3 &&& 0x0F ≠ 0 ∧ byteAt packet 3 &&& 0x0F ≠ 3
        · rw [if_pos hrcode, if_pos (by simp [cacheableHeader, hrcode])]
          rfl
        · have hheader : cacheableHeader packet = true := by
            rw [not_and_or, not_not, not_not] at hrcode
            rw [not_not] at htc
            simp only [cacheableHeader, Bool.and_eq_true, Bool.or_eq_true, decide_eq_true_eq]
            exact ⟨⟨⟨by omega, hqr⟩, htc⟩, hrcode⟩
          rw [if_neg hrcode, hheader]
          rfl

theorem ageResponseTtls_eq (elapsed : Nat) (stale : Bool) :
    ageResponseTtls packet elapsed stale = .ok (DnsRelay.ageResponseTtls packet elapsed stale) := by
  rw [ageResponseTtls, DnsRelay.ageResponseTtls]
  by_cases h12 : packet.length < 12
  · rw [if_pos h12, if_pos h12]
    rfl
  · rw [if_neg h12, if_neg h12, u16FromBeBytes_bind (by omega),
      u16FromBeBytes_bind (by omega), u16FromBeBytes_bind (by omega), readQuestions_eq, ok_bind]
    simp only [qdcount, ancount, nscount]
    cases DnsRelay.readQuestions packet (u16At packet 4) 12 with
    | none => rfl
    | some offset => exact ageTtlsLoop_eq ..

theorem findOptRecord_eq : findOptRecord packet = .ok (DnsRelay.findOptRecord packet) := by
  rw [findOptRecord, DnsRelay.findOptRecord, additionalStart]
  by_cases h12 : packet.length < 12
  · rw [if_pos h12, if_pos h12]
    rfl
  · rw [if_neg h12, if_neg h12, u16FromBeBytes_bind (by omega),
      u16FromBeBytes_bind (by omega), u16FromBeBytes_bind (by omega),
      u16FromBeBytes_bind (by omega), skipQuestions_eq, ok_bind]
    simp only [qdcount, ancount, nscount, arcount]
    cases DnsRelay.skipQuestions packet (u16At packet 4) 12 with
    | none => rfl
    | some pos =>
        simp only
        rw [skipRrs_eq, ok_bind]
        cases DnsRelay.skipRrs packet (u16At packet 6 + u16At packet 8) pos with
        | none => rfl
        | some pos => exact findOptLoop_eq _ _

/-- Two bytes fill an array of two. -/
theorem copyFromSlice_pair {src : Bytes} (h : src.length = 2) :
    copyFromSlice [0, 0] 0 2 src = .ok src := by
  have hcopy := @copyFromSlice_inside [0, 0] 0 src (by rw [h]; decide)
  rw [h] at hcopy
  refine hcopy.trans (congrArg Except.ok ?_)
  rw [overwrite, h]
  exact List.append_nil src

theorem craftRedirectResponse_eq (qnameEnd : Nat) (ipsStr : List Str) :
    craftRedirectResponse packet qnameEnd ipsStr =
      .ok (DnsRelay.craftRedirectResponse packet qnameEnd ipsStr) := by
  rw [craftRedirectResponse, DnsRelay.craftRedirectResponse]
  by_cases h12 : packet.length < 12
  · rw [if_pos h12, if_pos (.inl h12)]
    rfl
  · have hflags := assign_two (b := packet) (i := 2) (by omega) 0x81 0x80
    have hlen : (overwrite packet 2 [0x81, 0x80]).length = packet.length :=
      overwrite_length (show 2 + 2 ≤ packet.length by omega)
    rw [if_neg h12, ← bind_assoc, hflags, ok_bind, hlen]
    by_cases hfit : packet.length < qnameEnd + 4
    · rw [if_pos hfit, if_pos (.inr hfit)]
      rfl
    · have hslice : ∀ i, i + 2 ≤ packet.length →
          (slice (overwrite packet 2 [0x81, 0x80]) i (i + 2)).length = 2 := fun i hi => by
        rw [slice_length (by omega)]
        omega
      have hneg : ¬(packet.length < 12 ∨ packet.length < qnameEnd + 4) := by omega
      rw [if_neg hfit, if_neg hneg, range_bind (by omega) (by omega),
        copyFromSlice_pair (hslice qnameEnd (by omega)), ok_bind,
        range_bind (by omega) (by omega),
        copyFromSlice_pair (hslice (qnameEnd + 2) (by omega)), ok_bind]
      simp only
      by_cases hempty : (ipsStr.filterMap parseIpv4Addr).isEmpty = true
      · rw [if_pos hempty, if_pos hempty]
        rfl
      · generalize hnew : toBe16 ((ipsStr.filterMap parseIpv4Addr).length % 65536) = new
        have hcount := assign_two (b := overwrite packet 2 [0x81, 0x80]) (i := 6) (by omega)
          (UInt8.ofNat ((ipsStr.filterMap parseIpv4Addr).length % 65536 / 256))
          (UInt8.ofNat ((ipsStr.filterMap parseIpv4Addr).length % 65536))
        have hnew' : new.length = 2 := hnew ▸ toBe16_length _
        have hlen' : (overwrite (overwrite packet 2 [0x81, 0x80]) 6 new).length =
            packet.length := by
          rw [overwrite_length (by omega), hlen]
        rw [if_neg hempty, if_neg hempty, ← bind_assoc, hcount, ok_bind]
        rw [toBe16] at hnew
        rw [hnew, splice_inside (by omega)]
        rfl

end Packets

end Bounds

/-- No walker reads or writes outside of its buffer. -/
theorem walkers_stay_in_bounds (buf : Bytes) :
    (∀ pos, Bounds.skipName buf pos = .ok (skipName buf pos)) ∧
      (∀ pos e, skipName buf pos = some e → e ≤ buf.length + 1) ∧
      (∀ pos, Bounds.skipRr buf pos = .ok (skipRr buf pos)) ∧
      Bounds.parseARecords buf = .ok (parseARecords buf) ∧
      Bounds.responseHasOnlyUnspecifiedAddresses buf =
        .ok (responseHasOnlyUnspecifiedAddresses buf) ∧
      Bounds.responseCacheTtl buf = .ok (responseCacheTtl buf) ∧
      (∀ elapsed stale, Bounds.ageResponseTtls buf elapsed stale =
        .ok (ageResponseTtls buf elapsed stale)) ∧
      Bounds.findOptRecord buf = .ok (findOptRecord buf) ∧
      Bounds.parseOptions buf = .ok (parseOptions buf) ∧
      ∀ qnameEnd targets, Bounds.craftRedirectResponse buf qnameEnd targets =
        .ok (craftRedirectResponse buf qnameEnd targets) :=
  ⟨Bounds.skipName_eq, fun _ _ h => Bounds.skipName_le h, Bounds.skipRr_eq,
    Bounds.parseARecords_eq buf, Bounds.responseHasOnlyUnspecifiedAddresses_eq buf,
    Bounds.responseCacheTtl_eq buf, Bounds.ageResponseTtls_eq buf, Bounds.findOptRecord_eq buf,
    Bounds.parseOptionsLoop_eq 0, Bounds.craftRedirectResponse_eq buf⟩

-- a pointer of one byte ends past the packet
example : skipName [0xC0] 0 = some 2 := by decide

end DnsRelay
