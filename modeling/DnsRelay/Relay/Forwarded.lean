import DnsRelay.Relay.Coalescing
import DnsRelay.Shared.EcsRewrite

/-!
# The requests behind a key

A query that gets a key is forwarded for all that join it.  This module is
about what the key says of the query and what forwarding adds to it.

The key has nothing of the opcode and of the number of questions.
`request` builds, for every key that occurs, a query of any opcode with any
number of questions behind it.

A query without an OPT record gets one, and the header counts it.  The count
is taken from the header as it came and need not be that of the records there
are.  `ecs_fields_fit_iff` says when it still fits.
-/

namespace DnsRelay

open Lib

/-! ## Names -/

def encodeName : List Bytes → Bytes
  | [] => [0]
  | l :: labels => UInt8.ofNat l.length :: (l ++ encodeName labels)

theorem NameAt.label_length {p : Bytes} {offset hops : Nat} {labels : List Bytes}
    (h : NameAt p offset hops labels) : ∀ l ∈ labels, 1 ≤ l.length ∧ l.length ≤ 63 := by
  induction h with
  | root => exact fun l hl => absurd hl List.not_mem_nil
  | label hlen hpos h63 hend _ ih =>
      intro l hl
      rcases List.mem_cons.mp hl with rfl | hl
      · rw [slice_length hend]
        omega
      · exact ih l hl
  | pointer _ _ _ _ ih => exact ih

/-- A name that was written is read back, and so is its end. -/
theorem nameAt_encodeName (b : Bytes) : ∀ {labels : List Bytes} (a : Bytes),
    (∀ l ∈ labels, 1 ≤ l.length ∧ l.length ≤ 63) →
    NameAt (a ++ (encodeName labels ++ b)) a.length 0 labels ∧
      NameEndAt (a ++ (encodeName labels ++ b)) a.length (a.length + (encodeName labels).length)
  | [], a, _ => by
      have hzero : byteAt (a ++ (encodeName [] ++ b)) a.length = 0 := byteAt_append_add a _ 0
      refine ⟨.root ?_ hzero, .root hzero⟩
      rw [List.length_append, List.length_append]
      exact Nat.lt_add_of_pos_right (Nat.add_pos_left Nat.zero_lt_one _)
  | l :: labels, a, h => by
      obtain ⟨hpos, h63⟩ := h l List.mem_cons_self
      have hassoc : a ++ (encodeName (l :: labels) ++ b) =
          (a ++ UInt8.ofNat l.length :: l) ++ (encodeName labels ++ b) := by
        simp only [encodeName, List.append_assoc, List.cons_append]
      have hlen : (a ++ UInt8.ofNat l.length :: l).length = a.length + 1 + l.length := by
        rw [List.length_append, List.length_cons]
        omega
      have hbyte : (byteAt (a ++ (encodeName (l :: labels) ++ b)) a.length).toNat = l.length := by
        have h0 : byteAt (a ++ (encodeName (l :: labels) ++ b)) a.length =
          UInt8.ofNat l.length := byteAt_append_add a _ 0
        rw [h0, toNat_ofNat]
        omega
      have hslice : slice (a ++ (encodeName (l :: labels) ++ b)) (a.length + 1)
          (a.length + 1 + l.length) = l := by
        rw [Nat.add_assoc, slice_append_add]
        exact (slice_append_add [UInt8.ofNat l.length] (l ++ encodeName labels ++ b) 0
          l.length).trans (by rw [List.append_assoc, slice_append_left])
      obtain ⟨hname, hend⟩ := nameAt_encodeName b (a ++ UInt8.ofNat l.length :: l)
        fun x hx => h x (List.mem_cons_of_mem l hx)
      rw [← hassoc, hlen] at hname hend
      have htotal : a.length + (encodeName (l :: labels)).length =
          a.length + 1 + l.length + (encodeName labels).length := by
        rw [encodeName, List.length_cons, List.length_append]
        omega
      have hfit : a.length + 1 + l.length ≤ (a ++ (encodeName (l :: labels) ++ b)).length := by
        rw [hassoc, List.length_append, hlen]
        exact Nat.le_add_right ..
      constructor
      · have hlabel := NameAt.label hbyte hpos h63 hfit hname
        rwa [hslice] at hlabel
      · rw [htotal]
        exact .label hbyte hpos h63 hend

/-! ## A request of any kind -/

def opcode (p : Bytes) : Nat := (byteAt p 2).toNat / 8 % 16

/-- Two requests are of the same kind: one opcode, and one question each. -/
def SameKind (p1 p2 : Bytes) : Prop := opcode p1 = opcode p2 ∧ qdcount p1 = 1 ∧ qdcount p2 = 1

instance (p1 p2 : Bytes) : Decidable (SameKind p1 p2) :=
  inferInstanceAs (Decidable (_ ∧ _ ∧ _))

def rootQuestion : Bytes := [0, 0, 1, 0, 1]

def dnssecOpt : EdnsOpt := { syntheticOpt [] with flags := 0x8000 }

/-- The question of `p` in a request of opcode `o` with `c` questions.  The
name is that of `labels`, and type and class stand at `qnameEnd` of `p`. -/
def request (p : Bytes) (labels : List Bytes) (qnameEnd o c : Nat) : Sections where
  header := [0, 0, UInt8.ofNat (o * 8 + (byteAt p 2).toNat % 2), byteAt p 3] ++
    (toBe16 c ++ ([0, 0, 0, 0] ++ toBe16 (asksDnssec p).toNat))
  questions := encodeName labels ++ (slice p qnameEnd (qnameEnd + 4) ++
    (List.replicate (c - 1) rootQuestion).flatten)
  records := []
  additional := if asksDnssec p then [optRecord dnssecOpt []] else []

theorem readQuestions_roots : ∀ (n : Nat) (a : Bytes),
    readQuestions (a ++ (List.replicate n rootQuestion).flatten) n a.length =
      some (a ++ (List.replicate n rootQuestion).flatten).length
  | 0, a => by
      rw [List.replicate_zero, List.flatten_nil, List.append_nil]
      rfl
  | n + 1, a => by
      have hassoc : a ++ (List.replicate (n + 1) rootQuestion).flatten =
          (a ++ rootQuestion) ++ (List.replicate n rootQuestion).flatten := by
        rw [List.replicate_succ, List.flatten_cons, List.append_assoc]
      have hlen : (a ++ rootQuestion).length = a.length + 5 := List.length_append
      have htotal : a.length + 5 ≤ (a ++ (List.replicate (n + 1) rootQuestion).flatten).length := by
        rw [hassoc, List.length_append, hlen]
        exact Nat.le_add_right ..
      have hzero : byteAt (a ++ (List.replicate (n + 1) rootQuestion).flatten) a.length = 0 :=
        byteAt_append_add a _ 0
      have ih := readQuestions_roots n (a ++ rootQuestion)
      rw [← hassoc, hlen] at ih
      rw [readQuestions, skipName_root (by omega) hzero]
      simp only
      rw [if_neg (by omega)]
      exact ih

section Request

variable {p : Bytes} {labels : List Bytes} {qnameEnd o c : Nat}

theorem request_wf (hlabels : ∀ l ∈ labels, 1 ≤ l.length ∧ l.length ≤ 63)
    (hend : qnameEnd + 4 ≤ p.length) (hc : 1 ≤ c) (hc' : c < 65536) :
    (request p labels qnameEnd o c).Wf := by
  have hslice : (slice p qnameEnd (qnameEnd + 4)).length = 4 := by
    rw [slice_length hend]
    omega
  have hrecords : 0 = be16 0 0 + be16 0 0 := by decide
  refine ⟨rfl, ?_, hrecords, fun r hr => absurd hr List.not_mem_nil, ?_, ?_⟩
  · obtain ⟨n, rfl⟩ : ∃ n, c = n + 1 := ⟨c - 1, by omega⟩
    have hcount : qdcount (request p labels qnameEnd o (n + 1)).header = n + 1 :=
      (be16_toBe16 (n + 1)).trans (Nat.mod_eq_of_lt hc')
    obtain ⟨hname, hnameEnd⟩ := nameAt_encodeName (slice p qnameEnd (qnameEnd + 4) ++
      (List.replicate n rootQuestion).flatten) [] hlabels
    have hskip := (hname.skipName hnameEnd).1
    rw [List.nil_append, List.length_nil, Nat.zero_add] at hskip
    have hroots := readQuestions_roots n (encodeName labels ++ slice p qnameEnd (qnameEnd + 4))
    rw [List.append_assoc, List.length_append, hslice] at hroots
    rw [hcount, request, Nat.add_sub_cancel, readQuestions, hskip]
    simp only
    rw [if_neg, hroots]
    rw [List.length_append, List.length_append, hslice]
    omega
  · show (if asksDnssec p then [optRecord dnssecOpt []] else []).length =
      be16 (UInt8.ofNat ((asksDnssec p).toNat / 256)) (UInt8.ofNat (asksDnssec p).toNat)
    cases asksDnssec p with
    | false => rfl
    | true => rfl
  · intro r hr
    rw [request] at hr
    split at hr
    · rw [List.mem_singleton.mp hr]
      exact isRecord_optRecord (by decide)
    · exact absurd hr List.not_mem_nil

theorem request_bytes :
    (request p labels qnameEnd o c).bytes = (request p labels qnameEnd o c).header ++
      (encodeName labels ++ (slice p qnameEnd (qnameEnd + 4) ++
        ((List.replicate (c - 1) rootQuestion).flatten ++
          (request p labels qnameEnd o c).additional.flatten))) := by
  rw [Sections.bytes_eq]
  simp only [request, List.flatten_nil, List.nil_append, List.append_assoc]

theorem asksDnssec_request (h : (request p labels qnameEnd o c).Wf) :
    asksDnssec (request p labels qnameEnd o c).bytes = asksDnssec p := by
  cases hask : asksDnssec p with
  | false =>
      have hadd : (request p labels qnameEnd o c).additional = [] := by
        rw [request, hask]
        rfl
      rw [asksDnssec, findOptRecord_none h]
      rw [hadd]
      exact fun r hr => absurd hr List.not_mem_nil
  | true =>
      have hadd : (request p labels qnameEnd o c).additional =
          [] ++ optRecord dnssecOpt [] :: [] := by
        rw [request, hask]
        rfl
      rw [asksDnssec, findOptRecord_first h hadd (fun r hr => absurd hr List.not_mem_nil)
        (optOf_optRecord (by decide) (by decide) (by decide))]
      show (0x8000 &&& 0x8000 != 0) = true
      decide

/-- The request has the key of the query it was made from. -/
theorem cacheKey_request {U : CaseTable} {s : Option Ipv4Subnet} {key : CacheKey} {hops : Nat}
    {texts : List Str} (hkey : cacheKeyFromQueryForSubnet U p s = some key)
    (hname : NameAt p 12 hops (texts.map utf8)) (hhops : hops ≤ 128)
    (hlast : NameEndAt p 12 qnameEnd) (hc : 1 ≤ c) (hc' : c < 65536) :
    cacheKeyFromQueryForSubnet U (request p (texts.map utf8) qnameEnd o c).bytes s = some key := by
  obtain ⟨h12, e, hparse, hend, htype, hclass, hflags, hdo, hsubnet⟩ := cacheKey_iff.mp hkey
  rw [parseDomain_complete hname hhops hlast] at hparse
  obtain ⟨hrender, rfl⟩ := Prod.mk.inj (Option.some.inj hparse)
  have hwf : (request p (texts.map utf8) qnameEnd o c).Wf :=
    request_wf hname.label_length hend hc hc'
  have hread := nameAt_encodeName (slice p qnameEnd (qnameEnd + 4) ++
    ((List.replicate (c - 1) rootQuestion).flatten ++
      (request p (texts.map utf8) qnameEnd o c).additional.flatten))
    (request p (texts.map utf8) qnameEnd o c).header hname.label_length
  rw [← request_bytes, hwf.header] at hread
  have hlen : 12 + (encodeName (texts.map utf8)).length + 4 ≤
      (request p (texts.map utf8) qnameEnd o c).bytes.length := by
    rw [request_bytes, List.length_append, List.length_append, List.length_append, hwf.header,
      slice_length hend]
    omega
  have hfield : ∀ i < 3, u16At (request p (texts.map utf8) qnameEnd o c).bytes
      (12 + (encodeName (texts.map utf8)).length + i) = u16At p (qnameEnd + i) := by
    intro i hi
    rw [request_bytes, ← hwf.header, Nat.add_assoc, u16At_append_add, u16At_append_add, u16At,
      byteAt_append_left (by rw [slice_length hend]; omega),
      byteAt_append_left (by rw [slice_length hend]; omega)]
    exact u16At_slice (by omega)
  have hrd : UInt8.ofNat (o * 8 + (byteAt p 2).toNat % 2) &&& 0x01 = byteAt p 2 &&& 0x01 := by
    apply UInt8.toNat_inj.mp
    rw [UInt8.toNat_and, UInt8.toNat_and, toNat_ofNat]
    show _ &&& 1 = _ &&& 1
    rw [Nat.and_one_is_mod, Nat.and_one_is_mod]
    omega
  refine cacheKey_iff.mpr ⟨by omega, 12 + (encodeName (texts.map utf8)).length, ?_, hlen,
    htype.trans (hfield 0 (by decide)).symm, hclass.trans (hfield 2 (by decide)).symm, ?_,
    hdo.trans (asksDnssec_request hwf).symm, hsubnet⟩
  · rw [parseDomain_complete hread.1 (Nat.zero_le _) hread.2, hrender]
  · rw [hflags, ← hrd]
    rfl

end Request

/-- Behind every key that occurs there are requests of every opcode with every
number of questions.  No key stands for requests of one kind. -/
theorem key_hides_kind {U : CaseTable} {p : Bytes} {s : Option Ipv4Subnet} {key : CacheKey}
    (h : cacheKeyFromQueryForSubnet U p s = some key) :
    (∀ o < 16, ∀ c, 1 ≤ c → c < 65536 → ∃ p', cacheKeyFromQueryForSubnet U p' s = some key ∧
      opcode p' = o ∧ qdcount p' = c) ∧
    ¬∀ p1 p2, cacheKeyFromQueryForSubnet U p1 s = some key →
      cacheKeyFromQueryForSubnet U p2 s = some key → SameKind p1 p2 := by
  obtain ⟨-, qnameEnd, hparse, hend, -⟩ := cacheKey_iff.mp h
  obtain ⟨hops, texts, hname, hhops, -, hlast⟩ := parseDomain_spec hparse
  have hall : ∀ o < 16, ∀ c, 1 ≤ c → c < 65536 → ∃ p',
      cacheKeyFromQueryForSubnet U p' s = some key ∧ opcode p' = o ∧ qdcount p' = c := by
    intro o ho c hc hc'
    refine ⟨_, @cacheKey_request p qnameEnd o c _ _ _ _ _ h hname hhops hlast hc hc', ?_, ?_⟩
    · show (UInt8.ofNat (o * 8 + (byteAt p 2).toNat % 2)).toNat / 8 % 16 = o
      rw [toNat_ofNat]
      omega
    · exact (be16_toBe16 c).trans (Nat.mod_eq_of_lt hc')
  refine ⟨hall, fun hsame => ?_⟩
  obtain ⟨p1, hkey1, hop1, -⟩ := hall 0 (by decide) 1 (by decide) (by decide)
  obtain ⟨p2, hkey2, hop2, -⟩ := hall 2 (by decide) 1 (by decide) (by decide)
  have hop := (hsame p1 p2 hkey1 hkey2).1
  rw [hop1, hop2] at hop
  cases hop

theorem key_hides_kind_plain :
    let p := addressQuery [1, 0x61, 0]
    let key : CacheKey := ⟨['a'], 1, 1, 1, false, none⟩
    cacheKeyFromQueryForSubnet .ascii p none = some key ∧
      (∀ o < 16, ∀ c, 1 ≤ c → c < 65536 → ∃ p',
        cacheKeyFromQueryForSubnet .ascii p' none = some key ∧ opcode p' = o ∧ qdcount p' = c) ∧
      ¬∀ p1 p2, cacheKeyFromQueryForSubnet .ascii p1 none = some key →
        cacheKeyFromQueryForSubnet .ascii p2 none = some key → SameKind p1 p2 :=
  ⟨by decide +kernel, @key_hides_kind .ascii (addressQuery [1, 0x61, 0]) _ _ (by decide +kernel)⟩

namespace Handler

/-- The query of `sampleQuery` with the opcode of a status request. -/
def statusPayload : Bytes := overwrite sampleQuery.payload 2 [0x11]

def notImplemented : Bytes :=
  [0xAA, 0xBB, 0x91, 0x84, 0, 1, 0, 0, 0, 0, 0, 0] ++ [1, 0x61, 0] ++ [0, 1, 0, 1]

def refusingNetwork : Network := ⟨fun _ _ => none, [(0, .primary (.ok notImplemented))]⟩

/-- One client leads with a status request.  Another one that asks for an
address follows and gets the reply to the status request. -/
theorem status_reply_reaches_query :
    let M := EvictingMap.recent CacheKey CacheEntry (cacheCapacity - 1)
    cacheKeyFromQueryForSubnet .ascii sampleQuery.payload none = some overlapKeyed.key ∧
      cacheKeyFromQueryForSubnet .ascii statusPayload none = some overlapKeyed.key ∧
      opcode sampleQuery.payload = 0 ∧ opcode statusPayload = 2 ∧
      ¬SameKind sampleQuery.payload statusPayload ∧ isUsableResponse notImplemented true = true ∧
      ∃ s, (machine .ascii .insertion M true none).run (new M none)
          (leadAndFollow (sampleQuery.withPayload statusPayload) ++ endBoth refusingNetwork) =
            some s ∧
        s.calls[1]?.map (fun call => (call.query.payload, call.stage)) =
          some (sampleQuery.payload,
            .done (some ⟨withTxid notImplemented (0, 0), .upstream⟩)) := by
  intro M
  refine ⟨by decide +kernel, by decide +kernel, by decide, by decide, by decide,
    by decide +kernel, ?_⟩
  have hrun : ((machine .ascii .insertion M true none).run (new M none)
      (leadAndFollow (sampleQuery.withPayload statusPayload) ++ endBoth refusingNetwork)).any
        (fun s => decide (s.calls[1]?.map (fun call => (call.query.payload, call.stage)) =
          some (sampleQuery.payload,
            .done (some ⟨withTxid notImplemented (0, 0), .upstream⟩)))) = true := by
    decide +kernel
  obtain ⟨s, hs, hcall⟩ := (Option.any_eq_true _ _).mp hrun
  exact ⟨s, hs, of_decide_eq_true hcall⟩

end Handler

/-! ## The fields of the added option -/

/-- The numbers that are narrowed to 16 bits when a network is set: the lengths
of the options, the length of them all, and the count of a new record. -/
def narrowed (payload : Bytes) (n : Ipv4Subnet) : List Nat :=
  match findOptRecord payload with
  | some existing =>
      (keptOptions existing).map (fun o => o.data.length) ++ [(ecsData n).length,
        (encodeOptions (keptOptions existing) ++ encodeOption (ecsOption n)).length]
  | none =>
      [(ecsData n).length, (encodeOption (ecsOption n)).length, arcount payload + 1]

theorem findOptRecord_options_length {p : Bytes} {opt : EdnsOpt}
    (h : findOptRecord p = some opt) : opt.options.length ≤ p.length := by
  obtain ⟨-, pos, before, rr, -, -, -, -, -, -, hopt⟩ := findOptRecord_eq_some.mp h
  rw [hopt]
  show ((p.take rr.rdataEnd).drop rr.rdataStart).length ≤ p.length
  rw [List.length_drop, List.length_take]
  omega

theorem narrowed_some {p : Bytes} {existing : EdnsOpt} (hlen : p.length ≤ 1024)
    (h : findOptRecord p = some existing) (n : Ipv4Subnet) : ∀ x ∈ narrowed p n, x < 65536 := by
  have hoptions := findOptRecord_options_length h
  have hkept := keptOptions_length_le existing
  intro x hx
  simp only [narrowed, h] at hx
  rcases List.mem_append.mp hx with hx | hx
  · obtain ⟨o, ho, rfl⟩ := List.mem_map.mp hx
    exact (mem_keptOptions ho).1.2
  · rcases List.mem_cons.mp hx with rfl | hx
    · exact (ecsOption_fits n).2
    · rw [List.mem_singleton.mp hx, List.length_append, encodeOption_length]
      show _ + (4 + 7) < 65536
      omega

theorem narrowed_none {p : Bytes} (h : findOptRecord p = none) (n : Ipv4Subnet) :
    (∀ x ∈ narrowed p n, x < 65536) ↔ arcount p ≠ 65535 := by
  have hcount : arcount p < 65536 := u16At_lt p 10
  have hecs : (ecsData n).length < 65536 := (ecsOption_fits n).2
  have hoption : (encodeOption (ecsOption n)).length < 65536 := by
    rw [encodeOption_length]
    show 4 + 7 < 65536
    decide
  simp only [narrowed, h, List.forall_mem_cons, hecs, hoption, true_and]
  constructor
  · intro hfit
    have := hfit.1
    omega
  · exact fun hroom => ⟨by omega, fun x hx => absurd hx List.not_mem_nil⟩

/-- The fields that are written for a query that is forwarded fit exactly when
its header announces fewer than 65535 additional records or one of them is an
OPT record. -/
theorem ecs_fields_fit_iff {U : CaseTable} {relayPicker : Option RelayPicker} {q : Query}
    {k : Keyed} (hopen : openQuery U relayPicker q = .keyed k) (hlen : q.payload.length ≤ 1024)
    (n : Ipv4Subnet) :
    ∃ out, setEcsIpv4Subnet q.payload (some n) = some out ∧
      ((∀ x ∈ narrowed q.payload n, x < 65536) ∧
        (findOptRecord q.payload = none → arcount out = arcount q.payload + 1) ↔
          arcount q.payload ≠ 65535 ∨ (findOptRecord q.payload).isSome) := by
  obtain hdone | ⟨packet, -, hdone⟩ | ⟨last, ips, packet, -, hdone⟩ | ⟨k', h12, -⟩ :=
    openQuery_cases U relayPicker q
  · cases hopen.symm.trans hdone
  · cases hopen.symm.trans hdone
  · cases hopen.symm.trans hdone
  cases hopt : findOptRecord q.payload with
  | some existing =>
      obtain ⟨out, -, hrebuild, -⟩ := findOptRecord_rebuilt hopt
        (encodeOptions (keptOptions existing) ++ encodeOption (ecsOption n))
      refine ⟨out, by simp only [setEcsIpv4Subnet, hopt, hrebuild], ?_⟩
      refine iff_of_true ⟨narrowed_some hlen hopt n, fun h => ?_⟩ (.inr rfl)
      cases h
  | none =>
      obtain ⟨-, hcount, -⟩ := appended_spec h12 n
      have hlt : arcount q.payload < 65536 := u16At_lt q.payload 10
      refine ⟨appended q.payload n, ?_, ?_⟩
      · rw [setEcsIpv4Subnet, hopt]
        exact rebuild_synthetic h12 n
      · rw [narrowed_none hopt n, hcount]
        constructor
        · exact fun h => .inl h.1
        · rintro (h | h)
          · exact ⟨h, fun _ => Nat.mod_eq_of_lt (by omega)⟩
          · cases h

namespace Handler

theorem ecs_fields_fit_iff_plain :
    let n : Ipv4Subnet := ⟨203, 0, 113⟩
    openQuery .ascii none sampleQuery = .keyed overlapKeyed ∧
      ∃ out, setEcsIpv4Subnet sampleQuery.payload (some n) = some out ∧
        ((∀ x ∈ narrowed sampleQuery.payload n, x < 65536) ∧
          (findOptRecord sampleQuery.payload = none →
            arcount out = arcount sampleQuery.payload + 1) ↔
          arcount sampleQuery.payload ≠ 65535 ∨ (findOptRecord sampleQuery.payload).isSome) :=
  ⟨by decide +kernel, @ecs_fields_fit_iff .ascii none sampleQuery overlapKeyed (by decide +kernel)
    (by decide) _⟩

/-- A query that announces 65535 additional records and has none. -/
def fullCount : Query := sampleQuery.withPayload (overwrite sampleQuery.payload 10 [0xFF, 0xFF])

/-- It is forwarded with one more record and announces none. -/
theorem count_wraps_to_zero :
    let n : Ipv4Subnet := ⟨203, 0, 113⟩
    openQuery .ascii none fullCount = .keyed overlapKeyed ∧ fullCount.payload.length = 19 ∧
      findOptRecord fullCount.payload = none ∧ 65536 ∈ narrowed fullCount.payload n ∧
      (setEcsIpv4Subnet fullCount.payload (some n)).map (fun out => (out.length, arcount out)) =
        some (41, 0) := by
  decide +kernel

end Handler

end DnsRelay
