import DnsRelay.Shared.CacheKey

/-!
# The network an answer is for

A cache key names the network its answers are for, or none.  The packet that
goes upstream should name the same network in its client subnet option, or
have no such option.  `EcsScope` states this of the packet, read back with
`findOptRecord` and `parseOptions`.

`EcsReady` is what a query must satisfy for it.  A query without a network
must come without a client subnet option, for it is forwarded as it came.  A
query with an OPT record must leave room for one more option.  A query without
one must have a walk that ends where the packet ends, since the new record is
appended there.
-/

namespace DnsRelay

open Lib

def clientSubnets (p : Bytes) : List EdnsOption :=
  match findOptRecord p with
  | none => []
  | some opt => (parseOptions opt.options).filter fun o => o.code = optCodeEcs

/-- The client subnet options of a packet are those of the given network. -/
def EcsScope : Option Ipv4Subnet → Bytes → Prop
  | none, out => clientSubnets out = []
  | some n, out => clientSubnets out = [ecsOption n]

/-- The end of the first `j` additional records. -/
def additionalEnd (p : Bytes) (j : Nat) : Option Nat := (additionalStart p).bind (skipRrs p j)

/-- The queries that take the client subnet option of a network. -/
def EcsReady (p : Bytes) : Option Ipv4Subnet → Prop
  | none => clientSubnets p = []
  | some _ =>
      match findOptRecord p with
      | some existing => (encodeOptions (keptOptions existing)).length + 11 ≤ 65535
      | none => arcount p < 65535 ∧ ∃ j ≤ arcount p, additionalEnd p j = some p.length

def writtenAt (p : Bytes) : Nat :=
  match findOptRecord p with
  | some existing => existing.rrStart
  | none => p.length

/-- The OPT record that is read back is the one that was written. -/
def ReadsWritten (p : Bytes) : Option Ipv4Subnet → Bytes → Prop
  | none, _ => True
  | some _, out => ∃ opt, findOptRecord out = some opt ∧ opt.rrStart = writtenAt p

/-! ## The written record -/

@[simp] theorem optRecord_length (existing : EdnsOpt) (new : Bytes) :
    (optRecord existing new).length = 11 + new.length := by
  simp [optRecord]
  omega

def writtenRr (start : Nat) (existing : EdnsOpt) (new : Bytes) : Rr :=
  ⟨start + 1, 41, existing.udpPayloadSize % 65536, new.length % 65536⟩

theorem skipName_root {p : Bytes} {pos : Nat} (hpos : pos < p.length) (h : byteAt p pos = 0) :
    skipName p pos = some (pos + 1) := by
  rw [skipName, dif_neg (by omega), if_pos h]

/-- A written record is read where it was written. -/
theorem readRr_optRecord (front back : Bytes) (existing : EdnsOpt) (new : Bytes) :
    readRr (front ++ (optRecord existing new ++ back)) front.length =
      some (writtenRr front.length existing new) := by
  have hlen : (front ++ (optRecord existing new ++ back)).length =
      front.length + 11 + new.length + back.length := by
    simp only [List.length_append, optRecord_length]
    omega
  have hmod := Nat.mod_le new.length 65536
  have hroot : byteAt (front ++ (optRecord existing new ++ back)) front.length = 0 :=
    byteAt_append_add front _ 0
  refine readRr_eq_some.mpr ⟨skipName_root (by omega) hroot, ?_, ?_⟩
  · simp only [writtenRr, Rr.rdataEnd, Rr.rdataStart]
    omega
  · have hfield : ∀ i, u16At (front ++ (optRecord existing new ++ back)) (front.length + 1 + i) =
        u16At (optRecord existing new ++ back) (1 + i) := by
      intro i
      rw [Nat.add_assoc, u16At_append_add]
    have htype := (hfield 0).trans (be16_toBe16 41)
    have hclass := (hfield 2).trans (be16_toBe16 existing.udpPayloadSize)
    have hrd := (hfield 8).trans (be16_toBe16 new.length)
    rw [Nat.add_zero] at htype
    simp only [writtenRr, rrFields, htype, hclass, hrd, Nat.reduceMod]

/-- The data of a written record, cut to what its length field can say. -/
theorem options_optRecord (front back : Bytes) (existing : EdnsOpt) (new : Bytes) :
    (ednsOptAt (front ++ (optRecord existing new ++ back)) front.length
      (writtenRr front.length existing new)).options = new.take (new.length % 65536) := by
  have hsplit : optRecord existing new ++ back =
      (optRecord existing new).take 11 ++ (new ++ back) := rfl
  have hmod := Nat.mod_le new.length 65536
  have htake : ((optRecord existing new).take 11).length = 11 := rfl
  simp only [ednsOptAt, writtenRr, Rr.rdataStart, Rr.rdataEnd]
  rw [Nat.add_assoc front.length, Nat.add_assoc front.length, slice_append_add, hsplit,
    show 1 + 10 + new.length % 65536 =
      ((optRecord existing new).take 11).length + new.length % 65536 by rw [htake],
    show 1 + 10 = ((optRecord existing new).take 11).length + 0 by rw [htake],
    slice_append_add, slice, List.drop_zero, List.take_append_of_le_length hmod]

/-- A packet whose walk reaches a written record reads that record back. -/
theorem findOptRecord_written {q front back new : Bytes} {existing : EdnsOpt} {pos : Nat}
    {before : List Rr} (hq : SameOn 12 q.length q (front ++ (optRecord existing new ++ back)))
    (hlen : q.length = (front ++ (optRecord existing new ++ back)).length)
    (h12 : 12 ≤ front.length) (hstart : additionalStart q = some pos)
    (hcount : before.length < arcount q) (hchain : RrsAt q pos before front.length)
    (hno : ∀ r ∈ before, r.rtype ≠ 41) :
    ∃ opt, findOptRecord q = some opt ∧ opt.rrStart = front.length ∧
      opt.options = new.take (new.length % 65536) := by
  have hread := readRr_optRecord front back existing new
  have hb := readRr_bounds hread
  have hsame : ∀ lo hi, 12 ≤ lo → hi ≤ q.length →
      SameOn lo hi (front ++ (optRecord existing new ++ back)) q :=
    fun lo hi hlo hhi => (hq.mono hlo hhi).symm
  have hrdata : (writtenRr front.length existing new).rdataStart ≤
      (writtenRr front.length existing new).rdataEnd := Nat.le_add_right _ _
  have httl : (writtenRr front.length existing new).ttlOffset + 4 ≤
      (writtenRr front.length existing new).rdataEnd := by
    rw [Rr.ttlOffset]
    omega
  have hread' : readRr q front.length = some (writtenRr front.length existing new) :=
    readRr_congr hread (by omega) (hsame _ _ h12 (by omega))
      (hsame _ _ (by rw [Rr.ttlOffset]; omega) (by omega))
  refine ⟨ednsOptAt q front.length (writtenRr front.length existing new),
    findOptRecord_eq_some.mpr ⟨by omega, pos, before, _, hstart, hcount, hchain, hno, hread', rfl,
      rfl⟩, rfl, ?_⟩
  rw [← options_optRecord front back existing new]
  exact slice_congr (by omega) (by omega) (hq.mono (by rw [Rr.rdataStart]; omega) (by omega))

/-! ## Reading the options back -/

theorem ecsOption_fits (n : Ipv4Subnet) : (ecsOption n).Fits := by
  constructor <;> simp [ecsOption, ecsData, optCodeEcs]

theorem mem_keptOptions {existing : EdnsOpt} {o : EdnsOption} (h : o ∈ keptOptions existing) :
    o.Fits ∧ o.code ≠ optCodeEcs := by
  obtain ⟨hmem, hcode⟩ := List.mem_filter.mp h
  exact ⟨(mem_parseOptionsLoop hmem).1, by simpa using hcode⟩

/-- The new options are those that were kept and the client subnet. -/
def newOptions (kept : List EdnsOption) (n : Ipv4Subnet) : Bytes :=
  encodeOptions (kept ++ [ecsOption n])

theorem newOptions_length (kept : List EdnsOption) (n : Ipv4Subnet) :
    (newOptions kept n).length = (encodeOptions kept).length + 11 := by
  rw [newOptions, encodeOptions_append, List.length_append, encodeOptions_cons, encodeOptions_nil,
    List.append_nil, encodeOption_length]
  rfl

theorem newOptions_fits {kept : List EdnsOption} (hkept : ∀ o ∈ kept, o.Fits) (n : Ipv4Subnet) :
    ∀ o ∈ kept ++ [ecsOption n], o.Fits := by
  intro o ho
  rcases List.mem_append.mp ho with ho | ho
  · exact hkept o ho
  · rw [List.mem_singleton.mp ho]
    exact ecsOption_fits n

/-- Options that fit have the client subnet once. -/
theorem clientSubnets_fit {out : Bytes} {opt : EdnsOpt} {kept : List EdnsOption} {n : Ipv4Subnet}
    (hopt : findOptRecord out = some opt)
    (hoptions : opt.options =
      (newOptions kept n).take ((newOptions kept n).length % 65536))
    (hkept : ∀ o ∈ kept, o.Fits ∧ o.code ≠ optCodeEcs)
    (hroom : (encodeOptions kept).length + 11 ≤ 65535) :
    clientSubnets out = [ecsOption n] := by
  have hfits := newOptions_fits (fun o ho => (hkept o ho).1) n
  have hnone : kept.filter (fun o => o.code = optCodeEcs) = [] := by
    rw [List.filter_eq_nil_iff]
    intro o ho
    simpa using (hkept o ho).2
  have hlen := newOptions_length kept n
  rw [Nat.mod_eq_of_lt (by omega), List.take_length] at hoptions
  simp only [clientSubnets, hopt]
  rw [hoptions, newOptions, parseOptions_encodeOptions hfits, List.filter_append, hnone]
  rfl

/-- Options that do not fit lose the client subnet, which is written last. -/
theorem clientSubnets_overflow {out : Bytes} {opt : EdnsOpt} {kept : List EdnsOption}
    {n : Ipv4Subnet} (hopt : findOptRecord out = some opt)
    (hoptions : opt.options =
      (newOptions kept n).take ((newOptions kept n).length % 65536))
    (hfull : 65535 < (encodeOptions kept).length + 11)
    (hold : (encodeOptions kept).length ≤ 65535) :
    clientSubnets out ≠ [ecsOption n] := by
  intro h
  have hlen := newOptions_length kept n
  have hshort : opt.options.length ≤ 10 := by
    rw [hoptions, List.length_take]
    omega
  simp only [clientSubnets, hopt] at h
  have hmem : ecsOption n ∈ parseOptions opt.options := by
    have : ecsOption n ∈ (parseOptions opt.options).filter fun o => o.code = optCodeEcs := by
      rw [h]
      exact List.mem_singleton.mpr rfl
    exact (List.mem_filter.mp this).1
  have hfit := (mem_parseOptionsLoop hmem).2
  have hdata : (ecsOption n).data.length = 7 := rfl
  omega

/-! ## A query with an OPT record -/

/-- The rewritten record is found where the old one was. -/
theorem findOptRecord_rebuilt {p : Bytes} {existing : EdnsOpt}
    (h : findOptRecord p = some existing) (new : Bytes) :
    ∃ out opt, rebuildWithNewOpt p existing new = some out ∧ findOptRecord out = some opt ∧
      opt.rrStart = existing.rrStart ∧ opt.options = new.take (new.length % 65536) := by
  obtain ⟨h12, pos, before, rr, hstart, hcount, hchain, hno, hread, h41, hopt⟩ :=
    findOptRecord_eq_some.mp h
  have hb := readRr_bounds hread
  have hge := additionalStart_ge hstart
  have hle := hchain.pos_le_last
  have hend : existing.rrEnd = rr.rdataEnd := by rw [hopt]; rfl
  have hfront : (p.take existing.rrStart).length = existing.rrStart := by
    rw [List.length_take]
    omega
  have hrebuild : rebuildWithNewOpt p existing new =
      some (p.take existing.rrStart ++ (optRecord existing new ++ p.drop existing.rrEnd)) := by
    rw [rebuildWithNewOpt, if_neg (by omega), List.append_assoc]
  have hsame : SameOn 0 existing.rrStart p
      (p.take existing.rrStart ++ (optRecord existing new ++ p.drop existing.rrEnd)) := by
    intro i _ hi
    rw [byteAt_append_left (by omega), byteAt_take hi]
  have hlen : existing.rrStart ≤
      (p.take existing.rrStart ++ (optRecord existing new ++ p.drop existing.rrEnd)).length := by
    rw [List.length_append]
    omega
  obtain ⟨opt, hfind, hrr, hoptions⟩ :=
    findOptRecord_written (q := p.take existing.rrStart ++
      (optRecord existing new ++ p.drop existing.rrEnd)) (SameOn.refl _ _ _) rfl (by omega)
      (additionalStart_congr hstart (by omega) (hsame.mono (by omega) (by omega))
        (hsame.mono (by omega) (by omega)))
      (by rwa [arcount, ← hsame.u16At (by omega) (by omega)])
      (by
        rw [hfront]
        exact hchain.congr hlen fun i _ h2 _ => hsame i (by omega) h2)
      hno
  exact ⟨_, opt, hrebuild, hfind, by rw [hrr, hfront], hoptions⟩

/-- The options that are kept take no more room than those that came. -/
theorem keptOptions_length_le (opt : EdnsOpt) :
    (encodeOptions (keptOptions opt)).length ≤ opt.options.length := by
  have hparse : (encodeOptions (parseOptionsLoop opt.options 0)).length + 0 ≤
      opt.options.length := encodeOptions_parse_length (Nat.zero_le _)
  have hfilter := encodeOptions_filter_length (fun o => o.code ≠ optCodeEcs)
    (parseOptions opt.options)
  rw [parseOptions] at hfilter
  rw [keptOptions, parseOptions]
  omega

/-- The options that are kept fit a record, as they came in one. -/
theorem keptOptions_length {p : Bytes} {existing : EdnsOpt} (h : findOptRecord p = some existing) :
    (encodeOptions (keptOptions existing)).length ≤ 65535 := by
  obtain ⟨-, pos, before, rr, -, -, -, -, hread, -, hopt⟩ := findOptRecord_eq_some.mp h
  obtain ⟨-, hend, hrr⟩ := readRr_eq_some.mp hread
  have hlen : existing.options.length = rr.rdlength := by
    rw [hopt]
    exact (slice_length hend).trans (Nat.add_sub_cancel_left ..)
  have hlt : rr.rdlength < 65536 := by
    rw [hrr]
    exact u16At_lt _ _
  have hkept := keptOptions_length_le existing
  omega

/-! ## A query without an OPT record -/

def appended (p : Bytes) (n : Ipv4Subnet) : Bytes :=
  overwrite (p ++ optRecord (syntheticOpt p) (newOptions [] n)) 10
    (toBe16 ((arcount p + 1) % 65536))

theorem length_append_optRecord (p : Bytes) (n : Ipv4Subnet) :
    (p ++ optRecord (syntheticOpt p) (newOptions [] n)).length = p.length + 22 := by
  rw [List.length_append, optRecord_length, newOptions_length]
  rfl

theorem rebuild_synthetic {p : Bytes} (h12 : 12 ≤ p.length) (n : Ipv4Subnet) :
    rebuildWithNewOpt p (syntheticOpt p) (newOptions [] n) = some (appended p n) := by
  have hlen := length_append_optRecord p n
  have hcount : arcount (p ++ optRecord (syntheticOpt p) (newOptions [] n)) = arcount p := by
    rw [arcount, arcount, u16At, u16At, byteAt_append_left (by omega),
      byteAt_append_left (by omega)]
  simp only [rebuildWithNewOpt, syntheticOpt, List.take_length, List.drop_length, List.append_nil,
    and_self, if_true]
  rw [← syntheticOpt, if_neg (by omega), hcount]
  rfl

/-- What the appended packet shares with the query. -/
theorem appended_spec {p : Bytes} (h12 : 12 ≤ p.length) (n : Ipv4Subnet) :
    (appended p n).length = p.length + 22 ∧ arcount (appended p n) = (arcount p + 1) % 65536 ∧
      SameOn 4 10 p (appended p n) ∧ SameOn 12 p.length p (appended p n) ∧
      SameOn 12 (appended p n).length (appended p n)
        (p ++ (optRecord (syntheticOpt p) (newOptions [] n) ++ [])) := by
  have hlen := length_append_optRecord p n
  have hfit : 10 + (toBe16 ((arcount p + 1) % 65536)).length ≤
      (p ++ optRecord (syntheticOpt p) (newOptions [] n)).length := by
    rw [hlen, toBe16_length]
    omega
  have hout : ∀ i, i < 10 ∨ 12 ≤ i → byteAt (appended p n) i =
      byteAt (p ++ optRecord (syntheticOpt p) (newOptions [] n)) i :=
    fun i hi => byteAt_overwrite_outside hfit hi
  refine ⟨(overwrite_length hfit).trans hlen, ?_, ?_, ?_, ?_⟩
  · exact (u16At_overwrite hfit).trans (Nat.mod_mod _ _)
  · intro i _ hi
    rw [hout i (by omega), byteAt_append_left (by omega)]
  · intro i hlo hi
    rw [hout i (by omega), byteAt_append_left hi]
  · intro i hlo _
    rw [hout i (by omega), List.append_nil]

/-- The appended record is read back exactly when the walk ends where the
query ends and the count does not wrap. -/
theorem findOptRecord_appended {p : Bytes} (h12 : 12 ≤ p.length) (hnone : findOptRecord p = none)
    (n : Ipv4Subnet) :
    (∃ opt, findOptRecord (appended p n) = some opt ∧ opt.rrStart = p.length) ↔
      arcount p < 65535 ∧ ∃ j ≤ arcount p, additionalEnd p j = some p.length := by
  obtain ⟨hlen, hcount, hcounts, hsame, hwritten⟩ := appended_spec h12 n
  have hsame' := hsame.symm
  constructor
  · rintro ⟨opt, hopt, hrr⟩
    obtain ⟨-, pos, before, rr, hstart, hbefore, hchain, -⟩ := findOptRecord_eq_some.mp hopt
    rw [hrr] at hchain
    have hge := additionalStart_ge hstart
    have hle := hchain.pos_le_last
    have hlt : arcount p < 65536 := u16At_lt p 10
    rw [hcount] at hbefore
    refine ⟨by omega, before.length, by omega, ?_⟩
    have hstart' : additionalStart p = some pos :=
      additionalStart_congr hstart hle hcounts.symm (hsame'.mono (by omega) hle)
    rw [additionalEnd, hstart', Option.bind_some, skipRrs_eq_some]
    exact ⟨before, rfl, hchain.congr (Nat.le_refl _) fun i h1 h2 _ => hsame' i (by omega) h2⟩
  · rintro ⟨hroom, j, hj, hend⟩
    rw [additionalEnd, Option.bind_eq_some_iff] at hend
    obtain ⟨pos, hstart, hskip⟩ := hend
    obtain ⟨before, rfl, hchain⟩ := skipRrs_eq_some.mp hskip
    have hge := additionalStart_ge hstart
    have hle := hchain.pos_le_last
    have hno : ∀ r ∈ before, r.rtype ≠ 41 := by
      simp only [findOptRecord, hstart] at hnone
      rw [if_neg (by omega)] at hnone
      exact no_opt_of_findOptLoop hchain hj hnone
    obtain ⟨opt, hfind, hrr, -⟩ := findOptRecord_written hwritten
      (by rw [hlen, List.append_nil, List.length_append, optRecord_length, newOptions_length]; rfl)
      h12 (additionalStart_congr hstart (by omega) hcounts (hsame.mono (by omega) hle))
      (by rw [hcount]; omega)
      (hchain.congr (by omega) fun i h1 h2 _ => hsame i (by omega) h2) hno
    exact ⟨opt, hfind, hrr⟩

/-- A record that is read at the end of the query is the appended one. -/
theorem clientSubnets_appended {p : Bytes} (h12 : 12 ≤ p.length) {n : Ipv4Subnet} {opt : EdnsOpt}
    (hopt : findOptRecord (appended p n) = some opt) (hrr : opt.rrStart = p.length) :
    clientSubnets (appended p n) = [ecsOption n] := by
  obtain ⟨-, pos, before, rr, hstart, hbefore, hchain, hno, -⟩ := findOptRecord_eq_some.mp hopt
  obtain ⟨hlen, -, -, -, hwritten⟩ := appended_spec h12 n
  rw [hrr] at hchain
  obtain ⟨opt', hopt', -, hoptions⟩ := findOptRecord_written hwritten
    (by rw [hlen, List.append_nil, List.length_append, optRecord_length, newOptions_length]; rfl)
    h12 hstart hbefore hchain hno
  exact clientSubnets_fit hopt' hoptions (by simp) (by decide)

/-! ## The scope of the packet -/

/-- The packet for the upstream names the network of the cache key, in the
record that was written for it, exactly when the query is ready for it. -/
theorem ecs_scope_iff_ready {U : CaseTable} {p : Bytes} {s : Option Ipv4Subnet} {key : CacheKey}
    (hkey : cacheKeyFromQueryForSubnet U p s = some key) :
    ∃ out, setEcsIpv4Subnet p s = some out ∧
      (EcsScope s out ∧ ReadsWritten p s out ↔ EcsReady p s) := by
  obtain ⟨h12, -⟩ := cacheKey_eq_some hkey
  cases s with
  | none => exact ⟨p, rfl, iff_of_eq (and_true _)⟩
  | some n =>
      cases hopt : findOptRecord p with
      | some existing =>
          have hnew : encodeOptions (keptOptions existing) ++ encodeOption (ecsOption n) =
              newOptions (keptOptions existing) n := by
            rw [newOptions, encodeOptions_append]
            rfl
          obtain ⟨out, opt, hrebuild, hfind, hrr, hoptions⟩ :=
            findOptRecord_rebuilt hopt (newOptions (keptOptions existing) n)
          refine ⟨out, by simp only [setEcsIpv4Subnet, hopt, hnew, hrebuild], ?_⟩
          simp only [EcsReady, hopt]
          constructor
          · rintro ⟨hscope, -⟩
            by_contra hfull
            exact clientSubnets_overflow hfind hoptions (by omega) (keptOptions_length hopt) hscope
          · intro hroom
            exact ⟨clientSubnets_fit hfind hoptions (fun o => mem_keptOptions) hroom,
              opt, hfind, by rw [writtenAt, hopt, hrr]⟩
      | none =>
          have hwritten : writtenAt p = p.length := by rw [writtenAt, hopt]
          refine ⟨appended p n, ?_, ?_⟩
          · rw [setEcsIpv4Subnet, hopt]
            exact rebuild_synthetic h12 n
          · simp only [EcsReady, hopt, ReadsWritten, hwritten]
            rw [← findOptRecord_appended h12 hopt n]
            constructor
            · exact fun h => h.2
            · rintro ⟨opt, hfind, hrr⟩
              exact ⟨clientSubnets_appended h12 hfind hrr, opt, hfind, hrr⟩

/-- A query for an address with an OPT record in its additional section. -/
def ednsQuery (options : Bytes) : Bytes :=
  [0, 0, 1, 0, 0, 1, 0, 0, 0, 0, 0, 1] ++ [1, 0x61, 0] ++ [0, 1, 0, 1] ++
    optRecord (syntheticOpt []) options

theorem ecs_scope_iff_ready_plain :
    let p := addressQuery [1, 0x61, 0]
    let s : Option Ipv4Subnet := some ⟨203, 0, 113⟩
    (cacheKeyFromQueryForSubnet .ascii p s).isSome ∧
      ∃ out, setEcsIpv4Subnet p s = some out ∧
        (EcsScope s out ∧ ReadsWritten p s out ↔ EcsReady p s) :=
  ⟨by decide,
    @ecs_scope_iff_ready .ascii _ _ ⟨['a'], 1, 1, 1, false, some ⟨203, 0, 113⟩⟩ (by decide)⟩

/-- Two queries that name different networks of their own and come without an
effective network have one key, and each goes upstream with its own option. -/
theorem client_subnet_forwarded_under_shared_key :
    let p1 := ednsQuery (encodeOption (ecsOption ⟨198, 51, 100⟩))
    let p2 := ednsQuery (encodeOption (ecsOption ⟨203, 0, 113⟩))
    (cacheKeyFromQueryForSubnet .ascii p1 none).isSome ∧
      cacheKeyFromQueryForSubnet .ascii p1 none = cacheKeyFromQueryForSubnet .ascii p2 none ∧
      setEcsIpv4Subnet p1 none = some p1 ∧ clientSubnets p1 = [ecsOption ⟨198, 51, 100⟩] ∧
      setEcsIpv4Subnet p2 none = some p2 ∧ clientSubnets p2 = [ecsOption ⟨203, 0, 113⟩] ∧
      ¬EcsScope none p1 := by
  intro p1 p2
  have hs1 : clientSubnets p1 = [ecsOption ⟨198, 51, 100⟩] := by decide
  refine ⟨by decide, by decide, rfl, hs1, rfl, by decide, ?_⟩
  rw [EcsScope, hs1]
  exact List.cons_ne_nil _ _

end DnsRelay
