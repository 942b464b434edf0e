import DnsRelay.Relay.Conf
import DnsRelay.Shared.CacheKey
import DnsRelay.Shared.Craft

/-!
# The name a lookup asks for

`resolve_ipv4` writes a query for any text it is given, reads the query's name
back for the cache key, and refuses the text if there is none.  The writer has
no check: a length is cut to one byte, and an empty label closes the name.

A label of 1 to 63 bytes is read back as it was written (`nameAt_encoded`).
The first other label decides.  If its length is cut to zero, the name ends
there and the bytes behind it are read as type and class.  If it is cut to one
of the reserved encodings, the text is refused.  Otherwise its text is read as
labels or as a pointer, and the text is refused only if that fails.
-/

namespace DnsRelay

open Lib

/-- The labels that `build_lookup_query` writes. -/
def lookupLabels (domain : Str) : List Str := (trimEndMatches '.' domain).splitOn '.'

/-- The start of `DnsResolver::resolve_ipv4`: the cache key of the query. -/
def lookupKey (U : CaseTable) (txid : UInt8 × UInt8) (domain : Str)
    (effectiveSubnet : Option Ipv4Subnet) : Except Error CacheKey :=
  match cacheKeyFromQueryForSubnet U (buildLookupQuery txid domain) effectiveSubnet with
  | some key => .ok key
  | none => .error (.other ("invalid DNS query for ".toList ++ domain))

/-- The label has a length that a name may have. -/
def FitsLabel (label : Str) : Prop := 1 ≤ (utf8 label).length ∧ (utf8 label).length ≤ 63

instance (label : Str) : Decidable (FitsLabel label) :=
  inferInstanceAs (Decidable (1 ≤ (utf8 label).length ∧ (utf8 label).length ≤ 63))

/-! ## Reading labels back -/

section Encoded

variable {a rest : Bytes} {hops last : Nat} {bs : List Bytes}

/-- The length byte of a label that fits. -/
theorem length_encodeLabel {label : Str} (h : FitsLabel label) :
    (byteAt (a ++ (encodeLabel label ++ rest)) a.length).toNat = (utf8 label).length := by
  have hbyte := byteAt_append_add a (encodeLabel label ++ rest) 0
  rw [Nat.add_zero] at hbyte
  rw [hbyte]
  show (UInt8.ofNat (utf8 label).length).toNat = _
  have := h.2
  rw [toNat_ofNat]
  omega

theorem slice_encodeLabel (label : Str) :
    slice (a ++ (encodeLabel label ++ rest)) (a.length + 1)
      (a.length + 1 + (utf8 label).length) = utf8 label := by
  rw [Nat.add_assoc, slice_append_add, encodeLabel, List.cons_append, slice,
    Nat.add_comm, List.take_succ_cons, List.drop_succ_cons, List.drop_zero, List.take_left]

theorem end_encodeLabel (a : Bytes) (label : Str) :
    (a ++ encodeLabel label).length = a.length + 1 + (utf8 label).length := by
  rw [List.length_append, encodeLabel, List.length_cons]
  omega

theorem nameAt_encodeLabel {label : Str} (h : FitsLabel label) :
    NameAt (a ++ (encodeLabel label ++ rest)) a.length hops bs ↔
      ∃ bs', bs = utf8 label :: bs' ∧
        NameAt (a ++ (encodeLabel label ++ rest)) (a ++ encodeLabel label).length hops bs' := by
  have hlen := @length_encodeLabel a rest label h
  rw [end_encodeLabel]
  constructor
  · intro hname
    cases hname with
    | root _ hzero =>
        rw [hzero] at hlen
        exact absurd (hlen ▸ h.1) (by decide)
    | label hlen' _ _ _ hrest =>
        obtain rfl := hlen.symm.trans hlen'
        rw [slice_encodeLabel]
        exact ⟨_, rfl, hrest⟩
    | pointer _ hptr => exact absurd hptr (length_not_pointer (hlen ▸ h.2))
  · rintro ⟨bs', rfl, hrest⟩
    have hfit : a.length + 1 + (utf8 label).length ≤ (a ++ (encodeLabel label ++ rest)).length := by
      rw [← end_encodeLabel, ← List.append_assoc]
      exact (List.sublist_append_left _ rest).length_le
    have hname := NameAt.label hlen h.1 h.2 hfit hrest
    rwa [slice_encodeLabel] at hname

/-- Labels that fit are read back, and then what follows them. -/
theorem nameAt_encoded {labels : List Str} (h : ∀ l ∈ labels, FitsLabel l) :
    NameAt (a ++ (labels.flatMap encodeLabel ++ rest)) a.length hops bs ↔
      ∃ bs', bs = labels.map utf8 ++ bs' ∧
        NameAt (a ++ (labels.flatMap encodeLabel ++ rest))
          (a ++ labels.flatMap encodeLabel).length hops bs' := by
  induction labels generalizing a bs with
  | nil => simp
  | cons label labels ih =>
      rw [List.forall_mem_cons] at h
      have hsplit : a ++ ((label :: labels).flatMap encodeLabel ++ rest) =
          a ++ (encodeLabel label ++ (labels.flatMap encodeLabel ++ rest)) := by
        rw [List.flatMap_cons, List.append_assoc]
      rw [hsplit, nameAt_encodeLabel h.1, List.flatMap_cons, ← List.append_assoc a,
        ← List.append_assoc a]
      constructor
      · rintro ⟨bs1, rfl, hname⟩
        obtain ⟨bs2, rfl, hlater⟩ := (ih h.2).mp hname
        exact ⟨bs2, rfl, hlater⟩
      · rintro ⟨bs2, rfl, hname⟩
        exact ⟨labels.map utf8 ++ bs2, rfl, (ih h.2).mpr ⟨bs2, rfl, hname⟩⟩

theorem nameEndAt_encoded {labels : List Str} (h : ∀ l ∈ labels, FitsLabel l)
    (hend : NameEndAt (a ++ (labels.flatMap encodeLabel ++ rest))
      (a ++ labels.flatMap encodeLabel).length last) :
    NameEndAt (a ++ (labels.flatMap encodeLabel ++ rest)) a.length last := by
  induction labels generalizing a with
  | nil => simpa using hend
  | cons label labels ih =>
      rw [List.forall_mem_cons] at h
      rw [List.flatMap_cons, List.append_assoc] at hend ⊢
      have hlater : NameEndAt (a ++ (encodeLabel label ++ (labels.flatMap encodeLabel ++ rest)))
          (a ++ encodeLabel label).length last := by
        rw [← List.append_assoc a]
        apply ih h.2
        rwa [List.append_assoc, List.append_assoc]
      rw [end_encodeLabel] at hlater
      exact .label (length_encodeLabel h.1) h.1.1 h.1.2 hlater

end Encoded

/-! ## Texts that are refused -/

/-- The question of a packet has a name, and its type and class. -/
def Spells (p : Bytes) : Prop :=
  ∃ (hops : Nat) (labels : List Str) (last : Nat), NameAt p 12 hops (labels.map utf8) ∧
    hops ≤ 128 ∧ NameEndAt p 12 last ∧ last + 4 ≤ p.length

/-- A packet has a key exactly if its question has a name. -/
theorem cacheKey_some_iff {U : CaseTable} {p : Bytes} {s : Option Ipv4Subnet}
    (h12 : 12 ≤ p.length) :
    (∃ key, cacheKeyFromQueryForSubnet U p s = some key) ↔ Spells p := by
  constructor
  · rintro ⟨key, hkey⟩
    obtain ⟨-, -, qnameEnd, hparse, hfit⟩ := cacheKey_eq_some hkey
    obtain ⟨hops, labels, hname, hhops, -, hend⟩ := parseDomain_spec hparse
    exact ⟨hops, labels, qnameEnd, hname, hhops, hend, hfit⟩
  · rintro ⟨hops, labels, last, hname, hhops, hend, hfit⟩
    refine ⟨⟨renderName U labels, u16At p last, u16At p (last + 2),
      (byteAt p 2 &&& 0x01) ||| (byteAt p 3 &&& 0x10), asksDnssec p, s⟩, ?_⟩
    exact cacheKey_iff.mpr ⟨h12, last, parseDomain_complete hname hhops hend, hfit, rfl, rfl, rfl,
      rfl, rfl⟩

def lookupHeader (txid : UInt8 × UInt8) : Bytes :=
  [txid.1, txid.2, 0x01, 0x00, 0x00, 0x01, 0x00, 0x00, 0x00, 0x00, 0x00, 0x00]

/-- The end of a name, and type and class of a lookup. -/
def lookupTail : Bytes := [0x00, 0x00, 0x01, 0x00, 0x01]

section Lookup

variable {U : CaseTable} {txid : UInt8 × UInt8} {domain : Str} {s : Option Ipv4Subnet}

theorem buildLookupQuery_eq (txid : UInt8 × UInt8) (domain : Str) :
    buildLookupQuery txid domain =
      lookupHeader txid ++ ((lookupLabels domain).flatMap encodeLabel ++ lookupTail) :=
  List.append_assoc _ _ _

theorem length_buildLookupQuery (txid : UInt8 × UInt8) (domain : Str) :
    (buildLookupQuery txid domain).length =
      12 + ((lookupLabels domain).flatMap encodeLabel).length + 5 := by
  rw [buildLookupQuery_eq, List.length_append, List.length_append]
  show 12 + (_ + 5) = _
  omega

/-- A query whose labels all fit has the name that was asked for. -/
theorem lookup_fits (h : ∀ l ∈ lookupLabels domain, FitsLabel l) {key : CacheKey}
    (hkey : cacheKeyFromQueryForSubnet U (buildLookupQuery txid domain) s = some key) :
    key.name = renderName U (lookupLabels domain) ∧ key.qtype = 1 ∧ key.qclass = 1 := by
  have hlen := length_buildLookupQuery txid domain
  obtain ⟨-, last, hparse, -, htype, hclass, -⟩ := cacheKey_iff.mp hkey
  have hlast : (lookupHeader txid ++ (lookupLabels domain).flatMap encodeLabel).length =
      12 + ((lookupLabels domain).flatMap encodeLabel).length := List.length_append
  have htail : ∀ i, u16At (buildLookupQuery txid domain)
      (12 + ((lookupLabels domain).flatMap encodeLabel).length + i) = u16At lookupTail i := by
    intro i
    rw [buildLookupQuery_eq, ← List.append_assoc, ← hlast, u16At_append_add]
  have hzero : byteAt (buildLookupQuery txid domain)
      (12 + ((lookupLabels domain).flatMap encodeLabel).length) = 0 := by
    rw [buildLookupQuery_eq, ← List.append_assoc, ← hlast]
    exact byteAt_append_add _ lookupTail 0
  -- the name ends at the zero byte behind the labels
  have hname : NameAt (buildLookupQuery txid domain) 12 0 ((lookupLabels domain).map utf8) := by
    have hroot : NameAt (buildLookupQuery txid domain)
        (12 + ((lookupLabels domain).flatMap encodeLabel).length) 0 [] :=
      .root (by omega) hzero
    rw [buildLookupQuery_eq] at hroot ⊢
    rw [← hlast] at hroot
    exact (nameAt_encoded h).mpr ⟨[], (List.append_nil _).symm, hroot⟩
  have hend : NameEndAt (buildLookupQuery txid domain) 12
      (12 + ((lookupLabels domain).flatMap encodeLabel).length + 1) := by
    have hroot := NameEndAt.root (p := buildLookupQuery txid domain) hzero
    rw [buildLookupQuery_eq] at hroot ⊢
    rw [← hlast] at hroot ⊢
    exact nameEndAt_encoded h hroot
  rw [parseDomain_complete hname (Nat.zero_le _) hend] at hparse
  obtain ⟨hrender, rfl⟩ := Prod.mk.inj (Option.some.inj hparse)
  refine ⟨hrender.symm, ?_, ?_⟩
  · rw [htype, htail]
    rfl
  · rw [hclass, Nat.add_assoc (12 + _), htail]
    rfl

theorem pointer_ge {b : UInt8} (h : b &&& 0xC0 = 0xC0) : 192 ≤ b.toNat := by
  have hnat := congrArg UInt8.toNat h
  rw [UInt8.toNat_and] at hnat
  exact hnat.symm.trans_le Nat.and_le_left

section FirstMisfit

variable {before after : List Str} {label : Str}

/-- The query around one of its labels. -/
theorem buildLookupQuery_split (hsplit : lookupLabels domain = before ++ label :: after) :
    buildLookupQuery txid domain = lookupHeader txid ++ (before.flatMap encodeLabel ++
      (encodeLabel label ++ (after.flatMap encodeLabel ++ lookupTail))) := by
  rw [buildLookupQuery_eq, hsplit, List.flatMap_append, List.flatMap_cons, List.append_assoc,
    List.append_assoc]

theorem byteAt_split (hsplit : lookupLabels domain = before ++ label :: after) :
    (byteAt (buildLookupQuery txid domain)
      (lookupHeader txid ++ before.flatMap encodeLabel).length).toNat =
        (utf8 label).length % 256 := by
  have hbyte := byteAt_append_add (lookupHeader txid ++ before.flatMap encodeLabel)
    (encodeLabel label ++ (after.flatMap encodeLabel ++ lookupTail)) 0
  rw [List.append_assoc, ← buildLookupQuery_split hsplit] at hbyte
  rw [Nat.add_zero] at hbyte
  rw [hbyte]
  exact toNat_ofNat _

/-- A length that is cut to zero closes the name. -/
theorem spells_of_zero (hsplit : lookupLabels domain = before ++ label :: after)
    (hfits : ∀ l ∈ before, FitsLabel l) (hzero : (utf8 label).length % 256 = 0) :
    Spells (buildLookupQuery txid domain) := by
  have hbyte : byteAt (buildLookupQuery txid domain)
      (lookupHeader txid ++ before.flatMap encodeLabel).length = 0 :=
    UInt8.toNat_inj.mp ((byteAt_split hsplit).trans hzero)
  have hlen : (lookupHeader txid ++ before.flatMap encodeLabel).length + 6 ≤
      (buildLookupQuery txid domain).length := by
    rw [buildLookupQuery_split hsplit]
    simp only [List.length_append, encodeLabel, List.length_cons, lookupTail, List.length_nil]
    omega
  refine ⟨0, before, (lookupHeader txid ++ before.flatMap encodeLabel).length + 1, ?_,
    Nat.zero_le _, ?_, by omega⟩
  · have hroot := NameAt.root (by omega) hbyte
    rw [buildLookupQuery_split hsplit] at hroot ⊢
    exact (nameAt_encoded hfits).mpr ⟨[], (List.append_nil _).symm, hroot⟩
  · have hroot := NameEndAt.root hbyte
    rw [buildLookupQuery_split hsplit] at hroot ⊢
    exact nameEndAt_encoded hfits hroot

/-- A length that is cut to a reserved encoding is refused. -/
theorem not_spells_of_reserved (hsplit : lookupLabels domain = before ++ label :: after)
    (hfits : ∀ l ∈ before, FitsLabel l) (hlow : 64 ≤ (utf8 label).length % 256)
    (hhigh : (utf8 label).length % 256 ≤ 191) : ¬Spells (buildLookupQuery txid domain) := by
  rintro ⟨hops, labels, last, hname, -, -, -⟩
  have hbyte := @byteAt_split txid domain before after label hsplit
  rw [buildLookupQuery_split hsplit] at hname hbyte
  obtain ⟨bs, -, hname⟩ := (nameAt_encoded hfits).mp hname
  cases hname with
  | root _ hzero =>
      rw [hzero] at hbyte
      have : (0 : UInt8).toNat = 0 := rfl
      omega
  | label hlen _ h63 => omega
  | pointer _ hptr =>
      have := pointer_ge hptr
      omega

end FirstMisfit

/-- In ASCII text lowercase can be taken label by label. -/
theorem renderName_ascii (h : ∀ c ∈ domain, IsAscii c) :
    renderName U (lookupLabels domain) = U.toLowercase (trimEndMatches '.' domain) := by
  have htrim : ∀ c ∈ trimEndMatches '.' domain, IsAscii c :=
    fun c hc => h c (mem_of_mem_trimEndMatches hc)
  have hlabels : (lookupLabels domain).map U.toLowercase =
      (lookupLabels domain).map toAsciiLowercase :=
    List.map_congr_left fun l hl => CaseTable.toLowercase_ascii fun c hc =>
      htrim c (mem_of_mem_splitOn hl hc)
  have hmap : ∀ ls : List Str, ['.'].intercalate (ls.map toAsciiLowercase) =
      toAsciiLowercase (['.'].intercalate ls) := by
    intro ls
    induction ls with
    | nil => rfl
    | cons l ls ih =>
        cases ls with
        | nil => simp [toAsciiLowercase]
        | cons l' ls =>
            rw [List.map_cons, List.map_cons, List.intercalate_cons_cons, ← List.map_cons, ih,
              List.intercalate_cons_cons, toAsciiLowercase, toAsciiLowercase, toAsciiLowercase,
              List.map_append, List.map_append]
            rfl
  rw [renderName, hlabels, hmap, CaseTable.toLowercase_ascii htrim, lookupLabels,
    List.intercalate_splitOn]

end Lookup

/-! ## Texts that are asked for -/

/-- The query asks for the text, or the text is refused. -/
structure AsksFor (U : CaseTable) (txid : UInt8 × UInt8) (domain : Str)
    (effectiveSubnet : Option Ipv4Subnet) : Prop where
  key : ∀ key, cacheKeyFromQueryForSubnet U (buildLookupQuery txid domain) effectiveSubnet =
      some key →
    key.name = U.toLowercase (trimEndMatches '.' domain) ∧ key.qtype = 1 ∧ key.qclass = 1
  refused : ¬(∀ l ∈ lookupLabels domain, FitsLabel l) →
    lookupKey U txid domain effectiveSubnet =
      .error (.other ("invalid DNS query for ".toList ++ domain))

/-- All labels fit, and lowercase can be taken label by label. -/
def LookupName (U : CaseTable) (domain : Str) : Prop :=
  (∀ l ∈ lookupLabels domain, FitsLabel l) ∧
    renderName U (lookupLabels domain) = U.toLowercase (trimEndMatches '.' domain)

theorem lookupKey_eq_error {U : CaseTable} {txid : UInt8 × UInt8} {domain : Str}
    {s : Option Ipv4Subnet} :
    lookupKey U txid domain s = .error (.other ("invalid DNS query for ".toList ++ domain)) ↔
      ¬Spells (buildLookupQuery txid domain) := by
  have h12 : 12 ≤ (buildLookupQuery txid domain).length := by
    rw [length_buildLookupQuery]
    omega
  rw [← cacheKey_some_iff (U := U) (s := s) h12, lookupKey]
  cases cacheKeyFromQueryForSubnet U (buildLookupQuery txid domain) s with
  | none => simp
  | some key => simp

theorem asksFor_iff (U : CaseTable) (txid : UInt8 × UInt8) (domain : Str)
    (s : Option Ipv4Subnet) :
    AsksFor U txid domain s ↔ LookupName U domain ∨ ¬Spells (buildLookupQuery txid domain) := by
  have h12 : 12 ≤ (buildLookupQuery txid domain).length := by
    rw [length_buildLookupQuery]
    omega
  have hsome := cacheKey_some_iff (U := U) (s := s) h12
  constructor
  · intro h
    by_cases hspells : Spells (buildLookupQuery txid domain)
    · have hfits : ∀ l ∈ lookupLabels domain, FitsLabel l := by
        by_contra hmisfit
        exact lookupKey_eq_error.mp (h.refused hmisfit) hspells
      obtain ⟨key, hkey⟩ := hsome.mpr hspells
      exact .inl ⟨hfits, (lookup_fits hfits hkey).1.symm.trans (h.key key hkey).1⟩
    · exact .inr hspells
  · rintro (⟨hfits, hlower⟩ | hrefused)
    · refine ⟨fun key hkey => ?_, fun hmisfit => absurd hfits hmisfit⟩
      obtain ⟨hname, hrest⟩ := lookup_fits hfits hkey
      exact ⟨hname.trans hlower, hrest⟩
    · exact ⟨fun key hkey => absurd (hsome.mp ⟨key, hkey⟩) hrefused,
        fun _ => lookupKey_eq_error.mpr hrefused⟩

/-- A lookup asks for the text it is given, or refuses it, exactly if all labels
of the text fit and its lowercase is that of the labels, or what is written is
no name.  In ASCII text only the labels count.  The first label that does not
fit decides: the text is misread if its length is a multiple of 256, and refused
if the length is cut to a reserved encoding. -/
theorem lookup_asks_for_iff (U : CaseTable) (txid : UInt8 × UInt8) (domain : Str)
    (effectiveSubnet : Option Ipv4Subnet) :
    (AsksFor U txid domain effectiveSubnet ↔
      LookupName U domain ∨ ¬Spells (buildLookupQuery txid domain)) ∧
    ((∀ c ∈ domain, IsAscii c) →
      (LookupName U domain ↔ ∀ l ∈ lookupLabels domain, FitsLabel l)) ∧
    ∀ before label after, lookupLabels domain = before ++ label :: after →
      (∀ l ∈ before, FitsLabel l) → ¬FitsLabel label →
      ((utf8 label).length % 256 = 0 → ¬AsksFor U txid domain effectiveSubnet) ∧
      (64 ≤ (utf8 label).length % 256 → (utf8 label).length % 256 ≤ 191 →
        AsksFor U txid domain effectiveSubnet) := by
  refine ⟨asksFor_iff U txid domain effectiveSubnet, fun hascii => ?_, ?_⟩
  · exact ⟨And.left, fun hfits => ⟨hfits, renderName_ascii hascii⟩⟩
  · intro before label after hsplit hbefore hmisfit
    rw [asksFor_iff]
    refine ⟨fun hzero h => ?_, fun hlow hhigh => ?_⟩
    · rcases h with ⟨hfits, -⟩ | hrefused
      · exact hmisfit (hfits label (by simp [hsplit]))
      · exact hrefused (spells_of_zero hsplit hbefore hzero)
    · exact .inr (not_spells_of_reserved hsplit hbefore hlow hhigh)

/-- An empty label in the middle: the query asks for the first label, with a
type and a class made of the second one. -/
theorem lookup_empty_label :
    lookupKey .ascii (0, 0) "a..b".toList none = .ok ⟨['a'], 0x0162, 0x0000, 1, false, none⟩ := by
  decide

/-- The empty text is not refused either. -/
example : lookupKey .ascii (0, 0) [] none = .ok ⟨[], 0x0000, 0x0100, 1, false, none⟩ := by decide

end DnsRelay
