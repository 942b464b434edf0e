import Mathlib.Data.Bool.AllAny
import DnsRelay.Lib.Casing
import DnsRelay.Shared.Edns

/-!
# Cache keys

A query is looked up in the cache, and joined to a query in flight, by a
`CacheKey`.  The key has the rendered name of the first question and not its
labels.

The rendering is not injective.  It puts a dot between labels and also shows
the dots inside of them, and its lowercase goes beyond ASCII.  The last
section says for which pairs of names equal keys mean equal names.
-/

namespace DnsRelay

open Lib

structure CacheKey where
  name : Str
  qtype : Nat
  qclass : Nat
  queryFlags : UInt8
  dnssecOk : Bool
  clientSubnet : Option Ipv4Subnet
deriving DecidableEq, Repr

/-- `cache_key_from_query_for_subnet`. -/
def cacheKeyFromQueryForSubnet (U : CaseTable) (payload : Bytes)
    (clientSubnet : Option Ipv4Subnet) : Option CacheKey :=
  if payload.length < 12 then none
  else
    match parseDomain U payload 12 with
    | none => none
    | some (name, qnameEnd) =>
        if payload.length < qnameEnd + 4 then none
        else some {
          name := name
          qtype := u16At payload qnameEnd
          qclass := u16At payload (qnameEnd + 2)
          queryFlags := (byteAt payload 2 &&& 0x01) ||| (byteAt payload 3 &&& 0x10)
          dnssecOk :=
            match findOptRecord payload with
            | some opt => opt.flags &&& 0x8000 != 0
            | none => false
          clientSubnet := clientSubnet }

/-- Whether the OPT record of a query asks for DNSSEC. -/
def asksDnssec (payload : Bytes) : Bool :=
  match findOptRecord payload with
  | some opt => opt.flags &&& 0x8000 != 0
  | none => false

theorem cacheKey_iff {U : CaseTable} {p : Bytes} {s : Option Ipv4Subnet} {key : CacheKey} :
    cacheKeyFromQueryForSubnet U p s = some key ↔ 12 ≤ p.length ∧
      ∃ qnameEnd, parseDomain U p 12 = some (key.name, qnameEnd) ∧ qnameEnd + 4 ≤ p.length ∧
        key.qtype = u16At p qnameEnd ∧ key.qclass = u16At p (qnameEnd + 2) ∧
        key.queryFlags = (byteAt p 2 &&& 0x01) ||| (byteAt p 3 &&& 0x10) ∧
        key.dnssecOk = asksDnssec p ∧ key.clientSubnet = s := by
  rw [cacheKeyFromQueryForSubnet]
  constructor
  · intro h
    split at h
    · cases h
    next h12 =>
      cases hp : parseDomain U p 12 with
      | none => simp [hp] at h
      | some parsed =>
          obtain ⟨name, qnameEnd⟩ := parsed
          simp only [hp] at h
          split at h
          · cases h
          next hend =>
            obtain rfl := Option.some.inj h
            exact ⟨by omega, qnameEnd, rfl, by omega, rfl, rfl, rfl, rfl, rfl⟩
  · rintro ⟨h12, qnameEnd, hp, hend, htype, hclass, hflags, hdo, hsubnet⟩
    rw [if_neg (by omega), hp]
    simp only
    rw [if_neg (by omega), ← htype, ← hclass, ← hflags, ← hsubnet]
    exact congrArg some (congrArg (fun d => { key with dnssecOk := d }) hdo.symm)

/-- What a query with a key satisfies. -/
theorem cacheKey_eq_some {U : CaseTable} {p : Bytes} {s : Option Ipv4Subnet} {key : CacheKey}
    (h : cacheKeyFromQueryForSubnet U p s = some key) :
    12 ≤ p.length ∧ key.clientSubnet = s ∧
      ∃ qnameEnd, parseDomain U p 12 = some (key.name, qnameEnd) ∧ qnameEnd + 4 ≤ p.length := by
  obtain ⟨h12, qnameEnd, hp, hend, -, -, -, -, hsubnet⟩ := cacheKey_iff.mp h
  exact ⟨h12, hsubnet, qnameEnd, hp, hend⟩

/-! ## Names behind keys -/

/-- Two names are the same up to ASCII case. -/
def SameName (ls ls' : List Bytes) : Prop := ls.map foldCase = ls'.map foldCase

/-- Every label is ASCII and has no dot inside. -/
def PlainName (ls : List Bytes) : Prop := ∀ l ∈ ls, ∀ b ∈ l, b.toNat < 128 ∧ b ≠ 46

/-- Two names have as many labels, of the same lengths, and differ in ASCII
bytes only. -/
def SameNameShape (ls ls' : List Bytes) : Prop := List.Forall₂ SameShape ls ls'

instance (ls ls' : List Bytes) : Decidable (SameName ls ls') :=
  inferInstanceAs (Decidable (ls.map foldCase = ls'.map foldCase))

theorem sameNameShape_of_sameName : ∀ {ls ls' : List Bytes}, SameName ls ls' → SameNameShape ls ls'
  | [], [], _ => .nil
  | [], _ :: _, h => by simp [SameName] at h
  | _ :: _, [], h => by simp [SameName] at h
  | l :: ls, l' :: ls', h => by
      simp only [SameName, List.map_cons, List.cons.injEq] at h
      exact .cons (sameShape_of_foldCase h.1) (sameNameShape_of_sameName h.2)

/-- Folded names come down to the ASCII lowercase of their texts. -/
theorem sameName_utf8 {labels labels' : List Str} :
    SameName (labels.map utf8) (labels'.map utf8) ↔
      labels.map toAsciiLowercase = labels'.map toAsciiLowercase := by
  have hfold : ∀ ls : List Str,
      (ls.map utf8).map foldCase = (ls.map toAsciiLowercase).map utf8 := by
    intro ls
    rw [List.map_map, List.map_map]
    exact List.map_congr_left fun s _ => foldCase_utf8 s
  rw [SameName, hfold, hfold]
  exact (List.map_injective_iff.mpr fun _ _ => utf8_injective).eq_iff

theorem plainName_utf8 {labels : List Str} (h : PlainName (labels.map utf8)) :
    ∀ l ∈ labels, ∀ c ∈ l, IsAscii c ∧ c ≠ '.' := by
  intro l hl c hc
  have hmem : ∀ b ∈ String.utf8EncodeChar c, b ∈ utf8 l :=
    fun b hb => List.mem_flatMap.mpr ⟨c, hc, hb⟩
  obtain ⟨x, rest, hx, hascii⟩ := utf8EncodeChar_head c
  have hfirst := h (utf8 l) (List.mem_map_of_mem hl) x
    (hmem x (by rw [hx]; exact List.mem_cons_self ..))
  refine ⟨hascii.mp hfirst.1, ?_⟩
  rintro rfl
  exact hfirst.2 (List.cons.inj hx).1.symm

theorem renderName_eq_nil {U : CaseTable} {labels : List Str} (hne : ∀ l ∈ labels, l ≠ [])
    (h : renderName U labels = []) : labels = [] := by
  cases labels with
  | nil => rfl
  | cons l labels =>
      exfalso
      have hl : U.toLowercase l ≠ [] :=
        CaseTable.toLowercase_ne_nil (hne l (List.mem_cons_self ..))
      rw [renderName, List.map_cons] at h
      cases labels with
      | nil => exact hl (by simpa using h)
      | cons =>
          rw [List.map_cons, List.intercalate_cons_cons] at h
          simp at h

/-- Plain names can be read off their rendering. -/
theorem map_toLowercase_of_render {U : CaseTable} {labels labels' : List Str}
    (hne : ∀ l ∈ labels, l ≠ []) (hne' : ∀ l ∈ labels', l ≠ [])
    (hdot : ∀ l ∈ labels, '.' ∉ l) (hdot' : ∀ l ∈ labels', '.' ∉ l)
    (h : renderName U labels = renderName U labels') :
    labels.map U.toLowercase = labels'.map U.toLowercase := by
  have hsplit : ∀ ls : List Str, (∀ l ∈ ls, '.' ∉ l) → ls ≠ [] →
      (renderName U ls).splitOn '.' = ls.map U.toLowercase := by
    intro ls hls hnil
    apply List.splitOn_intercalate
    · intro l hl hmem
      obtain ⟨s, hs, rfl⟩ := List.mem_map.mp hl
      exact hls s hs (CaseTable.mem_toLowercase (by decide) (by decide) hmem)
    · simpa using hnil
  by_cases hnil : labels = []
  · subst hnil
    rw [renderName_eq_nil hne' h.symm]
  · have hnil' : labels' ≠ [] := by
      rintro rfl
      exact hnil (renderName_eq_nil hne h)
    rw [← hsplit labels hdot hnil, ← hsplit labels' hdot' hnil', h]

/-- Names of one shape can be compared through their rendering. -/
theorem map_toAsciiLowercase_of_shape {U : CaseTable} {labels labels' : List Str}
    (hshape : List.Forall₂ (List.Forall₂ NearChar) labels labels')
    (h : renderName U labels = renderName U labels') :
    labels.map toAsciiLowercase = labels'.map toAsciiLowercase := by
  have hlen : List.Forall₂ (fun x y : Str => x.length = y.length)
      (labels.map U.toLowercase) (labels'.map U.toLowercase) := by
    rw [List.forall₂_map_left_iff, List.forall₂_map_right_iff]
    exact hshape.imp fun _ _ hnear => CaseTable.toLowercaseFrom_near_length hnear [] []
  have heq := intercalate_inj_of_length hlen h
  clear hlen h
  induction hshape with
  | nil => rfl
  | cons hnear _ ih =>
      simp only [List.map_cons, List.cons.injEq] at heq ⊢
      exact ⟨CaseTable.toAsciiLowercase_eq_of_near hnear [] [] heq.1, ih heq.2⟩

/-- Names with one rendering are the same exactly when both are plain or they
have the same shape. -/
theorem sameName_iff_of_render {U : CaseTable} {t1 t2 : List Str} (hne1 : ∀ l ∈ t1, l ≠ [])
    (hne2 : ∀ l ∈ t2, l ≠ []) (hrender : renderName U t1 = renderName U t2) :
    SameName (t1.map utf8) (t2.map utf8) ↔
      (PlainName (t1.map utf8) ∧ PlainName (t2.map utf8)) ∨
        SameNameShape (t1.map utf8) (t2.map utf8) := by
  constructor
  · exact fun h => .inr (sameNameShape_of_sameName h)
  · rintro (⟨hp1, hp2⟩ | hshape)
    · have hc1 := plainName_utf8 hp1
      have hc2 := plainName_utf8 hp2
      have hlower := map_toLowercase_of_render hne1 hne2
        (fun l hl hmem => (hc1 l hl '.' hmem).2 rfl) (fun l hl hmem => (hc2 l hl '.' hmem).2 rfl)
        hrender
      rw [sameName_utf8]
      rwa [List.map_congr_left
          fun l hl => CaseTable.toLowercase_ascii fun c hc => (hc1 l hl c hc).1,
        List.map_congr_left
          fun l hl => CaseTable.toLowercase_ascii fun c hc => (hc2 l hl c hc).1] at hlower
    · rw [SameNameShape, List.forall₂_map_left_iff, List.forall₂_map_right_iff] at hshape
      rw [sameName_utf8]
      exact map_toAsciiLowercase_of_shape (hshape.imp fun _ _ h => nearChar_of_sameShape h) hrender

/-- Two queries with one key ask for the same name exactly when both names are
plain or the names have the same shape. -/
theorem same_name_of_equal_keys {U : CaseTable} {p1 p2 : Bytes} {s1 s2 : Option Ipv4Subnet}
    {key : CacheKey} (h1 : cacheKeyFromQueryForSubnet U p1 s1 = some key)
    (h2 : cacheKeyFromQueryForSubnet U p2 s2 = some key) :
    ∃ hops1 hops2 labels1 labels2,
      NameAt p1 12 hops1 labels1 ∧ NameAt p2 12 hops2 labels2 ∧
      (SameName labels1 labels2 ↔
        (PlainName labels1 ∧ PlainName labels2) ∨ SameNameShape labels1 labels2) := by
  obtain ⟨-, -, e1, hparse1, -⟩ := cacheKey_eq_some h1
  obtain ⟨-, -, e2, hparse2, -⟩ := cacheKey_eq_some h2
  obtain ⟨hops1, t1, hname1, -, hr1⟩ := parseDomain_sound hparse1
  obtain ⟨hops2, t2, hname2, -, hr2⟩ := parseDomain_sound hparse2
  refine ⟨hops1, hops2, t1.map utf8, t2.map utf8, hname1, hname2, ?_⟩
  exact sameName_iff_of_render hname1.text_ne_nil hname2.text_ne_nil (hr1.symm.trans hr2)

/-- A query header with one question and recursion asked for. -/
def queryHeader : Bytes := [0, 0, 1, 0, 0, 1, 0, 0, 0, 0, 0, 0]

/-- The question for an address at a name in wire form. -/
def addressQuery (name : Bytes) : Bytes := queryHeader ++ name ++ [0, 1, 0, 1]

theorem same_name_of_equal_keys_mixed_case :
    let p1 := addressQuery [2, 0x61, 0x42, 0]
    let p2 := addressQuery [2, 0x41, 0x62, 0]
    (cacheKeyFromQueryForSubnet .ascii p1 none).isSome ∧
      cacheKeyFromQueryForSubnet .ascii p1 none = cacheKeyFromQueryForSubnet .ascii p2 none ∧
      ∃ hops1 hops2 labels1 labels2,
        NameAt p1 12 hops1 labels1 ∧ NameAt p2 12 hops2 labels2 ∧
        (SameName labels1 labels2 ↔
          (PlainName labels1 ∧ PlainName labels2) ∨ SameNameShape labels1 labels2) :=
  ⟨by decide, by decide,
    @same_name_of_equal_keys .ascii _ _ none none ⟨['a', 'b'], 1, 1, 1, false, none⟩
      (by decide) (by decide)⟩

/-- On ASCII packets the key does not depend on the Unicode tables. -/
theorem cacheKey_ascii (U V : CaseTable) {p : Bytes} (hp : ∀ b ∈ p, b.toNat < 128)
    (s : Option Ipv4Subnet) :
    cacheKeyFromQueryForSubnet U p s = cacheKeyFromQueryForSubnet V p s := by
  rw [cacheKeyFromQueryForSubnet, cacheKeyFromQueryForSubnet, parseDomain, parseDomain,
    parseDomainLoop_ascii U V hp]

/-- The name of one label `a.b` and the name of two labels `a` and `b` have
one key. -/
theorem dotted_label_shares_key :
    let p1 := addressQuery [3, 0x61, 0x2E, 0x62, 0]
    let p2 := addressQuery [1, 0x61, 1, 0x62, 0]
    (∀ U : CaseTable, (cacheKeyFromQueryForSubnet U p1 none).isSome ∧
      cacheKeyFromQueryForSubnet U p1 none = cacheKeyFromQueryForSubnet U p2 none) ∧
      NameAt p1 12 0 [[0x61, 0x2E, 0x62]] ∧ NameAt p2 12 0 [[0x61], [0x62]] ∧
      ¬SameName [[0x61, 0x2E, 0x62]] [[0x61], [0x62]] := by
  intro p1 p2
  refine ⟨fun U => ?_, ?_, ?_, by decide⟩
  · rw [cacheKey_ascii U .ascii (p := p1) (List.all_iff_forall_prop.mp (by decide)),
      cacheKey_ascii U .ascii (p := p2) (List.all_iff_forall_prop.mp (by decide))]
    exact ⟨by decide, by decide⟩
  · exact .label rfl (by decide) (by decide) (by decide) (.root (by decide) (by decide))
  · exact .label rfl (by decide) (by decide) (by decide)
      (.label rfl (by decide) (by decide) (by decide) (.root (by decide) (by decide)))

end DnsRelay
