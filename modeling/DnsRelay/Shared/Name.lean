import DnsRelay.Lib.Text

/-!
# Names on the wire

A name is a chain of labels, closed by a zero byte.  A compression pointer
continues the chain elsewhere in the packet.  `NameAt` is this grammar.

The source has two readers.  `parseDomain` follows pointers, checks every
label for UTF-8 and renders the labels, lowercased and joined by dots.
`skipName` only finds the end of a name and stops at the first pointer.

`parse_domain_exact` says that `parseDomain` accepts this grammar and nothing
else.  The loop of `parseDomain` moves forward over labels and anywhere over
pointers.  Its measure counts the hops left first and the bytes left
second.
-/

namespace DnsRelay

open Lib

/-! ## The grammar -/

/-- The target of the compression pointer at `offset`. -/
def pointerTarget (p : Bytes) (offset : Nat) : Nat :=
  (byteAt p offset &&& 0x3F).toNat * 256 + (byteAt p (offset + 1)).toNat

/-- `NameAt p offset hops labels`: the chain at `offset` passes `hops` pointers
and has these labels. -/
inductive NameAt (p : Bytes) : Nat → Nat → List Bytes → Prop where
  | root {offset : Nat} :
      offset < p.length →
      byteAt p offset = 0 →
      NameAt p offset 0 []
  | label {offset hops len : Nat} {labels : List Bytes} :
      (byteAt p offset).toNat = len →
      1 ≤ len →
      len ≤ 63 →
      offset + 1 + len ≤ p.length →
      NameAt p (offset + 1 + len) hops labels →
      NameAt p offset hops (slice p (offset + 1) (offset + 1 + len) :: labels)
  | pointer {offset hops : Nat} {labels : List Bytes} :
      offset + 1 < p.length →
      byteAt p offset &&& 0xC0 = 0xC0 →
      pointerTarget p offset < p.length →
      NameAt p (pointerTarget p offset) hops labels →
      NameAt p offset (hops + 1) labels

/-- `NameEndAt p offset last`: the name at `offset` ends at `last`.  This is
just past the first pointer, or just past the zero byte. -/
inductive NameEndAt (p : Bytes) : Nat → Nat → Prop where
  | root {offset : Nat} :
      byteAt p offset = 0 →
      NameEndAt p offset (offset + 1)
  | label {offset len last : Nat} :
      (byteAt p offset).toNat = len →
      1 ≤ len →
      len ≤ 63 →
      NameEndAt p (offset + 1 + len) last →
      NameEndAt p offset last
  | pointer {offset : Nat} :
      byteAt p offset &&& 0xC0 = 0xC0 →
      NameEndAt p offset (offset + 2)

/-! ## Skipping a name -/

/-- `skip_name`: the offset just past the name at `pos`.  A pointer ends the
name, and its second byte is not looked at. -/
@[semireducible] def skipName (buf : Bytes) (pos : Nat) : Option Nat :=
  if h : buf.length ≤ pos then none
  else if byteAt buf pos = 0 then some (pos + 1)
  else if byteAt buf pos &&& 0xC0 = 0xC0 then some (pos + 2)
  else skipName buf (pos + 1 + (byteAt buf pos).toNat)
termination_by buf.length - pos

/-! ## Parsing a name -/

def pushLabel (U : CaseTable) (domain label : Str) : Str :=
  (if domain.isEmpty then domain else domain ++ ['.']) ++ U.toLowercase label

/-- The loop of `parse_domain`. -/
@[semireducible] def parseDomainLoop (U : CaseTable) (payload : Bytes) (offset pointerHops : Nat)
    (endOffset : Option Nat) (domain : Str) : Option (Str × Nat) :=
  if payload.length ≤ offset then none
  else if byteAt payload offset &&& 0xC0 = 0xC0 then
    if payload.length ≤ offset + 1 then none
    else if 128 < pointerHops + 1 ∨ payload.length ≤ pointerTarget payload offset then none
    else
      parseDomainLoop U payload (pointerTarget payload offset) (pointerHops + 1)
        (endOffset <|> some (offset + 2)) domain
  -- the encodings 01 and 10 are reserved
  else if byteAt payload offset &&& 0xC0 ≠ 0 then none
  else if byteAt payload offset = 0 then some (domain, endOffset.getD (offset + 1))
  else if 63 < (byteAt payload offset).toNat then none
  else if payload.length < offset + 1 + (byteAt payload offset).toNat then none
  else
    match fromUtf8 (slice payload (offset + 1) (offset + 1 + (byteAt payload offset).toNat)) with
    | none => none
    | some label =>
        parseDomainLoop U payload (offset + 1 + (byteAt payload offset).toNat) pointerHops endOffset
          (pushLabel U domain label)
termination_by (129 - pointerHops) * (payload.length + 1) + (payload.length - offset)
decreasing_by
  · obtain ⟨k, hk⟩ : ∃ k, 129 - pointerHops = k + 1 := ⟨128 - pointerHops, by omega⟩
    have hk' : 129 - (pointerHops + 1) = k := by omega
    rw [hk, hk', Nat.succ_mul]
    omega
  · omega

/-- `parse_domain`: the rendered name at `offset` and the offset just past
it. -/
def parseDomain (U : CaseTable) (payload : Bytes) (offset : Nat) : Option (Str × Nat) :=
  parseDomainLoop U payload offset 0 none []

/-! ## The grammar is unambiguous -/

theorem length_not_pointer {b : UInt8} (h : b.toNat ≤ 63) : b &&& 0xC0 ≠ 0xC0 := by
  have hand : ∀ n < 64, n &&& 192 = 0 := by decide
  intro hptr
  have hnat := congrArg UInt8.toNat hptr
  rw [UInt8.toNat_and] at hnat
  have h0 := hand b.toNat (by omega)
  exact absurd (hnat.symm.trans h0) (by decide)

theorem zero_not_pointer : (0 : UInt8) &&& 0xC0 ≠ 0xC0 := by decide

/-- No label of a name is empty. -/
theorem NameAt.label_ne_nil {p : Bytes} {offset hops : Nat} {labels : List Bytes}
    (h : NameAt p offset hops labels) : ∀ l ∈ labels, l ≠ [] := by
  induction h with
  | root => simp
  | label hlen hpos _ hend _ ih =>
      intro l hl
      rcases List.mem_cons.mp hl with rfl | hl
      · rw [← List.length_pos_iff, slice_length hend]
        omega
      · exact ih l hl
  | pointer _ _ _ _ ih => exact ih

theorem NameAt.text_ne_nil {p : Bytes} {offset hops : Nat} {labels : List Str}
    (h : NameAt p offset hops (labels.map utf8)) : ∀ l ∈ labels, l ≠ [] := by
  rintro l hl rfl
  exact h.label_ne_nil (utf8 []) (List.mem_map_of_mem hl) rfl

/-! ## What the parser accepts -/

/-- The text of a name: its labels, lowercased and joined by dots. -/
def renderName (U : CaseTable) (labels : List Str) : Str :=
  List.intercalate ['.'] (labels.map U.toLowercase)

theorem pushLabel_nil (U : CaseTable) (label : Str) : pushLabel U [] label = U.toLowercase label :=
  rfl

theorem pushLabel_of_ne_nil (U : CaseTable) {domain : Str} (h : domain ≠ []) (label : Str) :
    pushLabel U domain label = domain ++ '.' :: U.toLowercase label := by
  rw [pushLabel, if_neg (by rwa [List.isEmpty_iff])]
  simp

/-- Behind a non-empty text the loop appends a dot and a label at a time. -/
theorem foldl_pushLabel {U : CaseTable} :
    ∀ {labels : List Str} {domain : Str}, domain ≠ [] →
      labels.foldl (pushLabel U) domain =
        List.intercalate ['.'] (domain :: labels.map U.toLowercase)
  | [], domain, _ => by simp
  | label :: labels, domain, h => by
      have hne : domain ++ '.' :: U.toLowercase label ≠ [] := by simp
      rw [List.foldl_cons, pushLabel_of_ne_nil U h, foldl_pushLabel hne, List.map_cons,
        List.intercalate_cons_cons]
      cases labels with
      | nil => simp
      | cons => simp [List.intercalate_cons_cons]

/-- Non-empty labels are rendered with a dot between each two. -/
theorem foldl_pushLabel_nil {U : CaseTable} {labels : List Str} (h : ∀ l ∈ labels, l ≠ []) :
    labels.foldl (pushLabel U) [] = renderName U labels := by
  cases labels with
  | nil => rfl
  | cons label labels =>
      have hne : U.toLowercase label ≠ [] :=
        CaseTable.toLowercase_ne_nil (h label (List.mem_cons_self ..))
      rw [List.foldl_cons, pushLabel_nil, foldl_pushLabel hne]
      rfl

/-- A successful loop reads a chain of UTF-8 labels within the hop limit. -/
theorem parseDomainLoop_sound {U : CaseTable} {p : Bytes} {offset hops : Nat} {e : Option Nat}
    {domain name : Str} {last : Nat}
    (h : parseDomainLoop U p offset hops e domain = some (name, last)) :
    ∃ (k : Nat) (labels : List Str), NameAt p offset k (labels.map utf8) ∧
      hops + k ≤ max hops 128 ∧ name = labels.foldl (pushLabel U) domain := by
  fun_induction parseDomainLoop U p offset hops e domain with
  | case1 | case2 | case3 | case5 | case7 | case8 | case9 => exact absurd h nofun
  | case4 offset hops e domain h1 hptr h2 hbound ih =>
      obtain ⟨k, labels, hname, hk, hrender⟩ := ih h
      obtain ⟨hhops, htarget⟩ := not_or.mp hbound
      exact ⟨k + 1, labels, .pointer (by omega) hptr (by omega) hname, by omega, hrender⟩
  | case6 offset hops e domain h1 hptr hres hzero =>
      obtain ⟨rfl, -⟩ := Prod.mk.inj (Option.some.inj h)
      exact ⟨0, [], .root (by omega) hzero, by omega, rfl⟩
  | case10 offset hops e domain h1 hptr hres hzero h63 hlen label hutf ih =>
      obtain ⟨k, labels, hname, hk, hrender⟩ := ih h
      refine ⟨k, label :: labels, ?_, hk, hrender⟩
      have hpos : (byteAt p offset).toNat ≠ 0 := fun h0 => hzero (UInt8.toNat_inj.mp h0)
      rw [List.map_cons, ← fromUtf8_eq_some.mp hutf]
      exact .label rfl (by omega) (by omega) (by omega) hname

/-- The Unicode tables do not matter in a packet of ASCII bytes. -/
theorem parseDomainLoop_ascii (U V : CaseTable) {p : Bytes} (hp : ∀ b ∈ p, b.toNat < 128)
    {offset hops : Nat} {e : Option Nat} {domain : Str} :
    parseDomainLoop U p offset hops e domain = parseDomainLoop V p offset hops e domain := by
  fun_induction parseDomainLoop U p offset hops e domain with
  | case1 offset hops e domain h1 => rw [parseDomainLoop, if_pos h1]
  | case2 offset hops e domain h1 hptr h2 =>
      rw [parseDomainLoop, if_neg h1, if_pos hptr, if_pos h2]
  | case3 offset hops e domain h1 hptr h2 hbound =>
      rw [parseDomainLoop, if_neg h1, if_pos hptr, if_neg h2, if_pos hbound]
  | case4 offset hops e domain h1 hptr h2 hbound ih =>
      rw [ih]
      conv_rhs => rw [parseDomainLoop, if_neg h1, if_pos hptr, if_neg h2, if_neg hbound]
  | case5 offset hops e domain h1 hptr hres =>
      rw [parseDomainLoop, if_neg h1, if_neg hptr, if_pos hres]
  | case6 offset hops e domain h1 hptr hres hzero =>
      rw [parseDomainLoop, if_neg h1, if_neg hptr, if_neg hres, if_pos hzero]
  | case7 offset hops e domain h1 hptr hres hzero h63 =>
      rw [parseDomainLoop, if_neg h1, if_neg hptr, if_neg hres, if_neg hzero, if_pos h63]
  | case8 offset hops e domain h1 hptr hres hzero h63 hlen =>
      rw [parseDomainLoop, if_neg h1, if_neg hptr, if_neg hres, if_neg hzero, if_neg h63,
        if_pos hlen]
  | case9 offset hops e domain h1 hptr hres hzero h63 hlen hutf =>
      rw [parseDomainLoop, if_neg h1, if_neg hptr, if_neg hres, if_neg hzero, if_neg h63,
        if_neg hlen, hutf]
  | case10 offset hops e domain h1 hptr hres hzero h63 hlen label hutf ih =>
      have hascii : ∀ c ∈ label, IsAscii c := by
        intro c hc
        by_contra hother
        obtain ⟨x, hx⟩ := List.exists_mem_of_ne_nil _ (String.utf8EncodeChar_ne_nil (c := c))
        have hmem : x ∈ utf8 label := List.mem_flatMap.mpr ⟨c, hc, hx⟩
        rw [← fromUtf8_eq_some.mp hutf] at hmem
        have hlt := hp x (List.mem_of_mem_take (List.mem_of_mem_drop hmem))
        have hge := utf8EncodeChar_other hother x hx
        omega
      have hpush : pushLabel U domain label = pushLabel V domain label := by
        rw [pushLabel, pushLabel, CaseTable.toLowercase_ascii hascii,
          CaseTable.toLowercase_ascii hascii]
      rw [ih, hpush]
      conv_rhs => rw [parseDomainLoop, if_neg h1, if_neg hptr, if_neg hres, if_neg hzero,
        if_neg h63, if_neg hlen, hutf]

/-- A parsed name is the rendering of a chain of UTF-8 labels. -/
theorem parseDomain_sound {U : CaseTable} {p : Bytes} {offset last : Nat} {name : Str}
    (h : parseDomain U p offset = some (name, last)) :
    ∃ (hops : Nat) (labels : List Str), NameAt p offset hops (labels.map utf8) ∧
      hops ≤ 128 ∧ name = renderName U labels := by
  obtain ⟨hops, labels, hname, hhops, hrender⟩ := parseDomainLoop_sound h
  exact ⟨hops, labels, hname, by omega, by rw [hrender, foldl_pushLabel_nil hname.text_ne_nil]⟩

/-! ## Exactly what the parser accepts -/

/-- The high bits of a length byte are clear. -/
theorem length_not_reserved {b : UInt8} (h : b.toNat ≤ 63) : b &&& 0xC0 = 0 := by
  have hand : ∀ n < 64, n &&& 192 = 0 := by decide
  apply UInt8.toNat_inj.mp
  rw [UInt8.toNat_and]
  exact hand b.toNat (by omega)

theorem NameAt.exists_end {p : Bytes} {offset hops : Nat} {labels : List Bytes}
    (h : NameAt p offset hops labels) : ∃ last, NameEndAt p offset last := by
  induction h with
  | root _ hzero => exact ⟨_, .root hzero⟩
  | label hlen hpos h63 _ _ ih =>
      obtain ⟨last, hlast⟩ := ih
      exact ⟨last, .label hlen hpos h63 hlast⟩
  | pointer _ hptr _ _ _ => exact ⟨_, .pointer hptr⟩

/-- A name ends where `skipName` says. -/
theorem NameAt.skipName {p : Bytes} {offset hops last : Nat} {labels : List Bytes}
    (h : NameAt p offset hops labels) (hend : NameEndAt p offset last) :
    skipName p offset = some last ∧ offset < last ∧ last ≤ p.length := by
  induction h with
  | root hlt hzero =>
      rw [DnsRelay.skipName, dif_neg (by omega), if_pos hzero]
      cases hend with
      | root => exact ⟨rfl, by omega, by omega⟩
      | label hlen hpos =>
          rw [hzero] at hlen
          subst hlen
          exact absurd hpos (by decide)
      | pointer hptr =>
          rw [hzero] at hptr
          exact absurd hptr zero_not_pointer
  | @label offset hops len labels hlen hpos h63 hfit _ ih =>
      have hzero : byteAt p offset ≠ 0 := by
        intro h0
        rw [h0] at hlen
        subst hlen
        exact absurd hpos (by decide)
      have hptr := length_not_pointer (hlen ▸ h63)
      rw [DnsRelay.skipName, dif_neg (by omega), if_neg hzero, if_neg hptr, hlen]
      cases hend with
      | root h0 => exact absurd h0 hzero
      | label hlen' _ _ hrest =>
          obtain rfl := hlen.symm.trans hlen'
          obtain ⟨hskip, hlt, hle⟩ := ih hrest
          exact ⟨hskip, by omega, hle⟩
      | pointer h0 => exact absurd h0 hptr
  | @pointer offset hops labels hlt hptr _ _ _ =>
      have hzero : byteAt p offset ≠ 0 := by
        intro h0
        rw [h0] at hptr
        exact zero_not_pointer hptr
      rw [DnsRelay.skipName, dif_neg (by omega), if_neg hzero, if_pos hptr]
      cases hend with
      | root h0 => exact absurd h0 hzero
      | label hlen _ h63 => exact absurd hptr (length_not_pointer (hlen ▸ h63))
      | pointer => exact ⟨rfl, by omega, by omega⟩

theorem NameEndAt.unique {p : Bytes} {offset hops last last' : Nat} {labels : List Bytes}
    (hname : NameAt p offset hops labels) (h : NameEndAt p offset last)
    (h' : NameEndAt p offset last') : last = last' :=
  Option.some.inj ((hname.skipName h).1.symm.trans (hname.skipName h').1)

/-- The loop reads every chain of UTF-8 labels within the hop limit. -/
theorem parseDomainLoop_complete {U : CaseTable} {p : Bytes} {offset k : Nat} {bs : List Bytes}
    (h : NameAt p offset k bs) : ∀ {labels : List Str} {hops last : Nat} {e : Option Nat}
      {domain : Str}, bs = labels.map utf8 → hops + k ≤ 128 → NameEndAt p offset last →
      parseDomainLoop U p offset hops e domain =
        some (labels.foldl (pushLabel U) domain, e.getD last) := by
  induction h with
  | @root offset hlt hzero =>
      intro labels hops last e domain hbs hk hend
      obtain rfl : labels = [] := List.map_eq_nil_iff.mp hbs.symm
      obtain rfl := NameEndAt.unique (.root hlt hzero) hend (.root hzero)
      rw [parseDomainLoop, if_neg (by omega), if_neg (hzero ▸ zero_not_pointer),
        if_neg (by rw [hzero]; decide), if_pos hzero]
      rfl
  | @label offset hops len bs hlen hpos h63 hfit hrest ih =>
      intro labels hops last e domain hbs hk hend
      cases labels with
      | nil => cases hbs
      | cons label labels =>
          obtain ⟨hhead, htail⟩ := List.cons.inj hbs
          have hzero : byteAt p offset ≠ 0 := by
            intro h0
            rw [h0] at hlen
            subst hlen
            exact absurd hpos (by decide)
          have hutf : fromUtf8 (slice p (offset + 1) (offset + 1 + len)) = some label :=
            fromUtf8_eq_some.mpr hhead
          have hend' : NameEndAt p (offset + 1 + len) last := by
            obtain ⟨last', hlast'⟩ := hrest.exists_end
            have heq := NameEndAt.unique (.label hlen hpos h63 hfit hrest) hend
              (.label hlen hpos h63 hlast')
            rw [heq]
            exact hlast'
          rw [parseDomainLoop, if_neg (by omega), if_neg (length_not_pointer (hlen ▸ h63)),
            if_neg (by rw [length_not_reserved (hlen ▸ h63)]; exact fun h => h rfl),
            if_neg hzero, hlen, if_neg (by omega), if_neg (by omega), hutf]
          exact ih htail hk hend'
  | @pointer offset k bs hlt hptr htarget hrest ih =>
      intro labels hops last e domain hbs hk hend
      obtain rfl := NameEndAt.unique (.pointer hlt hptr htarget hrest) hend (.pointer hptr)
      obtain ⟨last', hlast'⟩ := hrest.exists_end
      rw [parseDomainLoop, if_neg (by omega), if_pos hptr, if_neg (by omega),
        if_neg (by omega), ih hbs (by omega) hlast']
      cases e with
      | none => rfl
      | some e => rfl

theorem parseDomain_complete {U : CaseTable} {p : Bytes} {offset hops last : Nat}
    {labels : List Str} (h : NameAt p offset hops (labels.map utf8)) (hhops : hops ≤ 128)
    (hend : NameEndAt p offset last) :
    parseDomain U p offset = some (renderName U labels, last) := by
  rw [parseDomain, parseDomainLoop_complete h rfl (by omega) hend,
    foldl_pushLabel_nil h.text_ne_nil]
  rfl

/-- A parsed name is the text of a chain of UTF-8 labels and comes with the end
of the chain. -/
theorem parseDomain_spec {U : CaseTable} {p : Bytes} {offset last : Nat} {name : Str}
    (h : parseDomain U p offset = some (name, last)) :
    ∃ (hops : Nat) (labels : List Str), NameAt p offset hops (labels.map utf8) ∧ hops ≤ 128 ∧
      name = renderName U labels ∧ NameEndAt p offset last := by
  obtain ⟨hops, labels, hname, hhops, hrender⟩ := parseDomain_sound h
  obtain ⟨last', hlast'⟩ := hname.exists_end
  have hcomplete := parseDomain_complete (U := U) hname hhops hlast'
  rw [h] at hcomplete
  cases hcomplete
  exact ⟨hops, labels, hname, hhops, rfl, hlast'⟩

/-- Both readers find the same end, inside the packet. -/
theorem skipName_of_parseDomain {U : CaseTable} {p : Bytes} {offset last : Nat} {name : Str}
    (h : parseDomain U p offset = some (name, last)) :
    skipName p offset = some last ∧ offset < last ∧ last ≤ p.length := by
  obtain ⟨hops, labels, hname, -, -, hend⟩ := parseDomain_spec h
  exact hname.skipName hend

/-- A name is parsed exactly when it is a chain of UTF-8 labels with at most 128
pointers.  The result is its text and its end, which lies inside the
packet. -/
theorem parse_domain_exact (U : CaseTable) (p : Bytes) (offset : Nat) (name : Str) (last : Nat) :
    (parseDomain U p offset = some (name, last) ↔
      ∃ (hops : Nat) (labels : List Str), NameAt p offset hops (labels.map utf8) ∧ hops ≤ 128 ∧
        name = renderName U labels ∧ NameEndAt p offset last) ∧
      (parseDomain U p offset = some (name, last) → offset < last ∧ last ≤ p.length) := by
  refine ⟨⟨parseDomain_spec, ?_⟩, fun h => (skipName_of_parseDomain h).2⟩
  rintro ⟨hops, labels, hname, hhops, rfl, hend⟩
  exact parseDomain_complete hname hhops hend

-- a pointer to itself, and a name of one label behind a pointer
example : parseDomain .ascii [0xC0, 0] 0 = none := by decide +kernel

example : parseDomain .ascii [1, 0x41, 0, 0xC0, 0] 3 = some (['a'], 5) := by decide

end DnsRelay
