import Mathlib.Data.List.Forall2
import DnsRelay.Lib.Text

/-!
# Comparing text up to ASCII case

`foldCase` is ASCII lowercase on bytes.  It commutes with UTF-8, so comparing
encodings byte by byte is comparing texts character by character.

Unicode lowercase changes more than ASCII letters, and one character may
become several.  `SameShape` is what is needed to read the ASCII comparison
off two equal Unicode lowercases: the encodings have one length and differ in
ASCII bytes only.
-/

namespace DnsRelay.Lib

/-- `u8::to_ascii_lowercase`. -/
def lowerByte (b : UInt8) : UInt8 := if 65 ≤ b.toNat ∧ b.toNat ≤ 90 then b + 32 else b

def foldCase (b : Bytes) : Bytes := b.map lowerByte

/-- Two bytes are equal or both ASCII. -/
def NearByte (x y : UInt8) : Prop := x = y ∨ (x.toNat < 128 ∧ y.toNat < 128)

/-- Byte strings of one length that differ in ASCII bytes only. -/
def SameShape (a b : Bytes) : Prop := List.Forall₂ NearByte a b

/-- Two characters are equal or both ASCII. -/
def NearChar (c d : Char) : Prop := c = d ∨ (IsAscii c ∧ IsAscii d)

instance (x y : UInt8) : Decidable (NearByte x y) :=
  inferInstanceAs (Decidable (x = y ∨ (x.toNat < 128 ∧ y.toNat < 128)))

instance (a b : Bytes) : Decidable (SameShape a b) :=
  inferInstanceAs (Decidable (List.Forall₂ NearByte a b))

/-! ## Bytes -/

theorem toNat_lowerByte (b : UInt8) :
    (lowerByte b).toNat = if 65 ≤ b.toNat ∧ b.toNat ≤ 90 then b.toNat + 32 else b.toNat := by
  unfold lowerByte
  split
  · rw [UInt8.toNat_add]
    show (b.toNat + 32) % 256 = b.toNat + 32
    omega
  · rfl

theorem nearByte_of_lowerByte {x y : UInt8} (h : lowerByte x = lowerByte y) : NearByte x y := by
  have hx := toNat_lowerByte x
  have hy := toNat_lowerByte y
  rw [h] at hx
  by_cases hlt : x.toNat < 128 ∧ y.toNat < 128
  · exact .inr hlt
  · left
    rw [← UInt8.toNat_inj]
    split at hx <;> split at hy <;> omega

/-- Strings that agree up to ASCII case have the same shape. -/
theorem sameShape_of_foldCase : ∀ {a b : Bytes}, foldCase a = foldCase b → SameShape a b
  | [], [], _ => .nil
  | [], _ :: _, h => by simp [foldCase] at h
  | _ :: _, [], h => by simp [foldCase] at h
  | x :: a, y :: b, h => by
      simp only [foldCase, List.map_cons, List.cons.injEq] at h
      exact .cons (nearByte_of_lowerByte h.1) (sameShape_of_foldCase h.2)

/-! ## Characters -/

theorem foldCase_utf8EncodeChar (c : Char) :
    foldCase (String.utf8EncodeChar c) = String.utf8EncodeChar c.toLower := by
  by_cases hc : IsAscii c
  · rw [utf8EncodeChar_ascii hc, utf8EncodeChar_ascii (isAscii_toLower.mpr hc)]
    simp only [foldCase, List.map_cons, List.map_nil, List.cons.injEq, and_true]
    rw [← UInt8.toNat_inj, toNat_lowerByte, toNat_ofNat, toNat_ofNat, toNat_toLower]
    rw [IsAscii] at hc
    split <;> split <;> omega
  · rw [toLower_other hc]
    have hid : ∀ b ∈ String.utf8EncodeChar c, lowerByte b = b := by
      intro b hb
      have := utf8EncodeChar_other hc b hb
      rw [lowerByte, if_neg (by omega)]
    exact (List.map_congr_left hid).trans (List.map_id' _)

/-- Folding the encoding encodes the ASCII lowercase. -/
theorem foldCase_utf8 : ∀ s : Str, foldCase (utf8 s) = utf8 (toAsciiLowercase s)
  | [] => rfl
  | c :: s => by
      have ih := foldCase_utf8 s
      have hc := foldCase_utf8EncodeChar c
      rw [foldCase] at ih hc
      rw [foldCase, utf8_cons, List.map_append, ih, hc]
      rfl

theorem NearByte.ascii_iff {x y : UInt8} (h : NearByte x y) : x.toNat < 128 ↔ y.toNat < 128 := by
  rcases h with rfl | ⟨hx, hy⟩
  · exact Iff.rfl
  · exact iff_of_true hx hy

/-- A byte string that is near to bytes outside ASCII is equal to them. -/
theorem eq_of_sameShape_other : ∀ {a b : Bytes}, SameShape a b → (∀ x ∈ a, 128 ≤ x.toNat) → b = a
  | [], _, .nil, _ => rfl
  | x :: a, y :: b, .cons hxy hab, h => by
      have hx := h x (List.mem_cons_self ..)
      rcases hxy with rfl | ⟨hlt, -⟩
      · rw [eq_of_sameShape_other hab fun z hz => h z (List.mem_cons_of_mem _ hz)]
      · omega

/-- The first byte of an encoding tells whether its first character is
ASCII. -/
theorem utf8EncodeChar_head (c : Char) :
    ∃ x rest, String.utf8EncodeChar c = x :: rest ∧ (x.toNat < 128 ↔ IsAscii c) := by
  by_cases hc : IsAscii c
  · refine ⟨_, [], utf8EncodeChar_ascii hc, iff_of_true ?_ hc⟩
    rw [toNat_ofNat]
    rw [IsAscii] at hc
    omega
  · cases h : String.utf8EncodeChar c with
    | nil => exact absurd h (by simp)
    | cons x rest =>
        have hx := utf8EncodeChar_other hc x (by rw [h]; exact List.mem_cons_self ..)
        exact ⟨x, rest, rfl, iff_of_false (by omega) hc⟩

/-- Encodings of one shape come from texts that differ in ASCII characters
only. -/
theorem nearChar_of_sameShape : ∀ {s t : Str}, SameShape (utf8 s) (utf8 t) →
    List.Forall₂ NearChar s t
  | [], [], _ => .nil
  | [], d :: t, h => by
      obtain ⟨y, rest, hy, -⟩ := utf8EncodeChar_head d
      rw [utf8_nil, utf8_cons, hy] at h
      cases h
  | c :: s, [], h => by
      obtain ⟨x, rest, hx, -⟩ := utf8EncodeChar_head c
      rw [utf8_nil, utf8_cons, hx] at h
      cases h
  | c :: s, d :: t, h => by
      rw [utf8_cons, utf8_cons] at h
      obtain ⟨x, rx, hx, hxc⟩ := utf8EncodeChar_head c
      obtain ⟨y, ry, hy, hyd⟩ := utf8EncodeChar_head d
      have hxy : NearByte x y := by
        rw [hx, hy] at h
        cases h with
        | cons hxy _ => exact hxy
      have hiff : IsAscii c ↔ IsAscii d := hxc.symm.trans (hxy.ascii_iff.trans hyd)
      by_cases hc : IsAscii c
      · rw [utf8EncodeChar_ascii hc, utf8EncodeChar_ascii (hiff.mp hc)] at h
        cases h with
        | cons _ hrest => exact .cons (.inr ⟨hc, hiff.mp hc⟩) (nearChar_of_sameShape hrest)
      · -- all bytes of `c` are outside ASCII, so `t` starts with the same bytes
        have htake := List.forall₂_take (String.utf8EncodeChar c).length h
        have hdrop := List.forall₂_drop (String.utf8EncodeChar c).length h
        rw [List.take_left] at htake
        rw [List.drop_left] at hdrop
        have hpre := eq_of_sameShape_other htake (utf8EncodeChar_other hc)
        have hsplit := List.take_append_drop (String.utf8EncodeChar c).length
          (String.utf8EncodeChar d ++ utf8 t)
        rw [hpre] at hsplit
        have hcd : c = d := head_of_utf8_append hsplit
        subst hcd
        rw [List.drop_left] at hdrop
        exact .cons (.inl rfl) (nearChar_of_sameShape hdrop)

/-! ## Unicode lowercase of near texts -/

namespace CaseTable

variable {U : CaseTable}

/-- Near characters have lowercases of one length, in any context. -/
theorem lowerAt_near_length {c d : Char} (h : NearChar c d) (b a b' a' : Str) :
    (U.lowerAt b c a).length = (U.lowerAt b' d a').length := by
  rcases h with rfl | ⟨hc, hd⟩
  · unfold lowerAt
    split <;> rfl
  · rw [lowerAt_ascii hc, lowerAt_ascii hd]
    rfl

theorem toLower_eq_of_lowerAt_near {c d : Char} (h : NearChar c d) {b a b' a' : Str}
    (heq : U.lowerAt b c a = U.lowerAt b' d a') : c.toLower = d.toLower := by
  rcases h with rfl | ⟨hc, hd⟩
  · rfl
  · rw [lowerAt_ascii hc, lowerAt_ascii hd] at heq
    exact (List.cons.inj heq).1

theorem toLowercaseFrom_near_length {s t : Str} (h : List.Forall₂ NearChar s t) (b b' : Str) :
    (U.toLowercaseFrom b s).length = (U.toLowercaseFrom b' t).length := by
  induction h generalizing b b' with
  | nil => rfl
  | @cons c d s t hcd hst ih =>
      rw [toLowercaseFrom, toLowercaseFrom, List.length_append, List.length_append,
        lowerAt_near_length hcd b s b' t, ih (c :: b) (d :: b')]

/-- Near texts with equal Unicode lowercases agree up to ASCII case. -/
theorem toAsciiLowercase_eq_of_near {s t : Str} (h : List.Forall₂ NearChar s t) (b b' : Str)
    (heq : U.toLowercaseFrom b s = U.toLowercaseFrom b' t) :
    toAsciiLowercase s = toAsciiLowercase t := by
  induction h generalizing b b' with
  | nil => rfl
  | @cons c d s t hcd hst ih =>
      rw [toLowercaseFrom, toLowercaseFrom] at heq
      obtain ⟨hhead, htail⟩ := List.append_inj heq (lowerAt_near_length hcd b s b' t)
      have hlower := toLower_eq_of_lowerAt_near hcd hhead
      have hrest := ih (c :: b) (d :: b') htail
      rw [toAsciiLowercase] at hrest ⊢
      rw [toAsciiLowercase, List.map_cons, List.map_cons, hlower, hrest]
      rfl

/-- Unicode lowercase has no ASCII capital left. -/
theorem toLower_of_mem_lowerAt {c d : Char} {b a : Str} (h : d ∈ U.lowerAt b c a) :
    d.toLower = d := by
  have hd := toNat_toLower d
  rw [← Char.toNat_inj, hd]
  refine if_neg fun hupper => ?_
  have hascii : IsAscii d := Nat.lt_of_le_of_lt hupper.2 (by decide)
  by_cases hc : IsAscii c
  · rw [lowerAt_ascii hc, List.mem_singleton] at h
    have hn := toNat_toLower c
    rw [← h] at hn
    split at hn <;> omega
  · have hlower := lowerAt_other hc h hascii
    have hrange : d.isLower = (decide (d.val ≥ 97) && decide (d.val ≤ 122)) := rfl
    rw [hrange, Bool.and_eq_true, decide_eq_true_eq] at hlower
    have hge : 97 ≤ d.toNat := hlower.1
    omega

theorem toAsciiLowercase_toLowercaseFrom : ∀ (s b : Str),
    toAsciiLowercase (U.toLowercaseFrom b s) = U.toLowercaseFrom b s
  | [], _ => rfl
  | c :: s, b => by
      have hhead : toAsciiLowercase (U.lowerAt b c s) = U.lowerAt b c s :=
        (List.map_congr_left fun d hd => toLower_of_mem_lowerAt hd).trans (List.map_id' _)
      have htail := toAsciiLowercase_toLowercaseFrom s (c :: b)
      rw [toAsciiLowercase] at hhead htail
      rw [toLowercaseFrom, toAsciiLowercase, List.map_append, hhead, htail]

end CaseTable

/-! ## Joined texts -/

theorem map_intercalate {α β : Type} (f : α → β) (sep : List α) : ∀ xs : List (List α),
    (List.intercalate sep xs).map f = List.intercalate (sep.map f) (xs.map (List.map f))
  | [] => rfl
  | [x] => by simp
  | x :: y :: xs => by
      have ih := map_intercalate f sep (y :: xs)
      rw [List.map_cons] at ih
      rw [List.intercalate_cons_cons, List.map_append, List.map_append, ih, List.map_cons,
        List.map_cons, List.intercalate_cons_cons]

/-- Texts joined by a separator are determined by their lengths. -/
theorem intercalate_inj_of_length {α : Type} {sep : List α} : ∀ {xs ys : List (List α)},
    List.Forall₂ (fun x y => x.length = y.length) xs ys →
      List.intercalate sep xs = List.intercalate sep ys → xs = ys
  | [], [], .nil, _ => rfl
  | [x], [y], .cons _ .nil, h => by simpa using h
  | x :: x' :: xs, y :: y' :: ys, .cons hxy hrest, h => by
      rw [List.intercalate_cons_cons, List.intercalate_cons_cons, List.append_assoc,
        List.append_assoc] at h
      obtain ⟨rfl, htail⟩ := List.append_inj h hxy
      rw [intercalate_inj_of_length hrest (List.append_cancel_left htail)]

end DnsRelay.Lib
