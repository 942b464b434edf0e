import DnsRelay.Lib.Addr

/-!
# The texts that are addresses

An IPv4 address has one text: the parser accepts what `Display` writes and
nothing else.  Digits that are read without a leading zero are the digits of
their value, so an octet has one text, and so do four of them.

A port may have leading zeros.  `IsPort` says which texts are one, and an IPv4
socket address is the text of an address, a colon and a port.
-/

namespace DnsRelay.Lib

/-! ## Digits and values -/

theorem toDigit_ten {c : Char} {digit : Nat} (h : toDigit 10 c = some digit) :
    digit = c.toNat - '0'.toNat ∧ digit < 10 ∧ Nat.digitChar digit = c := by
  obtain ⟨hvalue, hlt⟩ := Option.filter_eq_some_iff.mp h
  have hten := of_decide_eq_true hlt
  split at hvalue
  · next hc =>
      cases hvalue
      have hlo : 48 ≤ c.toNat := hc.1
      refine ⟨rfl, hten, Char.toNat_inj.mp ?_⟩
      have hzero : '0'.toNat = 48 := rfl
      rw [Nat.toNat_digitChar_of_lt_ten hten]
      omega
  · split at hvalue
    · cases hvalue
      omega
    · split at hvalue
      · cases hvalue
        omega
      · cases hvalue

/-- The first one of some digits, with its value. -/
theorem digits_cons {c : Char} {digits : Str}
    (h : ∀ d ∈ c :: digits, (toDigit 10 d).isSome = true) :
    ∃ digit, toDigit 10 c = some digit ∧ digit = c.toNat - '0'.toNat ∧ digit < 10 ∧
      Nat.digitChar digit = c ∧ ∀ d ∈ digits, (toDigit 10 d).isSome = true := by
  obtain ⟨hc, hdigits⟩ := List.forall_mem_cons.mp h
  obtain ⟨digit, hdigit⟩ := Option.isSome_iff_exists.mp hc
  obtain ⟨hvalue, hlt, hchar⟩ := toDigit_ten hdigit
  exact ⟨digit, hdigit, hvalue, hlt, hchar, hdigits⟩

/-- The digits that were read, and their value. -/
theorem readDigits_ten {limit : Nat} {maxDigits : Option Nat} {s rest : Str}
    {value count value' count' : Nat}
    (h : readDigits 10 limit maxDigits s value count = some (value', count', rest)) :
    ∃ digits, s = digits ++ rest ∧ (∀ c ∈ digits, (toDigit 10 c).isSome = true) ∧
      count' = count + digits.length ∧ value' = Nat.ofDigitChars 10 digits value ∧
      (value ≤ limit → value' ≤ limit) := by
  induction s generalizing value count with
  | nil =>
      cases h
      exact ⟨[], rfl, by simp, rfl, rfl, id⟩
  | cons c s ih =>
      rw [readDigits] at h
      cases hdigit : toDigit 10 c with
      | none =>
          rw [hdigit] at h
          cases h
          exact ⟨[], rfl, by simp, rfl, rfl, id⟩
      | some digit =>
          simp only [hdigit] at h
          split at h
          · cases h
          · next hlimit =>
              obtain ⟨digits, rfl, hall, hcount, hvalue, hle⟩ := ih h
              have hfits := hle (by omega)
              refine ⟨c :: digits, rfl, ?_, ?_, ?_, fun _ => hfits⟩
              · exact List.forall_mem_cons.mpr ⟨by rw [hdigit]; rfl, hall⟩
              · rw [hcount, List.length_cons]
                omega
              · rw [hvalue, (toDigit_ten hdigit).1, Nat.mul_comm, Nat.ofDigitChars_cons]

/-- Digits behind a number are the digits of a longer one. -/
theorem toDigits_append_digits {digits : Str} {value : Nat} (hpos : 0 < value)
    (h : ∀ c ∈ digits, (toDigit 10 c).isSome = true) :
    Nat.toDigits 10 value ++ digits = Nat.toDigits 10 (Nat.ofDigitChars 10 digits value) := by
  induction digits generalizing value with
  | nil => exact List.append_nil _
  | cons c digits ih =>
      obtain ⟨digit, -, hvalue, hlt, hchar, hdigits⟩ := digits_cons h
      have hone := Nat.toDigits_append_toDigits (by decide) hpos hlt
      rw [Nat.toDigits_of_lt_base hlt, hchar] at hone
      rw [Nat.ofDigitChars_cons, ← hvalue, ← ih (by omega) hdigits, ← hone, List.append_assoc]
      rfl

/-- Digits without a leading zero are those of their value. -/
theorem toDigits_ofDigitChars {c : Char} {digits : Str} (hzero : c = '0' → digits = [])
    (h : ∀ d ∈ c :: digits, (toDigit 10 d).isSome = true) :
    Nat.toDigits 10 (Nat.ofDigitChars 10 (c :: digits) 0) = c :: digits := by
  obtain ⟨digit, -, hvalue, hlt, hchar, hdigits⟩ := digits_cons h
  rw [Nat.ofDigitChars_cons, Nat.mul_zero, Nat.zero_add, ← hvalue]
  cases digit with
  | zero =>
      rw [hzero hchar.symm, ← hchar]
      rfl
  | succ digit =>
      rw [← toDigits_append_digits (Nat.succ_pos digit) hdigits, Nat.toDigits_of_lt_base hlt, hchar]
      rfl

/-! ## IPv4 addresses -/

theorem readNumber_octet_eq {s rest : Str} {n : Nat}
    (h : readNumber 10 255 (some 3) false s = some (n, rest)) :
    n < 256 ∧ s = Nat.toDigits 10 n ++ rest := by
  rw [readNumber] at h
  split at h
  · cases h
  · next value count rest' hread =>
      obtain ⟨digits, rfl, hall, hcount, hvalue, hle⟩ := readDigits_ten hread
      split at h
      · cases h
      · next hne =>
          split at h
          · cases h
          · next hzero =>
              cases h
              have hfits := hle (Nat.zero_le 255)
              refine ⟨by omega, ?_⟩
              cases digits with
              | nil => exact absurd hcount hne
              | cons c digits =>
                  rw [hvalue, toDigits_ofDigitChars (fun hc => ?_) hall]
                  subst hc
                  simp only [Bool.not_false, List.cons_append, List.head?_cons, beq_self_eq_true,
                    Bool.true_and, decide_eq_true_eq, hcount, List.length_cons] at hzero
                  exact List.length_eq_zero_iff.mp (by omega)

theorem readOctet_eq {index : Nat} {s rest : Str} {b : UInt8}
    (h : readOctet index s = some (b, rest)) :
    s = (if index = 0 then [] else ['.']) ++ (Nat.toDigits 10 b.toNat ++ rest) := by
  have hnumber : ∀ {s : Str}, (readNumber 10 255 (some 3) false s).map
      (fun r => (UInt8.ofNat r.1, r.2)) = some (b, rest) →
      s = Nat.toDigits 10 b.toNat ++ rest := by
    intro s h
    obtain ⟨⟨n, rest'⟩, hread, heq⟩ := Option.map_eq_some_iff.mp h
    cases heq
    obtain ⟨hlt, hs⟩ := readNumber_octet_eq hread
    have hvalue : (UInt8.ofNat n).toNat = n := UInt8.toNat_ofNat_of_lt' hlt
    simp only [hvalue]
    exact hs
  rw [readOctet, readSeparator] at h
  by_cases hindex : index = 0
  · rw [if_pos hindex] at h ⊢
    exact hnumber h
  · rw [if_neg hindex] at h ⊢
    obtain ⟨⟨u, s'⟩, hdot, hrest⟩ := Option.bind_eq_some_iff.mp h
    cases s with
    | nil => cases hdot
    | cons d s =>
        rw [readGivenChar] at hdot
        split at hdot
        · next hd =>
            cases hdot
            have hs := hnumber hrest
            rw [hd, ← hs]
            rfl
        · cases hdot

/-- What is read as an address is its text. -/
theorem readIpv4Addr_eq {s rest : Str} {ip : Ipv4Addr} (h : readIpv4Addr s = some (ip, rest)) :
    s = ip.text ++ rest := by
  simp only [readIpv4Addr, Option.bind_eq_bind, Option.bind_eq_some_iff] at h
  obtain ⟨⟨a, s1⟩, ha, ⟨b, s2⟩, hb, ⟨c, s3⟩, hc, ⟨d, s4⟩, hd, h⟩ := h
  cases h
  simp only at hb hc hd
  rw [readOctet_eq ha, readOctet_eq hb, readOctet_eq hc, readOctet_eq hd]
  simp [Ipv4Addr.text]

theorem parseWith_eq_some {α : Type} {reader : Reader α} {s : Str} {v : α} :
    parseWith reader s = some v ↔ reader s = some (v, []) := by
  rw [parseWith]
  split
  · next value h => rw [h, Option.some.injEq, Option.some.injEq, Prod.mk.injEq, and_iff_left rfl]
  · next h =>
      constructor
      · intro hnone
        cases hnone
      · intro hread
        exact absurd hread (h v)

theorem parseIpv4Addr_eq_some {s : Str} {ip : Ipv4Addr} :
    parseIpv4Addr s = some ip ↔ s = ip.text := by
  constructor
  · intro h
    rw [parseIpv4Addr] at h
    split at h
    · cases h
    · rw [readIpv4Addr_eq (parseWith_eq_some.mp h), List.append_nil]
  · rintro rfl
    exact parseIpv4Addr_text ip

/-- `IpAddr::from_str` reads an IPv4 address from the same text. -/
theorem parseIpAddr_eq_v4 {s : Str} {ip : Ipv4Addr} :
    parseIpAddr s = some (.v4 ip) ↔ s = ip.text := by
  rw [parseIpAddr, parseWith_eq_some, readIpAddr]
  constructor
  · intro h
    rw [Option.orElse_eq_some] at h
    rcases h with hv4 | ⟨-, hv6⟩
    · obtain ⟨⟨ip', rest⟩, hread, heq⟩ := Option.map_eq_some_iff.mp hv4
      cases heq
      rw [readIpv4Addr_eq hread, List.append_nil]
    · obtain ⟨⟨ip', rest⟩, -, heq⟩ := Option.map_eq_some_iff.mp hv6
      cases heq
  · rintro rfl
    have hread := @readIpv4Addr_text ip [] (by simp)
    rw [List.append_nil] at hread
    rw [hread]
    rfl

theorem Ipv4Addr.text_chars (ip : Ipv4Addr) : ∀ c ∈ ip.text, DottedChar c :=
  parseIpv4Addr_chars (parseIpv4Addr_text ip)

theorem Ipv4Addr.text_ne_nil (ip : Ipv4Addr) : ip.text ≠ [] :=
  List.append_ne_nil_of_right_ne_nil _ (List.cons_ne_nil _ _)

theorem Ipv4Addr.colon_not_mem_text (ip : Ipv4Addr) : ':' ∉ ip.text :=
  fun h => absurd (ip.text_chars ':' h) (by decide)

/-! ## Ports -/

/-- A port: decimal digits, whose value fits. -/
def IsPort (s : Str) : Prop :=
  s ≠ [] ∧ (∀ c ∈ s, (toDigit 10 c).isSome = true) ∧ Nat.ofDigitChars 10 s 0 ≤ 65535

instance (s : Str) : Decidable (IsPort s) :=
  decidable_of_iff (s ≠ [] ∧ (s.all fun c => (toDigit 10 c).isSome) = true ∧
      Nat.ofDigitChars 10 s 0 ≤ 65535)
    (by rw [IsPort, List.all_eq_true])

theorem le_ofDigitChars (digits : Str) (value : Nat) :
    value ≤ Nat.ofDigitChars 10 digits value := by
  induction digits generalizing value with
  | nil => exact Nat.le_refl value
  | cons c digits ih =>
      rw [Nat.ofDigitChars_cons]
      exact Nat.le_trans (by omega) (ih _)

/-- Digits are read to their end if their value fits. -/
theorem readDigits_fits {limit : Nat} {digits : Str} {value : Nat} (count : Nat)
    (h : ∀ c ∈ digits, (toDigit 10 c).isSome = true)
    (hfits : Nat.ofDigitChars 10 digits value ≤ limit) :
    readDigits 10 limit none digits value count =
      some (Nat.ofDigitChars 10 digits value, count + digits.length, []) := by
  induction digits generalizing value count with
  | nil => rfl
  | cons c digits ih =>
      obtain ⟨digit, hdigit, hvalue, -, -, hdigits⟩ := digits_cons h
      rw [Nat.ofDigitChars_cons, ← hvalue, Nat.mul_comm] at hfits ⊢
      have hle := le_ofDigitChars digits (value * 10 + digit)
      have hroom : ¬(limit < value * 10 + digit ∨ (none : Option Nat).any (· < count + 1)) := by
        rw [Option.any_none]
        simp only [Bool.false_eq_true, or_false]
        omega
      simp only [readDigits, hdigit]
      rw [if_neg hroom, ih (count + 1) hdigits hfits, List.length_cons, Nat.add_right_comm]
      rfl

theorem readNumber_port {s : Str} :
    (∃ n, readNumber 10 65535 none true s = some (n, [])) ↔ IsPort s := by
  rw [readNumber]
  constructor
  · rintro ⟨n, h⟩
    split at h
    · cases h
    · next value count rest hread =>
        obtain ⟨digits, rfl, hall, hcount, hvalue, hle⟩ := readDigits_ten hread
        split at h
        · cases h
        · next hne =>
            rw [Bool.not_true, Bool.false_and, Bool.false_and, if_neg Bool.false_ne_true] at h
            cases h
            rw [List.append_nil]
            refine ⟨fun hnil => hne ?_, hall, hvalue ▸ hle (Nat.zero_le _)⟩
            rw [hcount, hnil]
            rfl
  · rintro ⟨hne, hall, hfits⟩
    have hlen : ¬0 + s.length = 0 := by
      rw [Nat.zero_add]
      exact fun hnil => hne (List.length_eq_zero_iff.mp hnil)
    rw [readDigits_fits 0 hall hfits]
    exact ⟨_, if_neg hlen⟩

/-- A socket address is an address, a colon and a port. -/
theorem parseSocketAddr_text (ip : Ipv4Addr) (rest : Str) :
    (IsPort rest ∧ ∃ port, parseSocketAddr (ip.text ++ ':' :: rest) = some (.v4 ip port)) ∨
      (¬IsPort rest ∧ parseSocketAddr (ip.text ++ ':' :: rest) = none) := by
  have hcolon : ∀ c ∈ (':' :: rest).head?, toDigit 10 c = none := by
    intro c hc
    cases hc
    decide
  have hv4 : readSocketAddrV4 (ip.text ++ ':' :: rest) =
      (readNumber 10 65535 none true rest).map fun r => (.v4 ip (UInt16.ofNat r.1), r.2) := by
    simp only [readSocketAddrV4, readIpv4Addr_text ip hcolon, Option.bind_eq_bind,
      Option.bind_some, readPort, readGivenChar, if_true]
    cases readNumber 10 65535 none true rest with
    | none => rfl
    | some r => rfl
  have hv6 : readSocketAddrV6 (ip.text ++ ':' :: rest) = none := by
    have hbracket : readGivenChar '[' (ip.text ++ ':' :: rest) = none := by
      cases htext : ip.text with
      | nil => rfl
      | cons c text =>
          have hc : DottedChar c := ip.text_chars c (by rw [htext]; exact List.mem_cons_self)
          exact if_neg fun h => absurd (h ▸ hc) (by decide)
    rw [readSocketAddrV6, hbracket]
    rfl
  by_cases hport : IsPort rest
  · obtain ⟨n, hn⟩ := readNumber_port.mpr hport
    refine .inl ⟨hport, UInt16.ofNat n, ?_⟩
    rw [parseSocketAddr, parseWith_eq_some, hv4, hn]
    rfl
  · refine .inr ⟨hport, ?_⟩
    rw [parseSocketAddr, parseWith, hv4, hv6]
    cases hn : readNumber 10 65535 none true rest with
    | none => rfl
    | some r =>
        obtain ⟨n, left⟩ := r
        cases left with
        | nil => exact absurd (readNumber_port.mp ⟨n, hn⟩) hport
        | cons c left => rfl

end DnsRelay.Lib
