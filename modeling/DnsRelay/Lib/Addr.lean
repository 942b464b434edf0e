import Mathlib.Data.Vector.Basic
import DnsRelay.Lib.Text

/-!
# Internet addresses and their text form

The addresses of `std::net` and the parser behind their `FromStr`.  A reader
takes the rest of the input and returns a value with what is left.  A reader
that fails consumes nothing, so its caller may try another one.  `parseWith`
accepts only when nothing is left.

IPv4 octets have at most three digits and no leading zero.  IPv6 groups may
end in an embedded IPv4 address, and `::` stands for at least one zero group.
-/

namespace DnsRelay.Lib

/-! ## Addresses -/

structure Ipv4Addr where
  a : UInt8
  b : UInt8
  c : UInt8
  d : UInt8
deriving DecidableEq, Repr

/-- `Ipv6Addr`: eight groups. -/
abbrev Ipv6Addr := Vector UInt16 8

inductive IpAddr where
  | v4 (ip : Ipv4Addr)
  | v6 (ip : Ipv6Addr)
deriving DecidableEq, Repr

/-- `SocketAddr`.  The flow information of the IPv6 form is always zero after
parsing and is left out. -/
inductive SocketAddr where
  | v4 (ip : Ipv4Addr) (port : UInt16)
  | v6 (ip : Ipv6Addr) (scope : UInt32) (port : UInt16)
deriving DecidableEq, Repr

/-- `SocketAddr::is_ipv4`. -/
def SocketAddr.isIpv4 : SocketAddr → Bool
  | .v4 .. => true
  | .v6 .. => false

/-- `SocketAddr::ip`. -/
def SocketAddr.ip : SocketAddr → IpAddr
  | .v4 ip _ => .v4 ip
  | .v6 ip _ _ => .v6 ip

/-! ## Kinds of IPv4 addresses -/

namespace Ipv4Addr

/-- `Ipv4Addr::is_unspecified`. -/
def isUnspecified (ip : Ipv4Addr) : Bool := ip = ⟨0, 0, 0, 0⟩

/-- `Ipv4Addr::is_private`. -/
def isPrivate (ip : Ipv4Addr) : Bool :=
  ip.a = 10 || (ip.a = 172 && decide (16 ≤ ip.b) && decide (ip.b ≤ 31)) ||
    (ip.a = 192 && ip.b = 168)

/-- `Ipv4Addr::is_loopback`. -/
def isLoopback (ip : Ipv4Addr) : Bool := ip.a = 127

/-- `Ipv4Addr::is_link_local`. -/
def isLinkLocal (ip : Ipv4Addr) : Bool := ip.a = 169 && ip.b = 254

/-- `Ipv4Addr::is_broadcast`. -/
def isBroadcast (ip : Ipv4Addr) : Bool := ip = ⟨255, 255, 255, 255⟩

/-- `Ipv4Addr::is_documentation`. -/
def isDocumentation (ip : Ipv4Addr) : Bool :=
  (ip.a = 192 && ip.b = 0 && ip.c = 2) || (ip.a = 198 && ip.b = 51 && ip.c = 100) ||
    (ip.a = 203 && ip.b = 0 && ip.c = 113)

/-- `Ipv4Addr::is_multicast`. -/
def isMulticast (ip : Ipv4Addr) : Bool := decide (224 ≤ ip.a) && decide (ip.a ≤ 239)

end Ipv4Addr

/-! ## Readers -/

/-- A reader returns a value and the rest of the input. -/
abbrev Reader (α : Type) := Str → Option (α × Str)

variable {α : Type}

/-- `read_given_char`. -/
def readGivenChar (c : Char) : Reader Unit
  | [] => none
  | d :: rest => if d = c then some ((), rest) else none

/-- `read_separator`: every item but the first follows a separator. -/
def readSeparator (sep : Char) (index : Nat) (inner : Reader α) : Reader α := fun s =>
  if index = 0 then inner s else (readGivenChar sep s).bind fun r => inner r.2

/-- `char::to_digit`. -/
def toDigit (radix : Nat) (c : Char) : Option Nat :=
  let digit :=
    if '0' ≤ c ∧ c ≤ '9' then some (c.toNat - '0'.toNat)
    else if 'a' ≤ c ∧ c ≤ 'z' then some (c.toNat - 'a'.toNat + 10)
    else if 'A' ≤ c ∧ c ≤ 'Z' then some (c.toNat - 'A'.toNat + 10)
    else none
  digit.filter (· < radix)

/-- The loop of `read_number`: the value and the number of the digits read so
far.  It fails past `limit`, the greatest value of the number's type, and past
`maxDigits`. -/
def readDigits (radix limit : Nat) (maxDigits : Option Nat) :
    Str → Nat → Nat → Option (Nat × Nat × Str)
  | [], value, count => some (value, count, [])
  | c :: rest, value, count =>
      match toDigit radix c with
      | none => some (value, count, c :: rest)
      | some digit =>
          if limit < value * radix + digit ∨ maxDigits.any (· < count + 1) then none
          else readDigits radix limit maxDigits rest (value * radix + digit) (count + 1)

/-- `read_number`. -/
def readNumber (radix limit : Nat) (maxDigits : Option Nat) (allowZeroPrefix : Bool) :
    Reader Nat := fun s =>
  match readDigits radix limit maxDigits s 0 0 with
  | none => none
  | some (value, count, rest) =>
      if count = 0 then none
      else if !allowZeroPrefix && s.head? == some '0' && 1 < count then none
      else some (value, rest)

def readOctet (index : Nat) : Reader UInt8 :=
  readSeparator '.' index fun s =>
    (readNumber 10 255 (some 3) false s).map fun r => (UInt8.ofNat r.1, r.2)

/-- `read_ipv4_addr`. -/
def readIpv4Addr : Reader Ipv4Addr := fun s => do
  let (a, s) ← readOctet 0 s
  let (b, s) ← readOctet 1 s
  let (c, s) ← readOctet 2 s
  let (d, s) ← readOctet 3 s
  return (⟨a, b, c, d⟩, s)

/-- `read_groups`: up to `left` groups, and whether they end in an embedded
IPv4 address.  The address takes two groups. -/
def readGroups : Nat → Nat → Str → List UInt16 × Bool × Str
  | 0, _, s => ([], false, s)
  | left + 1, index, s =>
      match if 0 < left then readSeparator ':' index readIpv4Addr s else none with
      | some (ip, rest) =>
          ([ip.a.toUInt16 * 256 + ip.b.toUInt16, ip.c.toUInt16 * 256 + ip.d.toUInt16], true, rest)
      | none =>
          match readSeparator ':' index (readNumber 16 65535 (some 4) true) s with
          | none => ([], false, s)
          | some (group, rest) =>
              let (groups, embedded, rest) := readGroups left (index + 1) rest
              (UInt16.ofNat group :: groups, embedded, rest)

/-- The address of the groups before `::` and of those after it. -/
def joinGroups (head tail : List UInt16) : Ipv6Addr :=
  let groups := head ++ List.replicate (8 - head.length - tail.length) 0 ++ tail
  Vector.ofFn fun i : Fin 8 => groups.getD i 0

/-- `read_ipv6_addr`. -/
def readIpv6Addr : Reader Ipv6Addr := fun s => do
  let (head, embedded, s) := readGroups 8 0 s
  if head.length = 8 then return (joinGroups head [], s)
  -- An embedded address may only end the text.
  if embedded then none
  let ((), s) ← readGivenChar ':' s
  let ((), s) ← readGivenChar ':' s
  let (tail, _, s) := readGroups (8 - (head.length + 1)) 0 s
  return (joinGroups head tail, s)

/-- `read_ip_addr`. -/
def readIpAddr : Reader IpAddr := fun s =>
  ((readIpv4Addr s).map fun r => (IpAddr.v4 r.1, r.2)) <|>
    (readIpv6Addr s).map fun r => (IpAddr.v6 r.1, r.2)

/-- `read_port`. -/
def readPort : Reader UInt16 := fun s => do
  let ((), s) ← readGivenChar ':' s
  let (port, s) ← readNumber 10 65535 none true s
  return (UInt16.ofNat port, s)

/-- `read_scope_id`. -/
def readScopeId : Reader UInt32 := fun s => do
  let ((), s) ← readGivenChar '%' s
  let (scope, s) ← readNumber 10 4294967295 none true s
  return (UInt32.ofNat scope, s)

/-- `read_socket_addr_v4`. -/
def readSocketAddrV4 : Reader SocketAddr := fun s => do
  let (ip, s) ← readIpv4Addr s
  let (port, s) ← readPort s
  return (.v4 ip port, s)

/-- `read_socket_addr_v6`. -/
def readSocketAddrV6 : Reader SocketAddr := fun s => do
  let ((), s) ← readGivenChar '[' s
  let (ip, s) ← readIpv6Addr s
  let (scope, s) := (readScopeId s).getD (0, s)
  let ((), s) ← readGivenChar ']' s
  let (port, s) ← readPort s
  return (.v6 ip scope port, s)

/-! ## Parsers -/

/-- `parse_with`: the reader must use up the text. -/
def parseWith (reader : Reader α) (s : Str) : Option α :=
  match reader s with
  | some (value, []) => some value
  | _ => none

/-- `Ipv4Addr::from_str`, which refuses long texts at once. -/
def parseIpv4Addr (s : Str) : Option Ipv4Addr :=
  if 15 < (utf8 s).length then none else parseWith readIpv4Addr s

/-- `IpAddr::from_str`. -/
def parseIpAddr (s : Str) : Option IpAddr := parseWith readIpAddr s

/-- `SocketAddr::from_str`. -/
def parseSocketAddr (s : Str) : Option SocketAddr :=
  parseWith (fun s => readSocketAddrV4 s <|> readSocketAddrV6 s) s

/-! ## Reading back what was written -/

/-- The octets of an address, as `Display` writes them. -/
def Ipv4Addr.text (ip : Ipv4Addr) : Str :=
  Nat.toDigits 10 ip.a.toNat ++ '.' :: (Nat.toDigits 10 ip.b.toNat ++ '.' ::
    (Nat.toDigits 10 ip.c.toNat ++ '.' :: Nat.toDigits 10 ip.d.toNat))

/-- The loop stops where the digits end. -/
theorem readDigits_append {radix limit : Nat} {maxDigits : Option Nat} {rest : Str}
    (hrest : ∀ c ∈ rest.head?, toDigit radix c = none) {value' count' : Nat} :
    ∀ {digits : Str} {value count : Nat},
      readDigits radix limit maxDigits digits value count = some (value', count', []) →
      readDigits radix limit maxDigits (digits ++ rest) value count =
        some (value', count', rest) := by
  intro digits
  induction digits with
  | nil =>
      intro value count h
      cases h
      cases rest with
      | nil => rfl
      | cons c rest =>
          have hc := hrest c rfl
          simp only [List.nil_append, readDigits, hc]
  | cons c digits ih =>
      intro value count h
      simp only [List.cons_append, readDigits] at h ⊢
      cases hc : toDigit radix c with
      | none =>
          rw [hc] at h
          cases h
      | some digit =>
          rw [hc] at h
          simp only at h ⊢
          by_cases hlimit : limit < value * radix + digit ∨ maxDigits.any (· < count + 1)
          · rw [if_pos hlimit] at h
            cases h
          · rw [if_neg hlimit] at h ⊢
            exact ih h

theorem octet_digits : ∀ n < 256,
    readDigits 10 255 (some 3) (Nat.toDigits 10 n) 0 0 =
        some (n, (Nat.toDigits 10 n).length, []) ∧
      (Nat.toDigits 10 n).length ≠ 0 ∧
      ((Nat.toDigits 10 n).head? = some '0' → (Nat.toDigits 10 n).length = 1) ∧
      (utf8 (Nat.toDigits 10 n)).length ≤ 3 ∧ '/' ∉ Nat.toDigits 10 n := by
  decide +kernel

theorem readNumber_octet (b : UInt8) {rest : Str}
    (hrest : ∀ c ∈ rest.head?, toDigit 10 c = none) :
    readNumber 10 255 (some 3) false (Nat.toDigits 10 b.toNat ++ rest) = some (b.toNat, rest) := by
  obtain ⟨hread, hne, hzero, -⟩ := octet_digits b.toNat b.toNat_lt
  have hhead : (Nat.toDigits 10 b.toNat ++ rest).head? = (Nat.toDigits 10 b.toNat).head? := by
    rw [List.head?_append]
    cases hd : Nat.toDigits 10 b.toNat with
    | nil => exact absurd (congrArg List.length hd) hne
    | cons c digits => rfl
  simp only [readNumber, readDigits_append hrest hread, if_neg hne, hhead]
  refine if_neg fun hlong => ?_
  simp only [Bool.and_eq_true, beq_iff_eq, decide_eq_true_eq] at hlong
  have := hzero hlong.1.2
  omega

theorem readOctet_first (b : UInt8) {rest : Str}
    (hrest : ∀ c ∈ rest.head?, toDigit 10 c = none) :
    readOctet 0 (Nat.toDigits 10 b.toNat ++ rest) = some (b, rest) := by
  show (readNumber 10 255 (some 3) false (Nat.toDigits 10 b.toNat ++ rest)).map _ = _
  rw [readNumber_octet b hrest, Option.map_some, UInt8.ofNat_toNat]

theorem readOctet_next (index : Nat) (hi : index ≠ 0) (b : UInt8) {rest : Str}
    (hrest : ∀ c ∈ rest.head?, toDigit 10 c = none) :
    readOctet index ('.' :: (Nat.toDigits 10 b.toNat ++ rest)) = some (b, rest) := by
  rw [readOctet, readSeparator, if_neg hi]
  show (readNumber 10 255 (some 3) false (Nat.toDigits 10 b.toNat ++ rest)).map _ = _
  rw [readNumber_octet b hrest, Option.map_some, UInt8.ofNat_toNat]

/-- The text of an address is read back, unless a digit follows it. -/
theorem readIpv4Addr_text (ip : Ipv4Addr) {rest : Str}
    (hrest : ∀ c ∈ rest.head?, toDigit 10 c = none) :
    readIpv4Addr (ip.text ++ rest) = some (ip, rest) := by
  have hdot : ∀ rest : Str, ∀ c ∈ ('.' :: rest).head?, toDigit 10 c = none := by
    intro rest c hc
    cases hc
    decide
  simp only [readIpv4Addr, Ipv4Addr.text, List.append_assoc, List.cons_append,
    readOctet_first ip.a (hdot _), readOctet_next 1 (by decide) ip.b (hdot _),
    readOctet_next 2 (by decide) ip.c (hdot _), readOctet_next 3 (by decide) ip.d hrest,
    Option.bind_eq_bind, Option.bind_some]
  rfl

/-- The text of an address is parsed back. -/
theorem parseIpv4Addr_text (ip : Ipv4Addr) : parseIpv4Addr ip.text = some ip := by
  have hlen : ¬15 < (utf8 ip.text).length := by
    have hoctet := fun b : UInt8 => (octet_digits b.toNat b.toNat_lt).2.2.2.1
    have hcons : ∀ s : Str, (utf8 ('.' :: s)).length = 1 + (utf8 s).length :=
      fun s => congrArg List.length (utf8_append ['.'] s) |>.trans List.length_append
    have ha := hoctet ip.a
    have hb := hoctet ip.b
    have hc := hoctet ip.c
    have hd := hoctet ip.d
    simp only [Ipv4Addr.text, utf8_append, List.length_append, hcons]
    omega
  have hread := @readIpv4Addr_text ip [] (by simp)
  rw [List.append_nil] at hread
  rw [parseIpv4Addr, if_neg hlen, parseWith, hread]

example : parseIpAddr "8.8.4.4".toList = some (.v4 ⟨8, 8, 4, 4⟩) := by decide

example : parseIpAddr "08.8.4.4".toList = none := by decide

example : parseIpAddr "::ffff:1.2.3.4".toList =
    some (.v6 #v[0, 0, 0, 0, 0, 65535, 258, 772]) := by decide

example : parseSocketAddr "[::1]:53".toList = some (.v6 #v[0, 0, 0, 0, 0, 0, 0, 1] 0 53) := by
  decide

/-! ## The characters of an address -/

/-- A hexadecimal digit or one of the separators. -/
def AddrChar (c : Char) : Prop := (toDigit 16 c).isSome = true ∨ c = ':' ∨ c = '.'

instance (c : Char) : Decidable (AddrChar c) :=
  inferInstanceAs (Decidable ((toDigit 16 c).isSome = true ∨ c = ':' ∨ c = '.'))

/-- A decimal digit or a dot. -/
def DottedChar (c : Char) : Prop := (toDigit 10 c).isSome = true ∨ c = '.'

instance (c : Char) : Decidable (DottedChar c) :=
  inferInstanceAs (Decidable ((toDigit 10 c).isSome = true ∨ c = '.'))

theorem isSome_toDigit {radix radix' : Nat} (hradix : radix ≤ radix') {c : Char}
    (h : (toDigit radix c).isSome = true) : (toDigit radix' c).isSome = true := by
  obtain ⟨digit, hdigit⟩ := Option.isSome_iff_exists.mp h
  rw [toDigit] at hdigit ⊢
  obtain ⟨hvalue, hlt⟩ := Option.filter_eq_some_iff.mp hdigit
  have hlt' : decide (digit < radix') = true :=
    decide_eq_true ((of_decide_eq_true hlt).trans_le hradix)
  rw [Option.filter_eq_some_iff.mpr ⟨hvalue, hlt'⟩]
  rfl

theorem DottedChar.addrChar {c : Char} (h : DottedChar c) : AddrChar c :=
  h.imp (isSome_toDigit (by decide)) .inr

section Characters

variable {P : Char → Prop}

/-- The rest is left when such characters are used up. -/
def UsedUp (P : Char → Prop) (s rest : Str) : Prop := ∃ used, s = used ++ rest ∧ ∀ c ∈ used, P c

theorem UsedUp.refl (s : Str) : UsedUp P s s := ⟨[], rfl, by simp⟩

theorem UsedUp.trans {s t u : Str} (h : UsedUp P s t) (h' : UsedUp P t u) : UsedUp P s u := by
  obtain ⟨a, rfl, ha⟩ := h
  obtain ⟨b, rfl, hb⟩ := h'
  refine ⟨a ++ b, (List.append_assoc _ _ _).symm, fun c hc => ?_⟩
  exact (List.mem_append.mp hc).elim (ha c) (hb c)

theorem UsedUp.cons {c : Char} {s rest : Str} (hc : P c) (h : UsedUp P s rest) :
    UsedUp P (c :: s) rest :=
  UsedUp.trans ⟨[c], rfl, by simpa using hc⟩ h

/-- The reader uses up such characters only. -/
def ReadsOnly (P : Char → Prop) (reader : Reader α) : Prop :=
  ∀ s v rest, reader s = some (v, rest) → UsedUp P s rest

theorem readsOnly_givenChar {c : Char} (hc : P c) : ReadsOnly P (readGivenChar c) := by
  intro s v rest h
  cases s with
  | nil => cases h
  | cons d s =>
      rw [readGivenChar] at h
      split at h
      · next hd =>
          cases h
          exact .cons (hd ▸ hc) (.refl _)
      · cases h

theorem readsOnly_separator {sep : Char} (hsep : P sep) {inner : Reader α}
    (hinner : ReadsOnly P inner) (index : Nat) : ReadsOnly P (readSeparator sep index inner) := by
  intro s v rest h
  rw [readSeparator] at h
  split at h
  · exact hinner s v rest h
  · obtain ⟨r, hgiven, h⟩ := Option.bind_eq_some_iff.mp h
    exact (readsOnly_givenChar hsep s r.1 r.2 hgiven).trans (hinner r.2 v rest h)

theorem usedUp_readDigits {radix limit : Nat} {maxDigits : Option Nat}
    (hdigit : ∀ c, (toDigit radix c).isSome = true → P c)
    {s rest : Str} {value count value' count' : Nat}
    (h : readDigits radix limit maxDigits s value count = some (value', count', rest)) :
    UsedUp P s rest := by
  induction s generalizing value count with
  | nil =>
      cases h
      exact .refl []
  | cons c s ih =>
      rw [readDigits] at h
      cases hd : toDigit radix c with
      | none =>
          rw [hd] at h
          cases h
          exact .refl _
      | some digit =>
          simp only [hd] at h
          split at h
          · cases h
          · exact .cons (hdigit c (Option.isSome_iff_exists.mpr ⟨digit, hd⟩)) (ih h)

theorem readsOnly_number {radix limit : Nat} {maxDigits : Option Nat} {allowZeroPrefix : Bool}
    (hdigit : ∀ c, (toDigit radix c).isSome = true → P c) :
    ReadsOnly P (readNumber radix limit maxDigits allowZeroPrefix) := by
  intro s v rest h
  rw [readNumber] at h
  split at h
  · cases h
  · next value count rest' hdigits =>
      split at h
      · cases h
      · split at h
        · cases h
        · cases h
          exact usedUp_readDigits hdigit hdigits

theorem ReadsOnly.mono {Q : Char → Prop} {reader : Reader α} (h : ReadsOnly P reader)
    (hPQ : ∀ c, P c → Q c) : ReadsOnly Q reader := by
  intro s v rest hread
  obtain ⟨used, heq, hused⟩ := h s v rest hread
  exact ⟨used, heq, fun c hc => hPQ c (hused c hc)⟩

/-- What a reader uses up, if it must use up everything. -/
theorem ReadsOnly.parseWith {reader : Reader α} (h : ReadsOnly P reader) {s : Str} {v : α}
    (hparse : parseWith reader s = some v) : ∀ c ∈ s, P c := by
  rw [Lib.parseWith] at hparse
  split at hparse
  · next value hread =>
      obtain ⟨used, rfl, hused⟩ := h s value [] hread
      rwa [List.append_nil]
  · cases hparse

end Characters

theorem readsOnly_octet (index : Nat) : ReadsOnly DottedChar (readOctet index) := by
  refine readsOnly_separator (by decide) (fun s v rest h => ?_) index
  obtain ⟨r, hnumber, heq⟩ := Option.map_eq_some_iff.mp h
  cases heq
  exact readsOnly_number (fun c hc => .inl hc) s r.1 r.2 hnumber

theorem readsOnly_ipv4 : ReadsOnly DottedChar readIpv4Addr := by
  intro s v rest h
  simp only [readIpv4Addr, Option.bind_eq_bind, Option.bind_eq_some_iff] at h
  obtain ⟨a, ha, b, hb, c, hc, d, hd, h⟩ := h
  cases h
  exact (((readsOnly_octet 0 s a.1 a.2 ha).trans (readsOnly_octet 1 _ b.1 b.2 hb)).trans
    (readsOnly_octet 2 _ c.1 c.2 hc)).trans (readsOnly_octet 3 _ d.1 d.2 hd)

theorem usedUp_readGroups (left index : Nat) (s : Str) :
    UsedUp AddrChar s (readGroups left index s).2.2 := by
  fun_induction readGroups left index s with
  | case1 index s => exact .refl s
  | case2 left index s ip rest hip =>
      split at hip
      · have hipv4 := readsOnly_ipv4.mono fun c hc => hc.addrChar
        exact readsOnly_separator (by decide) hipv4 index s ip rest hip
      · cases hip
  | case3 left index s hip hgroup => exact .refl s
  | case4 left index s hip group rest hgroup groups embedded rest' hrest ih =>
      have hread : UsedUp AddrChar s rest := readsOnly_separator (by decide)
        (readsOnly_number fun c hc => .inl hc) index s group rest hgroup
      rw [hrest] at ih
      exact hread.trans ih

theorem readsOnly_ipv6 : ReadsOnly AddrChar readIpv6Addr := by
  intro s v rest h
  have hhead := usedUp_readGroups 8 0 s
  simp only [readIpv6Addr] at h
  generalize readGroups 8 0 s = groups at h hhead
  obtain ⟨head, embedded, s1⟩ := groups
  simp only at h hhead
  split at h
  · cases h
    exact hhead
  · split at h
    · cases h
    · obtain ⟨c1, hc1, h⟩ := Option.bind_eq_some_iff.mp h
      obtain ⟨c2, hc2, h⟩ := Option.bind_eq_some_iff.mp h
      have htail := usedUp_readGroups (8 - (head.length + 1)) 0 c2.2
      cases h
      exact ((hhead.trans (readsOnly_givenChar (by decide) s1 c1.1 c1.2 hc1)).trans
        (readsOnly_givenChar (by decide) c1.2 c2.1 c2.2 hc2)).trans htail

/-- An IPv4 address is written with decimal digits and dots. -/
theorem parseIpv4Addr_chars {s : Str} {ip : Ipv4Addr} (h : parseIpv4Addr s = some ip) :
    ∀ c ∈ s, DottedChar c := by
  rw [parseIpv4Addr] at h
  split at h
  · cases h
  · exact readsOnly_ipv4.parseWith h

/-- A digit is `0`, `z` or a character between them. -/
theorem toDigit_range {radix : Nat} {c : Char} (h : (toDigit radix c).isSome = true) :
    '0' ≤ c ∧ c ≤ 'z' := by
  have hwithin : ∀ {first last : Char}, '0' ≤ first → last ≤ 'z' → first ≤ c ∧ c ≤ last →
      '0' ≤ c ∧ c ≤ 'z' :=
    fun hfirst hlast hc => ⟨Char.le_trans hfirst hc.1, Char.le_trans hc.2 hlast⟩
  obtain ⟨digit, hdigit⟩ := Option.isSome_iff_exists.mp h
  have hsome := (Option.filter_eq_some_iff.mp hdigit).1
  split at hsome
  · next hc => exact hwithin (by decide) (by decide) hc
  · split at hsome
    · next hc => exact hwithin (by decide) (by decide) hc
    · split at hsome
      · next hc => exact hwithin (by decide) (by decide) hc
      · cases hsome

theorem DottedChar.solid {c : Char} (h : DottedChar c) : isWhitespace c = false := by
  have hrange : '.'.toNat ≤ c.toNat ∧ c.toNat ≤ 'z'.toNat := by
    rcases h with h | rfl
    · obtain ⟨hfirst, hlast⟩ := toDigit_range h
      exact ⟨Nat.le_trans (by decide) hfirst, hlast⟩
    · decide
  have hdot : '.'.toNat = 46 := rfl
  have hz : 'z'.toNat = 122 := rfl
  simp only [isWhitespace, Bool.or_eq_false_iff, Bool.and_eq_false_iff, decide_eq_false_iff_not]
  omega

/-- An address is written with hexadecimal digits, colons and dots. -/
theorem parseIpAddr_chars {s : Str} (h : (parseIpAddr s).isSome = true) : ∀ c ∈ s, AddrChar c := by
  obtain ⟨ip, hip⟩ := Option.isSome_iff_exists.mp h
  have hreads : ReadsOnly AddrChar readIpAddr := by
    intro s v rest hread
    rw [readIpAddr, Option.orElse_eq_some] at hread
    rcases hread with hv4 | ⟨-, hv6⟩
    · obtain ⟨⟨ip, rest'⟩, hr, heq⟩ := Option.map_eq_some_iff.mp hv4
      cases heq
      exact readsOnly_ipv4.mono (fun c hc => hc.addrChar) s ip rest' hr
    · obtain ⟨⟨ip, rest'⟩, hr, heq⟩ := Option.map_eq_some_iff.mp hv6
      cases heq
      exact readsOnly_ipv6 s ip rest' hr
  exact hreads.parseWith hip

end DnsRelay.Lib
