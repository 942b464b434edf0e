import DnsRelay.Lib.AddrText
import DnsRelay.Lib.Words
import DnsRelay.Relay.Conf
import DnsRelay.Shared.Subnet

/-!
# The network of a client, seen by the Worker

A relay that does not know the public address of its client asks the Worker
for it.  The Worker tests the address it was called from and answers with the
/24 network as a text.  The relay parses the text, and the configuration writes
and reads it in the same form.

The Worker converts the parts of an address with `Number`, which reads much
more than decimal digits, and then compares the digits of the result with the
part.  So of `Number` only the decimal numbers matter.  `JsNumber` is any
function that reads those.

An address has one text and so has a network, which is why all sides agree
(`client_subnets_agree`).
-/

namespace DnsRelay

open Lib

def subnetText (a b c : Nat) : Str :=
  Nat.toDigits 10 a ++ '.' :: (Nat.toDigits 10 b ++ '.' ::
    (Nat.toDigits 10 c ++ ".0/24".toList))

/-! ## The Worker -/

namespace Worker

/-- `Number` of a text, so far as `subnetForIp` depends on it. -/
structure JsNumber where
  /-- The value, if `Number.isInteger` holds of it. -/
  integer : Str → Option Int
  decimal : ∀ n < 256, integer (Nat.toDigits 10 n) = some (n : Int)

/-- The conversion of one part of an address, and the test that follows. -/
def JsNumber.octet (number : JsNumber) (part : Str) : Option Nat :=
  match number.integer part with
  | none => none
  | some octet =>
      if octet < 0 ∨ 255 < octet ∨ Nat.toDigits 10 octet.toNat ≠ part then none
      else some octet.toNat

/-- The ranges that `subnetForIp` leaves out. -/
def excluded (a b c : Nat) : Bool :=
  a = 0 || a = 10 || a = 127 || (a = 100 && b &&& 0xC0 = 0x40) || (a = 169 && b = 254) ||
    (a = 172 && 16 ≤ b && b ≤ 31) || (a = 192 && b = 0) || (a = 192 && b = 168) ||
    (a = 198 && b &&& 0xFE = 18) || (a = 192 && b = 0 && c = 2) ||
    (a = 198 && b = 51 && c = 100) || (a = 203 && b = 0 && c = 113) || 224 ≤ a

/-- `subnetForIp`.  The header may be missing. -/
def subnetForIp (number : JsNumber) (value : Option Str) : Option Str := do
  let value ← value
  if value.isEmpty then none
  let parts := value.splitOn '.'
  if parts.length ≠ 4 then none
  match ← parts.mapM number.octet with
  | a :: b :: c :: _ => if excluded a b c then none else some (subnetText a b c)
  | _ => none

/-- The status and the body of a response. -/
structure Response where
  status : Nat
  body : Str
deriving DecidableEq, Repr

/-- `fetch` with the method GET, for the query parameter `subnet` and the
header `cf-connecting-ip`. -/
def fetchSubnet (number : JsNumber) (subnet connectingIp : Option Str) : Response :=
  if subnet ≠ some "1".toList then ⟨404, "not found".toList⟩
  else
    match subnetForIp number connectingIp with
    | none => ⟨503, "subnet unavailable".toList⟩
    | some subnet => ⟨200, subnet ++ "\n".toList⟩

/-- `Number` on digits, with whitespace around them. -/
def digitsNumber : JsNumber where
  integer part :=
    let part := trim part
    if part.all fun c => (toDigit 10 c).isSome then some (Nat.ofDigitChars 10 part 0 : Nat)
    else none
  decimal := by decide +kernel

end Worker

/-! ## The relay -/

/-- `serialize_client_subnet`. -/
def serializeClientSubnet (subnet : Option Ipv4Subnet) : Option Str :=
  subnet.map fun n => subnetText n.a.toNat n.b.toNat n.c.toNat

/-! ## Texts -/

def Lib.Ipv4Addr.subnet (ip : Ipv4Addr) : Ipv4Subnet := ⟨ip.a, ip.b, ip.c⟩

def Ipv4Subnet.first (n : Ipv4Subnet) : Ipv4Addr := ⟨n.a, n.b, n.c, 0⟩

def Ipv4Subnet.text (n : Ipv4Subnet) : Str := subnetText n.a.toNat n.b.toNat n.c.toNat

theorem Ipv4Subnet.text_eq (n : Ipv4Subnet) : n.text = n.first.text ++ '/' :: "24".toList := by
  simp only [Ipv4Subnet.text, subnetText, Ipv4Addr.text, Ipv4Subnet.first, List.append_assoc,
    List.cons_append]
  rfl

theorem dot_not_mem_toDigits (n : Nat) : '.' ∉ Nat.toDigits 10 n :=
  fun h => absurd (Nat.isDigit_of_mem_toDigits (by decide) (by decide) h) (by decide)

theorem intercalate_text (ip : Ipv4Addr) : ['.'].intercalate
    [Nat.toDigits 10 ip.a.toNat, Nat.toDigits 10 ip.b.toNat, Nat.toDigits 10 ip.c.toNat,
      Nat.toDigits 10 ip.d.toNat] = ip.text := by
  simp [Ipv4Addr.text, List.intercalate]

theorem splitOn_text (ip : Ipv4Addr) : ip.text.splitOn '.' =
    [Nat.toDigits 10 ip.a.toNat, Nat.toDigits 10 ip.b.toNat, Nat.toDigits 10 ip.c.toNat,
      Nat.toDigits 10 ip.d.toNat] := by
  rw [← intercalate_text]
  exact List.splitOn_intercalate '.' (by simp [dot_not_mem_toDigits]) (List.cons_ne_nil _ _)

/-- The networks that are accepted are public, and have one text. -/
theorem parsePublicIpv4Subnet_iff {w : Str} {n : Ipv4Subnet} :
    parsePublicIpv4Subnet w = some n ↔ w = n.text ∧ isPublicIpv4 n.first = true := by
  have hslash : ∀ ip : Ipv4Addr, '/' ∉ ip.text :=
    fun ip h => absurd (ip.text_chars '/' h) (by decide)
  rw [parsePublicIpv4Subnet, n.text_eq]
  constructor
  · intro h
    obtain ⟨⟨address, length⟩, hsplit, hparts⟩ := Option.bind_eq_some_iff.mp h
    obtain ⟨-, hw⟩ := splitOnce_eq_some.mp hsplit
    simp only at hparts
    split at hparts
    · cases hparts
    · next hlength =>
        obtain ⟨ip, hip, hok⟩ := Option.bind_eq_some_iff.mp hparts
        split at hok
        · next hpublic =>
            cases hok
            rw [Bool.and_eq_true, decide_eq_true_eq] at hpublic
            have hfirst : (⟨ip.a, ip.b, ip.c, 0⟩ : Ipv4Addr) = ip := by rw [← hpublic.1]
            rw [Ipv4Subnet.first, hfirst, hw, parseIpv4Addr_eq_some.mp hip, not_not.mp hlength]
            exact ⟨rfl, hpublic.2⟩
        · cases hok
  · rintro ⟨rfl, hpublic⟩
    rw [splitOnce_append (hslash n.first)]
    simp only [Option.bind_eq_bind, Option.bind_some, ne_eq, not_true_eq_false, if_false,
      parseIpv4Addr_text, hpublic, Bool.and_true]
    rfl

namespace Worker

theorem JsNumber.octet_eq_some (number : JsNumber) {part : Str} {n : Nat} :
    number.octet part = some n ↔ n < 256 ∧ part = Nat.toDigits 10 n := by
  rw [octet]
  constructor
  · intro h
    split at h
    · cases h
    · next octet hoctet =>
        split at h
        · cases h
        · next hok =>
            cases h
            rw [not_or, not_or, not_not] at hok
            exact ⟨by omega, hok.2.2.symm⟩
  · rintro ⟨hlt, rfl⟩
    rw [number.decimal n hlt]
    refine if_neg ?_
    rw [not_or, not_or, not_not, Int.toNat_natCast]
    exact ⟨by omega, by omega, rfl⟩

/-- Four parts that pass are those of an address. -/
theorem eq_text_of_octets (number : JsNumber) {v : Str} {octets : List Nat}
    (hparts : (v.splitOn '.').length = 4)
    (hoctets : (v.splitOn '.').mapM number.octet = some octets) :
    ∃ ip : Ipv4Addr, v = ip.text ∧
      octets = [ip.a.toNat, ip.b.toNat, ip.c.toNat, ip.d.toNat] := by
  have hv : ['.'].intercalate (v.splitOn '.') = v := List.intercalate_splitOn '.'
  generalize v.splitOn '.' = parts at hparts hoctets hv
  match parts, hparts with
  | [p, q, r, s], _ =>
      simp only [List.mapM_cons, List.mapM_nil, Option.bind_eq_bind, Option.bind_eq_some_iff,
        Option.pure_def, Option.some.injEq, number.octet_eq_some] at hoctets
      obtain ⟨a, ⟨ha, rfl⟩, _, ⟨b, ⟨hb, rfl⟩, _, ⟨c, ⟨hc, rfl⟩, _, ⟨d, ⟨hd, rfl⟩, _, rfl, rfl⟩,
        rfl⟩, rfl⟩, rfl⟩ := hoctets
      have hvalue : ∀ {n : Nat}, n < 256 → (UInt8.ofNat n).toNat = n := UInt8.toNat_ofNat_of_lt'
      refine ⟨⟨UInt8.ofNat a, UInt8.ofNat b, UInt8.ofNat c, UInt8.ofNat d⟩, ?_, ?_⟩
      · rw [← intercalate_text]
        simp only [hvalue ha, hvalue hb, hvalue hc, hvalue hd, hv]
      · simp only [hvalue ha, hvalue hb, hvalue hc, hvalue hd]

theorem mapM_octet_text (number : JsNumber) (ip : Ipv4Addr) :
    (ip.text.splitOn '.').mapM number.octet =
      some [ip.a.toNat, ip.b.toNat, ip.c.toNat, ip.d.toNat] := by
  have hoctet : ∀ b : UInt8, number.octet (Nat.toDigits 10 b.toNat) = some b.toNat :=
    fun b => number.octet_eq_some.mpr ⟨b.toNat_lt, rfl⟩
  rw [splitOn_text]
  simp only [List.mapM_cons, List.mapM_nil, hoctet]
  rfl

/-- Both sides leave out the same addresses, whatever the last octet is. -/
theorem excluded_eq (ip : Ipv4Addr) :
    excluded ip.a.toNat ip.b.toNat ip.c.toNat = !isPublicIpv4 ip := by
  obtain ⟨a, b, c, d⟩ := ip
  rw [Bool.eq_iff_iff]
  simp only [excluded, isPublicIpv4, Ipv4Addr.isUnspecified, Ipv4Addr.isPrivate,
    Ipv4Addr.isLoopback, Ipv4Addr.isLinkLocal, Ipv4Addr.isBroadcast, Ipv4Addr.isDocumentation,
    Ipv4Addr.isMulticast, Bool.not_not, Bool.or_eq_true, Bool.and_eq_true, decide_eq_true_eq,
    Ipv4Addr.mk.injEq, ← UInt8.toNat_inj, UInt8.le_iff_toNat_le, UInt8.toNat_and,
    UInt8.reduceToNat]
  have hmulticast : 224 ≤ a.toNat ↔ (224 ≤ a.toNat ∧ a.toNat ≤ 239) ∨ 240 ≤ a.toNat := by omega
  have hbroadcast : a.toNat = 255 → 240 ≤ a.toNat := by omega
  grind

/-- The Worker answers for the public addresses, with the text of the network. -/
theorem subnetForIp_iff (number : JsNumber) {v w : Str} :
    subnetForIp number (some v) = some w ↔
      ∃ ip : Ipv4Addr, v = ip.text ∧ isPublicIpv4 ip = true ∧ w = ip.subnet.text := by
  constructor
  · intro h
    simp only [subnetForIp, Option.bind_eq_bind, Option.bind_some] at h
    split at h
    · cases h
    · split at h
      · cases h
      · next hparts =>
          obtain ⟨octets, hoctets, hrest⟩ := Option.bind_eq_some_iff.mp h
          obtain ⟨ip, rfl, rfl⟩ := eq_text_of_octets number (not_not.mp hparts) hoctets
          simp only [excluded_eq] at hrest
          split at hrest
          · cases hrest
          · next hpublic =>
              cases hrest
              exact ⟨ip, rfl, by simpa using hpublic, rfl⟩
  · rintro ⟨ip, rfl, hpublic, rfl⟩
    have hne : ip.text.isEmpty = false := List.isEmpty_eq_false_iff.mpr ip.text_ne_nil
    have hparts : ¬(ip.text.splitOn '.').length ≠ 4 := by
      rw [splitOn_text]
      exact not_not.mpr rfl
    simp only [subnetForIp, Option.bind_eq_bind, Option.bind_some, hne, mapM_octet_text,
      excluded_eq, hpublic, if_neg hparts]
    rfl

end Worker

/-! ## The sides agree -/

theorem Ipv4Subnet.text_word (n : Ipv4Subnet) : Word n.text := by
  rw [n.text_eq]
  refine ⟨List.append_ne_nil_of_right_ne_nil _ (List.cons_ne_nil _ _), fun c hc => ?_⟩
  rcases List.mem_append.mp hc with hc | hc
  · exact (n.first.text_chars c hc).solid
  · have hsolid : ('/' :: "24".toList).all (fun c => !isWhitespace c) = true := by decide
    simpa using List.all_eq_true.mp hsolid c hc

/-- An address is public if the first address of its network is. -/
theorem isPublicIpv4_first (ip : Ipv4Addr) : isPublicIpv4 ip.subnet.first = isPublicIpv4 ip := by
  have h := (Worker.excluded_eq ip.subnet.first).symm.trans (Worker.excluded_eq ip)
  simpa using h

theorem publicIpv4Subnet_v4 {ip : Ipv4Addr} {port : UInt16} {n : Ipv4Subnet} :
    publicIpv4Subnet (.v4 ip port) = some n ↔ isPublicIpv4 ip = true ∧ n = ip.subnet := by
  simp only [publicIpv4Subnet, SocketAddr.ip]
  split
  · next h => simp [h, Ipv4Addr.subnet, eq_comm]
  · next h => simp [h]

theorem parsePublicIpv4Subnet_text {ip : Ipv4Addr} (hpublic : isPublicIpv4 ip = true) :
    parsePublicIpv4Subnet ip.subnet.text = some ip.subnet :=
  parsePublicIpv4Subnet_iff.mpr ⟨rfl, (isPublicIpv4_first ip).trans hpublic⟩

/-- The line feed that the Worker puts behind the text is trimmed. -/
theorem parse_body {ip : Ipv4Addr} (hpublic : isPublicIpv4 ip = true) :
    parsePublicIpv4Subnet (trim (ip.subnet.text ++ ['\n'])) = some ip.subnet := by
  rw [trim_word_concat ip.subnet.text_word (by decide)]
  exact parsePublicIpv4Subnet_text hpublic

theorem fetchSubnet_public (number : Worker.JsNumber) {ip : Ipv4Addr}
    (hpublic : isPublicIpv4 ip = true) :
    Worker.fetchSubnet number (some "1".toList) (some ip.text) =
      ⟨200, ip.subnet.text ++ ['\n']⟩ := by
  have hanswer := (Worker.subnetForIp_iff number).mpr ⟨ip, rfl, hpublic, rfl⟩
  rw [Worker.fetchSubnet, hanswer]
  rfl

/-- The Worker answers for the addresses that the relay finds public.  The
relay reads its answer, and what the configuration writes, as the network of
the address, and reads nothing else as a network. -/
theorem client_subnets_agree (number : Worker.JsNumber) (v : Str) (port : UInt16) :
    ((Worker.subnetForIp number (some v)).isSome = true ↔
        ∃ ip n, parseIpv4Addr v = some ip ∧ publicIpv4Subnet (.v4 ip port) = some n) ∧
      (∀ ip n, parseIpv4Addr v = some ip → publicIpv4Subnet (.v4 ip port) = some n →
        (∃ w, serializeClientSubnet (some n) = some w ∧ parsePublicIpv4Subnet w = some n) ∧
        let response := Worker.fetchSubnet number (some "1".toList) (some v)
        response.status = 200 ∧ parsePublicIpv4Subnet (trim response.body) = some n) ∧
      ∀ w n, parsePublicIpv4Subnet w = some n →
        serializeClientSubnet (some n) = some w ∧
          ∃ v, Worker.subnetForIp number (some v) = some w := by
  refine ⟨?_, ?_, ?_⟩
  · rw [Option.isSome_iff_exists]
    constructor
    · rintro ⟨w, hw⟩
      obtain ⟨ip, rfl, hpublic, -⟩ := (Worker.subnetForIp_iff number).mp hw
      exact ⟨ip, ip.subnet, parseIpv4Addr_text ip, publicIpv4Subnet_v4.mpr ⟨hpublic, rfl⟩⟩
    · rintro ⟨ip, n, hip, hn⟩
      obtain ⟨hpublic, rfl⟩ := publicIpv4Subnet_v4.mp hn
      exact ⟨_, (Worker.subnetForIp_iff number).mpr
        ⟨ip, parseIpv4Addr_eq_some.mp hip, hpublic, rfl⟩⟩
  · intro ip n hip hn
    obtain ⟨hpublic, rfl⟩ := publicIpv4Subnet_v4.mp hn
    rw [parseIpv4Addr_eq_some.mp hip, fetchSubnet_public number hpublic]
    exact ⟨⟨ip.subnet.text, rfl, parsePublicIpv4Subnet_text hpublic⟩, rfl, parse_body hpublic⟩
  · intro w n h
    obtain ⟨rfl, hpublic⟩ := parsePublicIpv4Subnet_iff.mp h
    exact ⟨rfl, n.first.text, (Worker.subnetForIp_iff number).mpr ⟨n.first, rfl, hpublic, rfl⟩⟩

example : Worker.subnetForIp Worker.digitsNumber (some "8.8.4.4".toList) =
    some "8.8.4.0/24".toList := by decide

example : Worker.subnetForIp Worker.digitsNumber (some "8.8.4.04".toList) = none := by decide

end DnsRelay
