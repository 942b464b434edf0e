import DnsRelay.Lib.Text

/-!
# Base64

Three bytes are written as four digits of six bits.  A group that is not whole
is filled up with zero bits and padded with `=`.

`decode` is the strict reader.  It takes padded texts in which the filling bits
are zero, and so nothing but what `encode` writes (`encode_of_decode`).
`forgivingDecode` is the reader of web platforms.  It skips white space, takes
texts without padding and does not look at the filling bits.  The two agree on
every text that the strict one takes.
-/

namespace DnsRelay.Lib.Base64

/-! ## Digits -/

def alphabet : Str :=
  "ABCDEFGHIJKLMNOPQRSTUVWXYZabcdefghijklmnopqrstuvwxyz0123456789+/".toList

def digit (n : Nat) : Char := alphabet.getD n 'A'

def value (c : Char) : Option Nat := alphabet.findIdx? (· = c)

theorem value_digit : ∀ n < 64, value (digit n) = some n := by decide +kernel

/-- A character with a value is the digit for it. -/
theorem digit_of_value {c : Char} {n : Nat} (h : value c = some n) : n < 64 ∧ digit n = c := by
  obtain ⟨hn, hc, -⟩ := List.findIdx?_eq_some_iff_getElem.mp h
  refine ⟨hn, ?_⟩
  rw [digit, List.getD_eq_getElem alphabet 'A' hn]
  exact of_decide_eq_true hc

/-! ## Groups -/

def digits3 (a b c : UInt8) : Str :=
  [digit (a.toNat / 4), digit (a.toNat % 4 * 16 + b.toNat / 16),
    digit (b.toNat % 16 * 4 + c.toNat / 64), digit (c.toNat % 64)]

def digits2 (a b : UInt8) : Str :=
  [digit (a.toNat / 4), digit (a.toNat % 4 * 16 + b.toNat / 16), digit (b.toNat % 16 * 4)]

def digits1 (a : UInt8) : Str := [digit (a.toNat / 4), digit (a.toNat % 4 * 16)]

/-- The first byte of a group, from the values of its digits. -/
def byte1 (w x : Nat) : UInt8 := UInt8.ofNat (w * 4 + x / 16)

def byte2 (x y : Nat) : UInt8 := UInt8.ofNat (x % 16 * 16 + y / 4)

def byte3 (y z : Nat) : UInt8 := UInt8.ofNat (y % 4 * 64 + z)

def read3 (w x y z : Char) : Option Bytes := do
  let w ← value w
  let x ← value x
  let y ← value y
  let z ← value z
  return [byte1 w x, byte2 x y, byte3 y z]

/-- Two bytes from three digits, if the filling bits pass a test. -/
def read2 (fill : Nat → Bool) (w x y : Char) : Option Bytes := do
  let w ← value w
  let x ← value x
  let y ← value y
  if fill (y % 4) then some [byte1 w x, byte2 x y] else none

/-- One byte from two digits, if the filling bits pass a test. -/
def read1 (fill : Nat → Bool) (w x : Char) : Option Bytes := do
  let w ← value w
  let x ← value x
  if fill (x % 16) then some [byte1 w x] else none

theorem byte1_digits (a : UInt8) {low : Nat} (hlow : low < 16) :
    byte1 (a.toNat / 4) (a.toNat % 4 * 16 + low) = a := by
  apply UInt8.toNat_inj.mp
  have ha := a.toNat_lt
  rw [byte1, toNat_ofNat]
  omega

theorem byte2_digits (b : UInt8) (high : Nat) {low : Nat} (hlow : low < 4) :
    byte2 (high * 16 + b.toNat / 16) (b.toNat % 16 * 4 + low) = b := by
  apply UInt8.toNat_inj.mp
  have hb := b.toNat_lt
  rw [byte2, toNat_ofNat]
  omega

theorem byte3_digits (c : UInt8) (high : Nat) :
    byte3 (high * 4 + c.toNat / 64) (c.toNat % 64) = c := by
  apply UInt8.toNat_inj.mp
  have hc := c.toNat_lt
  rw [byte3, toNat_ofNat]
  omega

theorem byte1_toNat {w x : Nat} (hw : w < 64) (hx : x < 64) :
    (byte1 w x).toNat = w * 4 + x / 16 := by
  rw [byte1, toNat_ofNat]
  omega

theorem byte2_toNat {x y : Nat} (hy : y < 64) : (byte2 x y).toNat = x % 16 * 16 + y / 4 := by
  rw [byte2, toNat_ofNat]
  omega

theorem byte3_toNat {y z : Nat} (hz : z < 64) : (byte3 y z).toNat = y % 4 * 64 + z := by
  rw [byte3, toNat_ofNat]
  omega

section Values

variable (a b c : UInt8)

theorem value_first : value (digit (a.toNat / 4)) = some (a.toNat / 4) :=
  value_digit _ (by have := a.toNat_lt; omega)

theorem value_second : value (digit (a.toNat % 4 * 16 + b.toNat / 16)) =
    some (a.toNat % 4 * 16 + b.toNat / 16) :=
  value_digit _ (by have := b.toNat_lt; omega)

theorem value_third : value (digit (b.toNat % 16 * 4 + c.toNat / 64)) =
    some (b.toNat % 16 * 4 + c.toNat / 64) :=
  value_digit _ (by have := c.toNat_lt; omega)

theorem value_fourth : value (digit (c.toNat % 64)) = some (c.toNat % 64) :=
  value_digit _ (by omega)

end Values

/-! ## The strict reader -/

def encode : Bytes → Str
  | a :: b :: c :: rest => digits3 a b c ++ encode rest
  | [a, b] => digits2 a b ++ ['=']
  | [a] => digits1 a ++ ['=', '=']
  | [] => []

def zeroFill (bits : Nat) : Bool := decide (bits = 0)

/-- The byte string of a text that has its padding and zeros for filling. -/
def decode : Str → Option Bytes
  | w :: x :: y :: z :: rest =>
      if z = '=' ∧ rest = [] then
        if y = '=' then read1 zeroFill w x else read2 zeroFill w x y
      else do
        let bytes ← read3 w x y z
        let others ← decode rest
        return bytes ++ others
  | [] => some []
  | _ => none

theorem read3_digits3 (a b c : UInt8) :
    read3 (digit (a.toNat / 4)) (digit (a.toNat % 4 * 16 + b.toNat / 16))
      (digit (b.toNat % 16 * 4 + c.toNat / 64)) (digit (c.toNat % 64)) = some [a, b, c] := by
  have hb := b.toNat_lt
  have hc := c.toNat_lt
  simp only [read3, value_first, value_second, value_third, value_fourth, Option.bind_eq_bind,
    Option.bind_some, byte1_digits a (by omega : b.toNat / 16 < 16),
    byte2_digits b (a.toNat % 4) (by omega : c.toNat / 64 < 4),
    byte3_digits c (b.toNat % 16)]
  rfl

theorem read2_digits2 {fill : Nat → Bool} (hfill : fill 0 = true) (a b : UInt8) :
    read2 fill (digit (a.toNat / 4)) (digit (a.toNat % 4 * 16 + b.toNat / 16))
      (digit (b.toNat % 16 * 4)) = some [a, b] := by
  have hb := b.toNat_lt
  have hy := value_digit (b.toNat % 16 * 4) (by omega)
  simp only [read2, value_first, value_second, hy, Option.bind_eq_bind, Option.bind_some,
    Nat.mul_mod_left, hfill, if_true, byte1_digits a (by omega : b.toNat / 16 < 16)]
  exact congrArg (fun v => some [a, v]) (byte2_digits b (a.toNat % 4) (by decide : 0 < 4))

theorem read1_digits1 {fill : Nat → Bool} (hfill : fill 0 = true) (a : UInt8) :
    read1 fill (digit (a.toNat / 4)) (digit (a.toNat % 4 * 16)) = some [a] := by
  have hx := value_digit (a.toNat % 4 * 16) (by omega)
  simp only [read1, value_first, hx, Option.bind_eq_bind, Option.bind_some, Nat.mul_mod_left,
    hfill, if_true]
  exact congrArg (fun v => some [v]) (byte1_digits a (by decide : 0 < 16))

theorem ne_pad_of_value {c : Char} {n : Nat} (h : value c = some n) : c ≠ '=' := by
  rintro rfl
  have hnone : value '=' = none := by decide +kernel
  cases hnone.symm.trans h

theorem decode_encode (b : Bytes) : decode (encode b) = some b := by
  fun_induction encode b with
  | case1 a b c rest ih =>
      have hz := ne_pad_of_value (value_fourth c)
      simp only [digits3, List.cons_append, List.nil_append, decode, hz, false_and, if_false,
        read3_digits3, ih, Option.bind_eq_bind, Option.bind_some]
      rfl
  | case2 a b =>
      have hy := ne_pad_of_value (value_digit (b.toNat % 16 * 4) (by omega))
      simp only [digits2, List.cons_append, List.nil_append, decode, and_self, if_true, hy,
        if_false]
      exact read2_digits2 rfl a b
  | case3 a =>
      simp only [digits1, List.cons_append, List.nil_append, decode, and_self, if_true]
      exact read1_digits1 rfl a
  | case4 => rfl

theorem read3_eq_some {w x y z : Char} {b : Bytes} (h : read3 w x y z = some b) :
    ∃ a₁ a₂ a₃, b = [a₁, a₂, a₃] ∧ digits3 a₁ a₂ a₃ = [w, x, y, z] := by
  simp only [read3, Option.bind_eq_bind, Option.bind_eq_some_iff] at h
  obtain ⟨vw, hw, vx, hx, vy, hy, vz, hz, hb⟩ := h
  obtain ⟨hw64, rfl⟩ := digit_of_value hw
  obtain ⟨hx64, rfl⟩ := digit_of_value hx
  obtain ⟨hy64, rfl⟩ := digit_of_value hy
  obtain ⟨hz64, rfl⟩ := digit_of_value hz
  refine ⟨byte1 vw vx, byte2 vx vy, byte3 vy vz, (Option.some.inj hb).symm, ?_⟩
  rw [digits3, byte1_toNat hw64 hx64, byte2_toNat hy64, byte3_toNat hz64,
    (by omega : (vw * 4 + vx / 16) / 4 = vw),
    (by omega : (vw * 4 + vx / 16) % 4 * 16 + (vx % 16 * 16 + vy / 4) / 16 = vx),
    (by omega : (vx % 16 * 16 + vy / 4) % 16 * 4 + (vy % 4 * 64 + vz) / 64 = vy),
    (by omega : (vy % 4 * 64 + vz) % 64 = vz)]

theorem read2_eq_some {w x y : Char} {b : Bytes} (h : read2 zeroFill w x y = some b) :
    ∃ a₁ a₂, b = [a₁, a₂] ∧ digits2 a₁ a₂ = [w, x, y] := by
  simp only [read2, Option.bind_eq_bind, Option.bind_eq_some_iff] at h
  obtain ⟨vw, hw, vx, hx, vy, hy, hb⟩ := h
  obtain ⟨hw64, rfl⟩ := digit_of_value hw
  obtain ⟨hx64, rfl⟩ := digit_of_value hx
  obtain ⟨hy64, rfl⟩ := digit_of_value hy
  split at hb
  · next hfill =>
      have hzero : vy % 4 = 0 := of_decide_eq_true hfill
      refine ⟨byte1 vw vx, byte2 vx vy, (Option.some.inj hb).symm, ?_⟩
      rw [digits2, byte1_toNat hw64 hx64, byte2_toNat hy64,
        (by omega : (vw * 4 + vx / 16) / 4 = vw),
        (by omega : (vw * 4 + vx / 16) % 4 * 16 + (vx % 16 * 16 + vy / 4) / 16 = vx),
        (by omega : (vx % 16 * 16 + vy / 4) % 16 * 4 = vy)]
  · cases hb

theorem read1_eq_some {w x : Char} {b : Bytes} (h : read1 zeroFill w x = some b) :
    ∃ a, b = [a] ∧ digits1 a = [w, x] := by
  simp only [read1, Option.bind_eq_bind, Option.bind_eq_some_iff] at h
  obtain ⟨vw, hw, vx, hx, hb⟩ := h
  obtain ⟨hw64, rfl⟩ := digit_of_value hw
  obtain ⟨hx64, rfl⟩ := digit_of_value hx
  split at hb
  · next hfill =>
      have hzero : vx % 16 = 0 := of_decide_eq_true hfill
      refine ⟨byte1 vw vx, (Option.some.inj hb).symm, ?_⟩
      rw [digits1, byte1_toNat hw64 hx64, (by omega : (vw * 4 + vx / 16) / 4 = vw),
        (by omega : (vw * 4 + vx / 16) % 4 * 16 = vx)]
  · cases hb

/-- The strict reader takes nothing but what is written. -/
theorem encode_of_decode {s : Str} {b : Bytes} (h : decode s = some b) : encode b = s := by
  fun_induction decode s generalizing b with
  | case1 w x z rest hlast =>
      obtain ⟨rfl, rfl⟩ := hlast
      obtain ⟨a, rfl, hdigits⟩ := read1_eq_some h
      rw [encode, hdigits]
      rfl
  | case2 w x y z rest hlast hy =>
      obtain ⟨rfl, rfl⟩ := hlast
      obtain ⟨a₁, a₂, rfl, hdigits⟩ := read2_eq_some h
      rw [encode, hdigits]
      rfl
  | case3 w x y z rest hlast ih =>
      simp only [Option.bind_eq_bind, Option.bind_eq_some_iff] at h
      obtain ⟨bytes, hread, others, hothers, hb⟩ := h
      obtain rfl := Option.some.inj hb
      obtain ⟨a₁, a₂, a₃, rfl, hdigits⟩ := read3_eq_some hread
      show digits3 a₁ a₂ a₃ ++ encode others = _
      rw [hdigits, ih hothers]
      rfl
  | case4 =>
      obtain rfl := Option.some.inj h
      rfl
  | case5 => cases h

theorem decode_eq_some {s : Str} {b : Bytes} : decode s = some b ↔ s = encode b :=
  ⟨fun h => (encode_of_decode h).symm, fun h => h ▸ decode_encode b⟩

/-! ## The forgiving reader -/

def isAsciiWhitespace (c : Char) : Bool :=
  c = '\t' || c = '\n' || c = '\x0c' || c = '\r' || c = ' '

def chopPad (s : Str) : Str := if s.getLast? = some '=' then s.dropLast else s

/-- The bytes of digits without padding, whatever the filling bits are. -/
def readDigits : Str → Option Bytes
  | w :: x :: y :: z :: rest => do
      let bytes ← read3 w x y z
      let others ← readDigits rest
      return bytes ++ others
  | [w, x, y] => read2 (fun _ => true) w x y
  | [w, x] => read1 (fun _ => true) w x
  | [_] => none
  | [] => some []

def forgivingDecode (s : Str) : Option Bytes :=
  let s := s.filter fun c => !isAsciiWhitespace c
  readDigits (if s.length % 4 = 0 then chopPad (chopPad s) else s)

def digits : Bytes → Str
  | a :: b :: c :: rest => digits3 a b c ++ digits rest
  | [a, b] => digits2 a b
  | [a] => digits1 a
  | [] => []

theorem readDigits_digits (b : Bytes) : readDigits (digits b) = some b := by
  fun_induction digits b with
  | case1 a b c rest ih =>
      simp only [digits3, List.cons_append, List.nil_append, readDigits, read3_digits3, ih,
        Option.bind_eq_bind, Option.bind_some]
      rfl
  | case2 a b => exact read2_digits2 rfl a b
  | case3 a => exact read1_digits1 rfl a
  | case4 => rfl

def padding (n : Nat) : Str := List.replicate ((3 - n % 3) % 3) '='

theorem encode_eq (b : Bytes) : encode b = digits b ++ padding b.length := by
  fun_induction encode b with
  | case1 a b c rest ih =>
      have hmod : (rest.length + 1 + 1 + 1) % 3 = rest.length % 3 := by omega
      rw [ih, digits, List.append_assoc, List.length_cons, List.length_cons, List.length_cons,
        padding, padding, hmod]
  | case2 a b => rfl
  | case3 a => rfl
  | case4 => rfl

theorem encode_length (b : Bytes) : (encode b).length = (b.length + 2) / 3 * 4 := by
  fun_induction encode b with
  | case1 a b c rest ih =>
      rw [List.length_append, ih]
      simp only [digits3, List.length_cons, List.length_nil]
      omega
  | case2 a b => simp [digits2]
  | case3 a => simp [digits1]
  | case4 => rfl

/-- The digits are characters with a value. -/
theorem value_of_mem_digits {b : Bytes} {c : Char} (h : c ∈ digits b) : ∃ n, value c = some n := by
  fun_induction digits b with
  | case1 x y z rest ih =>
      rcases List.mem_append.mp h with h | h
      · simp only [digits3, List.mem_cons, List.not_mem_nil, or_false] at h
        rcases h with rfl | rfl | rfl | rfl
        · exact ⟨_, value_first x⟩
        · exact ⟨_, value_second x y⟩
        · exact ⟨_, value_third y z⟩
        · exact ⟨_, value_fourth z⟩
      · exact ih h
  | case2 x y =>
      simp only [digits2, List.mem_cons, List.not_mem_nil, or_false] at h
      rcases h with rfl | rfl | rfl
      · exact ⟨_, value_first x⟩
      · exact ⟨_, value_second x y⟩
      · exact ⟨_, value_digit _ (by omega)⟩
  | case3 x =>
      simp only [digits1, List.mem_cons, List.not_mem_nil, or_false] at h
      rcases h with rfl | rfl
      · exact ⟨_, value_first x⟩
      · exact ⟨_, value_digit _ (by omega)⟩
  | case4 => cases h

/-- A text has digits and padding only. -/
theorem mem_encode {b : Bytes} {c : Char} (h : c ∈ encode b) :
    (∃ n, value c = some n) ∨ c = '=' := by
  rw [encode_eq] at h
  rcases List.mem_append.mp h with h | h
  · exact .inl (value_of_mem_digits h)
  · exact .inr (List.eq_of_mem_replicate h)

theorem chopPad_pad (s : Str) : chopPad (s ++ ['=']) = s := by
  rw [chopPad, List.getLast?_concat, if_pos rfl, List.dropLast_concat]

theorem chopPad_digits (b : Bytes) : chopPad (digits b) = digits b := by
  rw [chopPad, if_neg]
  intro hlast
  obtain ⟨n, hn⟩ := value_of_mem_digits (List.mem_of_getLast? hlast)
  exact ne_pad_of_value hn rfl

theorem chopPad_encode (b : Bytes) : chopPad (chopPad (encode b)) = digits b := by
  rw [encode_eq, padding]
  have hpad : (3 - b.length % 3) % 3 = 0 ∨ (3 - b.length % 3) % 3 = 1 ∨
      (3 - b.length % 3) % 3 = 2 := by omega
  rcases hpad with hpad | hpad | hpad
  · rw [hpad, List.replicate_zero, List.append_nil, chopPad_digits, chopPad_digits]
  · rw [hpad, List.replicate_one, chopPad_pad, chopPad_digits]
  · have htwo : digits b ++ List.replicate 2 '=' = digits b ++ ['='] ++ ['='] := by
      rw [List.append_assoc]
      rfl
    rw [hpad, htwo, chopPad_pad, chopPad_pad]

theorem value_whitespace {c : Char} (h : isAsciiWhitespace c = true) :
    value c = none ∧ c ≠ '=' := by
  simp only [isAsciiWhitespace, Bool.or_eq_true, decide_eq_true_eq] at h
  rcases h with (((rfl | rfl) | rfl) | rfl) | rfl <;> decide +kernel

theorem filter_encode (b : Bytes) :
    (encode b).filter (fun c => !isAsciiWhitespace c) = encode b := by
  rw [List.filter_eq_self]
  intro c hc
  cases hspace : isAsciiWhitespace c with
  | false => rfl
  | true =>
      obtain ⟨hnone, hpad⟩ := value_whitespace hspace
      rcases mem_encode hc with ⟨n, hn⟩ | rfl
      · cases hnone.symm.trans hn
      · exact absurd rfl hpad

/-- The forgiving reader reads what is written. -/
theorem forgivingDecode_encode (b : Bytes) : forgivingDecode (encode b) = some b := by
  have hlen : (encode b).length % 4 = 0 := by
    rw [encode_length]
    omega
  rw [forgivingDecode, filter_encode]
  simp only [hlen, if_true, chopPad_encode]
  exact readDigits_digits b

end DnsRelay.Lib.Base64
