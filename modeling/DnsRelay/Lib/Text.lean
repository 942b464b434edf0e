import Mathlib.Data.List.DropRight
import DnsRelay.Lib.Bytes

/-!
# Text

Strings are lists of Unicode scalar values.  The operations follow Rust's
`str`: `split`, `lines`, `trim`, prefix and suffix tests, the conversion from
UTF-8 and the lowercase mapping.

`str::to_lowercase` rests on tables that change with the Unicode version.  A
`CaseTable` is such a set of tables, with the facts every version has: ASCII
characters map to ASCII lowercase, and no other character maps to an ASCII
character that is not a lowercase letter.  `CaseTable.toLowercase` is the
algorithm over the tables, with the rule for a final sigma.
-/

namespace DnsRelay.Lib

/-- Strings. -/
abbrev Str := List Char

instance : LawfulBEq Str := inferInstanceAs (LawfulBEq (List Char))

/-! ## UTF-8 -/

def utf8 (s : Str) : Bytes := s.flatMap String.utf8EncodeChar

/-- `std::str::from_utf8`. -/
def fromUtf8 (b : Bytes) : Option Str := b.toByteArray.utf8Decode?.map Array.toList

@[simp] theorem utf8_nil : utf8 [] = [] := rfl

@[simp] theorem utf8_cons (c : Char) (s : Str) :
    utf8 (c :: s) = String.utf8EncodeChar c ++ utf8 s :=
  rfl

theorem utf8_toByteArray (s : Str) : (utf8 s).toByteArray = s.utf8Encode := rfl

theorem toByteArray_inj {a b : Bytes} (h : a.toByteArray = b.toByteArray) : a = b := by
  have h' := congrArg (fun x => x.data.toList) h
  simpa only [List.toList_data_toByteArray] using h'

theorem fromUtf8_utf8 (s : Str) : fromUtf8 (utf8 s) = some s := by
  rw [fromUtf8, utf8_toByteArray, List.utf8Decode?_utf8Encode]
  rfl

/-- Decoding accepts exactly the encodings of strings. -/
theorem fromUtf8_eq_some {b : Bytes} {s : Str} : fromUtf8 b = some s ↔ b = utf8 s := by
  constructor
  · intro h
    obtain ⟨a, ha, hs⟩ := Option.map_eq_some_iff.mp h
    have hget := ByteArray.utf8Encode_get_utf8Decode? (b := b.toByteArray) (h := by simp [ha])
    simp only [ha, Option.get_some] at hget
    apply toByteArray_inj
    rw [utf8_toByteArray, ← hs, hget]
  · rintro rfl
    exact fromUtf8_utf8 s

theorem utf8_injective {s t : Str} (h : utf8 s = utf8 t) : s = t := by
  have hs := fromUtf8_utf8 s
  rw [h, fromUtf8_utf8] at hs
  exact (Option.some.inj hs).symm

/-- The first character of an encoding can be read off its front. -/
theorem utf8_append (s t : Str) : utf8 (s ++ t) = utf8 s ++ utf8 t := List.flatMap_append

theorem head_of_utf8_append {c d : Char} {a b : Bytes}
    (h : String.utf8EncodeChar c ++ a = String.utf8EncodeChar d ++ b) : c = d := by
  have hb := congrArg (fun x => x.toByteArray.utf8DecodeChar? 0) h
  simp only [List.toByteArray_append, ByteArray.utf8DecodeChar?_utf8EncodeChar_append] at hb
  exact Option.some.inj hb

/-! ### ASCII and other characters -/

/-- ASCII characters. -/
def IsAscii (c : Char) : Prop := c.toNat < 128

instance (c : Char) : Decidable (IsAscii c) := inferInstanceAs (Decidable (c.toNat < 128))

theorem utf8EncodeChar_ascii {c : Char} (h : IsAscii c) :
    String.utf8EncodeChar c = [UInt8.ofNat c.toNat] := by
  have hv : c.val.toNat ≤ 0x7f := by
    have : c.toNat = c.val.toNat := rfl
    unfold IsAscii at h
    omega
  simp only [String.utf8EncodeChar, hv, ↓reduceIte]
  rfl

/-- Every byte of a character outside ASCII has its high bit set. -/
theorem utf8EncodeChar_other {c : Char} (h : ¬IsAscii c) :
    ∀ b ∈ String.utf8EncodeChar c, 128 ≤ b.toNat := by
  have hv : ¬c.val.toNat ≤ 0x7f := by
    have : c.toNat = c.val.toNat := rfl
    unfold IsAscii at h
    omega
  intro b hb
  simp only [String.utf8EncodeChar, hv, ↓reduceIte] at hb
  split at hb
  · simp only [List.mem_cons, List.not_mem_nil, or_false] at hb
    rcases hb with rfl | rfl <;> simp <;> omega
  · split at hb
    · simp only [List.mem_cons, List.not_mem_nil, or_false] at hb
      rcases hb with rfl | rfl | rfl <;> simp <;> omega
    · simp only [List.mem_cons, List.not_mem_nil, or_false] at hb
      rcases hb with rfl | rfl | rfl | rfl <;> simp <;> omega

/-! ## Splitting, trimming and affixes -/

/-- `char::is_whitespace`, the Unicode property `White_Space`. -/
def isWhitespace (c : Char) : Bool :=
  let n := c.toNat
  (0x9 ≤ n && n ≤ 0xD) || n = 0x20 || n = 0x85 || n = 0xA0 || n = 0x1680 ||
    (0x2000 ≤ n && n ≤ 0x200A) || n = 0x2028 || n = 0x2029 || n = 0x202F || n = 0x205F ||
    n = 0x3000

/-- `str::trim`. -/
def trim (s : Str) : Str := (s.dropWhile isWhitespace).rdropWhile isWhitespace

/-- `str::trim_end_matches` with a character. -/
def trimEndMatches (c : Char) (s : Str) : Str := s.rdropWhile (· = c)

/-- `str::starts_with`. -/
def startsWith (s pre : Str) : Bool := pre.isPrefixOf s

/-- `str::strip_prefix`. -/
def stripPrefix (s pre : Str) : Option Str :=
  if startsWith s pre then some (s.drop pre.length) else none

/-- `str::split_whitespace`. -/
def splitWhitespace (s : Str) : List Str :=
  (s.splitOnP isWhitespace).filter fun part => !part.isEmpty

/-- `str::split_once` with a character. -/
def splitOnce (c : Char) (s : Str) : Option (Str × Str) :=
  if s.contains c then some (s.takeWhile (· ≠ c), (s.dropWhile (· ≠ c)).tail) else none

/-- One line of `str::lines` that was closed by a line feed. -/
def stripCarriageReturn (s : Str) : Str :=
  if s.getLast? = some '\r' then s.dropLast else s

/-- `str::lines`.  A carriage return goes only together with its line feed,
and a text that ends in a line feed has no last empty line. -/
def lines (s : Str) : List Str :=
  let parts := s.splitOn '\n'
  let last := parts.getLastD []
  parts.dropLast.map stripCarriageReturn ++ if last.isEmpty then [] else [last]

/-- `str::to_ascii_lowercase`. -/
def toAsciiLowercase (s : Str) : Str := s.map Char.toLower

theorem toNat_toLower (c : Char) :
    c.toLower.toNat = if 65 ≤ c.toNat ∧ c.toNat ≤ 90 then c.toNat + 32 else c.toNat := by
  unfold Char.toLower
  split
  · next h =>
      have h1 : 65 ≤ c.toNat := h.1
      have h2 : c.val.toNat ≤ 90 := h.2
      rw [if_pos ⟨h1, h2⟩]
      show (c.val + 32).toNat = c.val.toNat + 32
      rw [UInt32.toNat_add]
      show (c.val.toNat + 32) % 4294967296 = c.val.toNat + 32
      omega
  · next h =>
      rw [if_neg]
      intro hc
      exact h ⟨hc.1, hc.2⟩

theorem isAlpha_iff (c : Char) : c.isAlpha = true ↔
    (65 ≤ c.toNat ∧ c.toNat ≤ 90) ∨ (97 ≤ c.toNat ∧ c.toNat ≤ 122) := by
  have hranges : c.isAlpha = (decide (c.val ≥ 65 ∧ c.val ≤ 90) ||
      (decide (c.val ≥ 97) && decide (c.val ≤ 122))) := rfl
  rw [hranges]
  simp only [Bool.or_eq_true, Bool.and_eq_true, decide_eq_true_eq]
  exact Iff.rfl

/-- A character whose lowercase is no letter is its own lowercase. -/
theorem toLower_eq_self {c : Char} (h : c.toLower.isAlpha = false) : c.toLower = c := by
  have hn := toNat_toLower c
  rw [← Char.toNat_inj]
  rw [← Bool.not_eq_true, isAlpha_iff] at h
  split at hn <;> omega

/-- Characters outside ASCII have no ASCII lowercase. -/
theorem toLower_other {c : Char} (h : ¬IsAscii c) : c.toLower = c := by
  have hn := toNat_toLower c
  rw [← Char.toNat_inj]
  rw [IsAscii] at h
  split at hn <;> omega

theorem isAscii_toLower {c : Char} : IsAscii c.toLower ↔ IsAscii c := by
  have hn := toNat_toLower c
  rw [IsAscii, IsAscii]
  split at hn <;> omega

theorem takeWhile_ne_self {c : Char} {s : Str} (h : c ∉ s) : s.takeWhile (· ≠ c) = s :=
  List.takeWhile_eq_self_iff.mpr fun _ hd => decide_eq_true (ne_of_mem_of_not_mem hd h)

theorem takeWhile_ne_append {c : Char} {s : Str} (h : c ∉ s) (t : Str) :
    (s ++ c :: t).takeWhile (· ≠ c) = s := by
  have hall : ∀ d ∈ s, decide (d ≠ c) = true :=
    fun d hd => decide_eq_true (ne_of_mem_of_not_mem hd h)
  rw [List.takeWhile_append_of_pos hall, List.takeWhile_cons_of_neg (by simp), List.append_nil]

/-- A text is split at the first place. -/
theorem splitOnce_append {c : Char} {s : Str} (h : c ∉ s) (t : Str) :
    splitOnce c (s ++ c :: t) = some (s, t) := by
  have hcontains : (s ++ c :: t).contains c = true :=
    List.contains_iff_mem.mpr (List.mem_append_right s (List.mem_cons_self ..))
  have hall : ∀ d ∈ s, decide (d ≠ c) = true :=
    fun d hd => decide_eq_true (ne_of_mem_of_not_mem hd h)
  rw [splitOnce, if_pos hcontains, takeWhile_ne_append h t, List.dropWhile_append_of_pos hall,
    List.dropWhile_cons_of_neg (by simp)]
  rfl

theorem splitOnce_eq_some {c : Char} {s before after : Str} :
    splitOnce c s = some (before, after) ↔ c ∉ before ∧ s = before ++ c :: after := by
  constructor
  · intro h
    have hmem : c ∈ s := by
      rw [splitOnce] at h
      split at h
      · next hcontains => exact List.contains_iff_mem.mp hcontains
      · cases h
    obtain ⟨a, b, rfl, hnot⟩ := List.eq_append_cons_of_mem hmem
    rw [splitOnce_append hnot] at h
    cases h
    exact ⟨hnot, rfl⟩
  · rintro ⟨hnot, rfl⟩
    exact splitOnce_append hnot after

theorem startsWith_iff {s pre : Str} : startsWith s pre = true ↔ pre <+: s :=
  List.isPrefixOf_iff_prefix

theorem stripPrefix_eq_some {s pre rest : Str} :
    stripPrefix s pre = some rest ↔ s = pre ++ rest := by
  rw [stripPrefix]
  constructor
  · intro h
    split at h
    · next hstart =>
        obtain ⟨tail, rfl⟩ := startsWith_iff.mp hstart
        cases h
        rw [List.drop_left]
    · cases h
  · rintro rfl
    rw [if_pos (startsWith_iff.mpr (List.prefix_append pre rest)), List.drop_left]

theorem stripPrefix_append (pre s : Str) : stripPrefix (pre ++ s) pre = some s :=
  stripPrefix_eq_some.mpr rfl

theorem stripPrefix_eq_none {s pre : Str} (h : startsWith s pre = false) :
    stripPrefix s pre = none := by
  rw [stripPrefix, h]
  rfl

theorem mem_intercalate {c : Char} {sep part : Str} {parts : List Str} (hp : part ∈ parts)
    (hc : c ∈ part) : c ∈ sep.intercalate parts := by
  induction parts with
  | nil => exact absurd hp List.not_mem_nil
  | cons first parts ih =>
      cases parts with
      | nil => simpa [List.mem_singleton.mp hp] using hc
      | cons second parts =>
          rw [List.intercalate_cons_cons]
          rcases List.mem_cons.mp hp with rfl | hp
          · simp [hc]
          · simp [ih hp]

/-- The parts of a split text hold no other characters. -/
theorem mem_of_mem_splitOn {c sep : Char} {s part : Str} (hp : part ∈ s.splitOn sep)
    (hc : c ∈ part) : c ∈ s := by
  have h : c ∈ [sep].intercalate (s.splitOn sep) := mem_intercalate hp hc
  rwa [List.intercalate_splitOn] at h

theorem not_sep_of_mem_splitOnP {α : Type} {p : α → Bool} : ∀ {s : List α} {part : List α},
    part ∈ s.splitOnP p → ∀ c ∈ part, p c = false
  | [], part, hp => by
      rw [List.splitOnP_nil, List.mem_singleton] at hp
      rw [hp]
      exact fun c hc => absurd hc List.not_mem_nil
  | x :: s, part, hp => by
      have ih := fun part' (h : part' ∈ s.splitOnP p) => not_sep_of_mem_splitOnP h
      rw [List.splitOnP_cons_eq_if_modifyHead] at hp
      split at hp
      · rcases List.mem_cons.mp hp with rfl | hp
        · exact fun c hc => absurd hc List.not_mem_nil
        · exact ih part hp
      · next hx =>
          cases hparts : s.splitOnP p with
          | nil =>
              rw [hparts] at hp
              exact absurd hp List.not_mem_nil
          | cons first rest =>
              rw [hparts] at hp ih
              rcases List.mem_cons.mp hp with rfl | hp
              · intro c hc
                rcases List.mem_cons.mp hc with rfl | hc
                · exact Bool.eq_false_iff.mpr hx
                · exact ih first List.mem_cons_self c hc
              · exact ih part (List.mem_cons_of_mem first hp)

/-- Lines that were written with a line feed each are read back. -/
theorem lines_flatMap {ls : List Str} (hfeed : ∀ l ∈ ls, '\n' ∉ l)
    (hreturn : ∀ l ∈ ls, l.getLast? ≠ some '\r') : lines (ls.flatMap (· ++ ['\n'])) = ls := by
  have hsplit : ∀ {ls : List Str}, (∀ l ∈ ls, '\n' ∉ l) →
      (ls.flatMap (· ++ ['\n'])).splitOn '\n' = ls ++ [[]] := by
    intro ls
    induction ls with
    | nil => exact fun _ => rfl
    | cons l ls ih =>
        intro h
        have hl : ∀ c ∈ l, (c == '\n') = false := by
          intro c hc
          rw [beq_eq_false_iff_ne]
          rintro rfl
          exact h l List.mem_cons_self hc
        have hrest := ih fun x hx => h x (List.mem_cons_of_mem l hx)
        rw [List.splitOn_eq_splitOnP] at hrest ⊢
        rw [List.flatMap_cons, List.append_assoc, List.singleton_append,
          List.splitOnP_append_cons_of_forall_mem hl _ (beq_self_eq_true _), hrest,
          List.cons_append]
  have hstrip : ls.map stripCarriageReturn = ls := by
    refine (List.map_congr_left fun l hl => ?_).trans (List.map_id ls)
    rw [stripCarriageReturn, if_neg (hreturn l hl)]
    rfl
  rw [lines, hsplit hfeed]
  simp only [List.dropLast_concat, List.getLastD_concat, List.isEmpty_nil, if_true, hstrip,
    List.append_nil]

theorem mem_of_mem_trimEndMatches {c d : Char} {s : Str} (h : d ∈ trimEndMatches c s) : d ∈ s :=
  (List.rdropWhile_prefix _ _).subset h

theorem mem_trimEndMatches {c d : Char} {s : Str} (h : d ∈ s) (hne : d ≠ c) :
    d ∈ trimEndMatches c s := by
  have hsplit : d ∈ s.rdropWhile (· = c) ++ s.rtakeWhile (· = c) := by
    rw [List.rdropWhile_append_rtakeWhile]
    exact h
  cases List.mem_append.mp hsplit with
  | inl hkept => exact hkept
  | inr hlost =>
      have hd := List.mem_rtakeWhile_imp hlost
      exact absurd (of_decide_eq_true hd) hne

/-! ## Lowercase -/

/-- The Unicode tables behind `str::to_lowercase`. -/
structure CaseTable where
  lower : Char → Str
  /-- The property `Cased`. -/
  cased : Char → Bool
  /-- The property `Case_Ignorable`. -/
  caseIgnorable : Char → Bool
  lower_ne_nil : ∀ c, lower c ≠ []
  lower_ascii : ∀ c, IsAscii c → lower c = [c.toLower]
  lower_other : ∀ c, ¬IsAscii c → ∀ d ∈ lower c, IsAscii d → d.isLower = true

namespace CaseTable

variable (U : CaseTable)

/-- Skip case-ignorable characters and test whether a cased one follows. -/
def caseIgnorableThenCased (s : Str) : Bool :=
  match s.dropWhile U.caseIgnorable with
  | [] => false
  | c :: _ => U.cased c

/-- The lowercase of `Σ` between the reversed text before it and the text
after it: `ς` at the end of a word and `σ` elsewhere. -/
def mapUppercaseSigma (before after : Str) : Char :=
  if U.caseIgnorableThenCased before && !U.caseIgnorableThenCased after then 'ς' else 'σ'

def lowerAt (before : Str) (c : Char) (after : Str) : Str :=
  if c = 'Σ' then [U.mapUppercaseSigma before after] else U.lower c

/-- `to_lowercase` of a rest of a text, behind the reversed part before it. -/
def toLowercaseFrom : Str → Str → Str
  | _, [] => []
  | before, c :: rest => U.lowerAt before c rest ++ toLowercaseFrom (c :: before) rest

/-- `str::to_lowercase`. -/
def toLowercase (s : Str) : Str := U.toLowercaseFrom [] s

/-- The tables restricted to ASCII: every other character is its own
lowercase and has no case.  They agree with every Unicode version on ASCII
text. -/
def ascii : CaseTable where
  lower c := [c.toLower]
  cased c := c.isAlpha
  caseIgnorable c := c.toNat ∈ [0x27, 0x2E, 0x3A, 0x5E, 0x60]
  lower_ne_nil _ := List.cons_ne_nil _ _
  lower_ascii _ _ := rfl
  lower_other c hc d hd hascii := by
    rw [toLower_other hc, List.mem_singleton] at hd
    subst hd
    exact absurd hascii hc

variable {U}

theorem sigma_not_ascii (before after : Str) : ¬IsAscii (U.mapUppercaseSigma before after) := by
  unfold mapUppercaseSigma
  split <;> decide

theorem lowerAt_ascii {c : Char} (h : IsAscii c) (before after : Str) :
    U.lowerAt before c after = [c.toLower] := by
  have hc : c ≠ 'Σ' := by
    rintro rfl
    exact absurd h (by decide)
  rw [lowerAt, if_neg hc, U.lower_ascii c h]

/-- Characters outside ASCII contribute no ASCII character but lowercase
letters. -/
theorem lowerAt_other {c d : Char} (h : ¬IsAscii c) {before after : Str}
    (hd : d ∈ U.lowerAt before c after) (hascii : IsAscii d) : d.isLower = true := by
  unfold lowerAt at hd
  split at hd
  · rw [List.mem_singleton] at hd
    subst hd
    exact absurd hascii (sigma_not_ascii _ _)
  · exact U.lower_other c h d hd hascii

/-- An ASCII character that is no letter comes only from itself. -/
theorem mem_toLowercaseFrom {d : Char} (hascii : IsAscii d) (halpha : d.isAlpha = false) :
    ∀ {s before : Str}, d ∈ U.toLowercaseFrom before s → d ∈ s
  | [], _, h => by simp [toLowercaseFrom] at h
  | c :: rest, before, h => by
      rw [toLowercaseFrom, List.mem_append] at h
      rcases h with h | h
      · by_cases hc : IsAscii c
        · rw [lowerAt_ascii hc, List.mem_singleton] at h
          rw [h] at halpha
          rw [h, toLower_eq_self halpha]
          exact List.mem_cons_self ..
        · have hl := lowerAt_other hc h hascii
          have hletter : d.isAlpha = (d.isUpper || d.isLower) := rfl
          rw [hletter, hl, Bool.or_true] at halpha
          cases halpha
      · exact List.mem_cons_of_mem _ (mem_toLowercaseFrom hascii halpha h)

theorem lowerAt_ne_nil (before : Str) (c : Char) (after : Str) :
    U.lowerAt before c after ≠ [] := by
  unfold lowerAt
  split
  · exact List.cons_ne_nil _ _
  · exact U.lower_ne_nil c

theorem toLowercase_ne_nil {s : Str} (h : s ≠ []) : U.toLowercase s ≠ [] := by
  cases s with
  | nil => exact absurd rfl h
  | cons c rest =>
      rw [toLowercase, toLowercaseFrom]
      exact List.append_ne_nil_of_left_ne_nil (lowerAt_ne_nil _ _ _) _

/-- On ASCII text the mapping is ASCII lowercase. -/
theorem toLowercaseFrom_ascii : ∀ {s before : Str}, (∀ c ∈ s, IsAscii c) →
    U.toLowercaseFrom before s = toAsciiLowercase s
  | [], _, _ => rfl
  | c :: rest, before, h => by
      rw [toLowercaseFrom, lowerAt_ascii (h c (List.mem_cons_self ..)),
        toLowercaseFrom_ascii fun d hd => h d (List.mem_cons_of_mem _ hd)]
      rfl

theorem toLowercase_ascii {s : Str} (h : ∀ c ∈ s, IsAscii c) :
    U.toLowercase s = toAsciiLowercase s :=
  toLowercaseFrom_ascii h

/-- The end of a text has its lowercase at the end. -/
theorem exists_toLowercaseFrom_append (s t before : Str) :
    ∃ front, U.toLowercaseFrom before (s ++ t) =
      front ++ U.toLowercaseFrom (s.reverse ++ before) t := by
  induction s generalizing before with
  | nil => exact ⟨[], rfl⟩
  | cons c s ih =>
      obtain ⟨front, hfront⟩ := ih (c :: before)
      refine ⟨U.lowerAt before c (s ++ t) ++ front, ?_⟩
      rw [List.cons_append, toLowercaseFrom, hfront, List.append_assoc, List.reverse_cons,
        List.append_assoc]
      rfl

theorem length_le_toLowercaseFrom (s before : Str) :
    s.length ≤ (U.toLowercaseFrom before s).length := by
  induction s generalizing before with
  | nil => exact Nat.le_refl 0
  | cons c rest ih =>
      have hpos := List.length_pos_of_ne_nil (@lowerAt_ne_nil U before c rest)
      have hrest := ih (c :: before)
      rw [toLowercaseFrom, List.length_append, List.length_cons]
      omega

/-- The characters of a lowercase text are lowercase in any context. -/
theorem lower_of_toLowercaseFrom {s before : Str} (h : U.toLowercaseFrom before s = s) :
    ∀ c ∈ s, c ≠ 'Σ' ∧ U.lower c = [c] := by
  induction s generalizing before with
  | nil => exact fun c hc => absurd hc List.not_mem_nil
  | cons d rest ih =>
      rw [toLowercaseFrom] at h
      have hle := @length_le_toLowercaseFrom U rest (d :: before)
      have hpos := List.length_pos_of_ne_nil (@lowerAt_ne_nil U before d rest)
      have hlen := congrArg List.length h
      rw [List.length_append, List.length_cons] at hlen
      obtain ⟨x, hx⟩ := List.length_eq_one_iff.mp
        (show (U.lowerAt before d rest).length = 1 by omega)
      rw [hx, List.singleton_append] at h
      obtain ⟨rfl, hrest⟩ := List.cons.inj h
      intro c hc
      rcases List.mem_cons.mp hc with rfl | hc
      · rw [lowerAt] at hx
        split at hx
        · next heq =>
            -- the lowercase of the capital sigma is another character
            subst heq
            have hsigma := List.cons.inj hx
            exact absurd hsigma.1 (by unfold mapUppercaseSigma; split <;> decide)
        · next hne => exact ⟨hne, hx⟩
      · exact ih hrest c hc

theorem toLowercaseFrom_of_lower {s before : Str} (h : ∀ c ∈ s, c ≠ 'Σ' ∧ U.lower c = [c]) :
    U.toLowercaseFrom before s = s := by
  induction s generalizing before with
  | nil => rfl
  | cons c rest ih =>
      obtain ⟨hne, hc⟩ := h c List.mem_cons_self
      rw [toLowercaseFrom, lowerAt, if_neg hne, hc, List.singleton_append,
        ih fun d hd => h d (List.mem_cons_of_mem c hd)]

/-- A part of a lowercase text is lowercase. -/
theorem toLowercase_subset {s t : Str} (h : U.toLowercase s = s) (hsub : t ⊆ s) :
    U.toLowercase t = t :=
  toLowercaseFrom_of_lower fun c hc => lower_of_toLowercaseFrom h c (hsub hc)

theorem mem_toLowercase {d : Char} (hascii : IsAscii d) (halpha : d.isAlpha = false) {s : Str}
    (h : d ∈ U.toLowercase s) : d ∈ s :=
  mem_toLowercaseFrom hascii halpha h

end CaseTable

end DnsRelay.Lib
