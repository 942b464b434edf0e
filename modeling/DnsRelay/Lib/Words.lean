import DnsRelay.Lib.Text

/-!
# Words of a text

`splitWhitespace` gives the words of a text: its longest parts without
whitespace.  The lemmas say how words come from parts of a text.  Text on the
two sides of a whitespace character does not interact, so trimming changes no
word, and a text that already has two words keeps its first one whatever is
appended to it.
-/

namespace DnsRelay.Lib

/-- A joined text has the separators and the characters of its parts. -/
theorem mem_of_mem_intercalate {c : Char} {sep : Str} {parts : List Str}
    (h : c ∈ sep.intercalate parts) : c ∈ sep ∨ ∃ part ∈ parts, c ∈ part := by
  induction parts with
  | nil => exact absurd h List.not_mem_nil
  | cons first parts ih =>
      cases parts with
      | nil => exact .inr ⟨first, List.mem_cons_self, by simpa using h⟩
      | cons second parts =>
          rw [List.intercalate_cons_cons, List.append_assoc, List.mem_append, List.mem_append] at h
          rcases h with h | h | h
          · exact .inr ⟨first, List.mem_cons_self, h⟩
          · exact .inl h
          · exact (ih h).imp_right fun ⟨part, hpart, hc⟩ =>
              ⟨part, List.mem_cons_of_mem first hpart, hc⟩

/-- A text without whitespace that is not empty. -/
structure Word (w : Str) : Prop where
  ne_nil : w ≠ []
  solid : ∀ c ∈ w, isWhitespace c = false

theorem word_of_all {w : Str} (hne : w ≠ []) (h : w.all (fun c => !isWhitespace c) = true) :
    Word w := by
  refine ⟨hne, fun c hc => ?_⟩
  have hsolid := List.all_eq_true.mp h c hc
  simpa using hsolid

/-- A text of whitespace only. -/
def Blank (s : Str) : Prop := ∀ c ∈ s, isWhitespace c = true

section

variable {s t w : Str} {c : Char}

theorem splitWhitespace_append_cons (s t : Str) (h : isWhitespace c = true) :
    splitWhitespace (s ++ c :: t) = splitWhitespace s ++ splitWhitespace t := by
  rw [splitWhitespace, List.splitOnP_append_cons s t h, List.filter_append]
  rfl

theorem splitWhitespace_word (h : Word w) : splitWhitespace w = [w] := by
  have hne : w.isEmpty = false := List.isEmpty_eq_false_iff.mpr h.ne_nil
  rw [splitWhitespace, List.splitOnP_eq_singleton h.solid, List.filter_singleton, hne]
  rfl

theorem word_of_mem (h : w ∈ splitWhitespace s) : Word w := by
  obtain ⟨hpart, hne⟩ := List.mem_filter.mp h
  exact ⟨by simpa using hne, not_sep_of_mem_splitOnP hpart⟩

theorem splitWhitespace_blank_append (h : Blank w) (s : Str) :
    splitWhitespace (w ++ s) = splitWhitespace s := by
  induction w with
  | nil => rfl
  | cons c w ih =>
      obtain ⟨hc, hw⟩ := List.forall_mem_cons.mp h
      have hcons := splitWhitespace_append_cons [] (w ++ s) hc
      rw [List.nil_append] at hcons
      rw [List.cons_append, hcons, ih hw]
      rfl

theorem splitWhitespace_append_blank (s : Str) (h : Blank w) :
    splitWhitespace (s ++ w) = splitWhitespace s := by
  cases w with
  | nil => rw [List.append_nil]
  | cons c w =>
      obtain ⟨hc, hw⟩ := List.forall_mem_cons.mp h
      have hblank := splitWhitespace_blank_append hw []
      rw [List.append_nil] at hblank
      rw [splitWhitespace_append_cons s w hc, hblank]
      exact List.append_nil _

theorem splitWhitespace_trim (s : Str) : splitWhitespace (trim s) = splitWhitespace s := by
  have hright := splitWhitespace_append_blank (trim s)
    (w := (s.dropWhile isWhitespace).rtakeWhile isWhitespace)
    fun c hc => List.mem_rtakeWhile_imp hc
  have hleft := splitWhitespace_blank_append (w := s.takeWhile isWhitespace)
    (fun c hc => List.mem_takeWhile_imp hc) (s.dropWhile isWhitespace)
  rw [trim, List.rdropWhile_append_rtakeWhile] at hright
  rw [List.takeWhile_append_dropWhile] at hleft
  exact hright.symm.trans hleft.symm

/-- The last character of a trimmed text is no whitespace. -/
theorem trimEndMatches_trim (hc : isWhitespace c = true) (s : Str) :
    trimEndMatches c (trim s) = trim s := by
  rw [trimEndMatches, List.rdropWhile_eq_self_iff]
  intro hne hlast
  have hsolid := List.rdropWhile_last_not isWhitespace (s.dropWhile isWhitespace) hne
  exact hsolid ((congrArg isWhitespace (of_decide_eq_true hlast)).trans hc)

/-- No word loses a character on its left. -/
theorem Word.dropWhile_append (h : Word w) (t : Str) :
    (w ++ t).dropWhile isWhitespace = w ++ t := by
  cases w with
  | nil => exact absurd rfl h.ne_nil
  | cons c w =>
      rw [List.cons_append, List.dropWhile_cons_of_neg]
      simp [h.solid c List.mem_cons_self]

theorem Word.rdropWhile (h : Word w) : w.rdropWhile isWhitespace = w := by
  rw [List.rdropWhile_eq_self_iff]
  intro hne
  simp [h.solid _ (List.getLast_mem hne)]

theorem trim_word (h : Word w) : trim w = w := by
  have hleft := h.dropWhile_append []
  rw [List.append_nil] at hleft
  rw [trim, hleft, h.rdropWhile]

/-- A word alone on a line is left when the end of the line is trimmed. -/
theorem trim_word_concat (h : Word w) (hc : isWhitespace c = true) : trim (w ++ [c]) = w := by
  rw [trim, h.dropWhile_append, List.rdropWhile_concat_pos _ _ _ hc, h.rdropWhile]

theorem mem_of_mem_trim {s : Str} (h : c ∈ trim s) : c ∈ s :=
  (List.dropWhile_sublist isWhitespace).subset ((List.rdropWhile_prefix _ _).subset h)

theorem mem_trim {s : Str} (hmem : c ∈ s) (hc : isWhitespace c = false) : c ∈ trim s := by
  have hleft : c ∈ s.dropWhile isWhitespace := by
    rw [← @List.takeWhile_append_dropWhile _ isWhitespace s, List.mem_append] at hmem
    refine hmem.resolve_left fun hblank => ?_
    exact absurd (List.mem_takeWhile_imp hblank) (by simp [hc])
  rw [← @List.rdropWhile_append_rtakeWhile _ isWhitespace (s.dropWhile isWhitespace),
    List.mem_append] at hleft
  refine hleft.resolve_right fun hblank => ?_
  exact absurd (List.mem_rtakeWhile_imp hblank) (by simp [hc])

def firstPart (s : Str) : Str := s.takeWhile (!isWhitespace ·)

theorem firstPart_solid (s : Str) : ∀ c ∈ firstPart s, isWhitespace c = false :=
  fun c hc => by simpa using List.mem_takeWhile_imp hc

/-- Behind the first part there is nothing, or whitespace. -/
theorem firstPart_cases (s : Str) :
    s = firstPart s ∨ ∃ c rest, isWhitespace c = true ∧ s = firstPart s ++ c :: rest := by
  have hsplit := List.takeWhile_append_dropWhile (p := (!isWhitespace ·)) (l := s)
  cases hrest : s.dropWhile (!isWhitespace ·) with
  | nil =>
      rw [hrest, List.append_nil] at hsplit
      exact .inl hsplit.symm
  | cons c rest =>
      have hne : s.dropWhile (!isWhitespace ·) ≠ [] := by simp [hrest]
      have hstop := List.head_dropWhile_not (!isWhitespace ·) hne
      rw [hrest] at hsplit
      exact .inr ⟨c, rest, by simpa [hrest] using hstop, hsplit.symm⟩

/-- A word at the start of a text begins the first word. -/
theorem first_word_of_start (h : Word w) (s : Str) :
    ∃ more rest, splitWhitespace (w ++ s) = (w ++ more) :: rest := by
  have hword : Word (w ++ firstPart s) := by
    refine ⟨List.append_ne_nil_of_left_ne_nil h.ne_nil _, fun c hc => ?_⟩
    rcases List.mem_append.mp hc with hc | hc
    · exact h.solid c hc
    · exact firstPart_solid s c hc
  refine ⟨firstPart s, ?_⟩
  rcases firstPart_cases s with heq | ⟨c, rest, hc, heq⟩
  · exact ⟨[], by rw [← heq] at hword ⊢; exact splitWhitespace_word hword⟩
  · refine ⟨splitWhitespace rest, ?_⟩
    conv_lhs => rw [heq, ← List.append_assoc, splitWhitespace_append_cons _ rest hc,
      splitWhitespace_word hword]
    rfl

/-- A text with two words keeps its first one when it is continued. -/
theorem first_word_append {x y : Str} {rest : List Str} (h : splitWhitespace s = x :: y :: rest)
    (t : Str) : ∃ rest', splitWhitespace (s ++ t) = x :: rest' := by
  have hblank : Blank (s.takeWhile isWhitespace) := fun c hc => List.mem_takeWhile_imp hc
  have hs := List.takeWhile_append_dropWhile (p := isWhitespace) (l := s)
  rw [← hs, splitWhitespace_blank_append hblank] at h
  cases hd : s.dropWhile isWhitespace with
  | nil =>
      rw [hd] at h
      cases h
  | cons d s' =>
      have hne : s.dropWhile isWhitespace ≠ [] := by simp [hd]
      have hsolid := List.head_dropWhile_not isWhitespace hne
      simp only [hd, List.head_cons] at hsolid
      have hword : Word (firstPart (d :: s')) :=
        ⟨by simp [firstPart, hsolid], firstPart_solid _⟩
      rw [hd] at h hs
      rcases firstPart_cases (d :: s') with heq | ⟨c, after, hc, heq⟩
      · rw [heq, splitWhitespace_word hword] at h
        cases h
      · rw [heq, splitWhitespace_append_cons _ after hc, splitWhitespace_word hword] at h
        obtain ⟨rfl, -⟩ := List.cons.inj h
        refine ⟨splitWhitespace (after ++ t), ?_⟩
        rw [← hs, List.append_assoc, splitWhitespace_blank_append hblank]
        conv_lhs => rw [heq, List.append_assoc, List.cons_append,
          splitWhitespace_append_cons _ (after ++ t) hc, splitWhitespace_word hword]
        rfl

end

end DnsRelay.Lib
