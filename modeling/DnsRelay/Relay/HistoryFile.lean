import DnsRelay.Lib.Text

/-!
# The history file

The history has a line for every domain: the domain and its addresses, with a
space before each address.  A flush reads the file, adds a batch of entries and
writes the file again.

A line is read back by its words.  So a text is only kept if it is a word:
not empty and without white space.  `readHistory_render` says that a history of
words is read as it was written.
-/

namespace DnsRelay

open Lib

/-- `HistoryBufferEntry`: a domain and its addresses. -/
structure HistoryEntry where
  domain : Str
  ips : List Str
deriving DecidableEq, Repr

/-- What a flush has in memory, but for `seen`, which has the same addresses as sets. -/
structure History where
  order : List Str
  ips : Str → Option (List Str)

namespace History

def empty : History := ⟨[], fun _ => none⟩

/-- Read one line.  Of two lines for a domain the last one counts. -/
def addLine (h : History) (line : Str) : History :=
  match splitWhitespace line with
  | [] => h
  | domain :: ips => ⟨h.order ++ [domain], Function.update h.ips domain (some ips)⟩

def addIp (existing : List Str) (ip : Str) : List Str :=
  if ip ∈ existing then existing else existing ++ [ip]

def addEntry (h : History) (e : HistoryEntry) : History where
  order := if (h.ips e.domain).isSome then h.order else h.order ++ [e.domain]
  ips := Function.update h.ips e.domain
    (some (e.ips.foldl addIp ((h.ips e.domain).getD [])))

/-- Drop the oldest lines over the limit, with their domains. -/
def dropExcess (linesCount : Nat) (h : History) : History where
  order := h.order.drop (h.order.length - linesCount)
  ips domain :=
    if domain ∈ h.order.take (h.order.length - linesCount) then none else h.ips domain

def renderLine (domain : Str) (ips : List Str) : Str := domain ++ ips.flatMap fun ip => ' ' :: ip

/-- The lines for some domains.  A domain without addresses in memory ends the
flush with a panic. -/
def renderLines (ips : Str → Option (List Str)) : List Str → Option (List Str)
  | [] => some []
  | domain :: order =>
      match ips domain with
      | none => none
      | some l => (renderLines ips order).map (renderLine domain l :: ·)

def render (h : History) : Option Str :=
  (renderLines h.ips h.order).map fun ls => ls.flatMap (· ++ ['\n'])

end History

def readHistory (content : Str) : History := (lines content).foldl History.addLine .empty

/-- What a flush has in memory before it drops lines. -/
def mergeHistory (content : Str) (batch : List HistoryEntry) : History :=
  batch.foldl History.addEntry (readHistory content)

def flushedText (linesCount : Nat) (content : Str) (batch : List HistoryEntry) : Option Str :=
  ((mergeHistory content batch).dropExcess linesCount).render

/-- A history has the domain of an entry with all its addresses. -/
def History.Has (h : History) (e : HistoryEntry) : Prop :=
  match h.ips e.domain with
  | none => False
  | some l => ∀ ip ∈ e.ips, ip ∈ l

instance (h : History) (e : HistoryEntry) : Decidable (h.Has e) :=
  match hips : h.ips e.domain with
  | none => isFalse (by rw [History.Has, hips]; exact not_false)
  | some l => decidable_of_iff (∀ ip ∈ e.ips, ip ∈ l) (by rw [History.Has, hips])

/-- An entry is in the file. -/
def Recorded (content : Str) (e : HistoryEntry) : Prop := (readHistory content).Has e

instance (content : Str) (e : HistoryEntry) : Decidable (Recorded content e) :=
  inferInstanceAs (Decidable ((readHistory content).Has e))

/-! ## Words -/

/-- A text that is read back as one word. -/
def IsWord (w : Str) : Prop := w ≠ [] ∧ ∀ c ∈ w, isWhitespace c = false

-- a search for the second instance may end at the one that tries all characters
instance (w : Str) : Decidable (IsWord w) := @instDecidableAnd _ _ _ (List.decidableBAll _ w)

/-- An entry whose domain and addresses are words. -/
def HistoryEntry.Plain (e : HistoryEntry) : Prop := IsWord e.domain ∧ ∀ ip ∈ e.ips, IsWord ip

instance (e : HistoryEntry) : Decidable e.Plain := inferInstanceAs (Decidable (_ ∧ _))

theorem IsWord.isEmpty {w : Str} (h : IsWord w) : (!w.isEmpty) = true := by
  rw [Bool.not_eq_true', List.isEmpty_eq_false_iff]
  exact h.1

theorem splitWhitespace_append {w : Str} (h : IsWord w) (rest : Str) :
    splitWhitespace (w ++ ' ' :: rest) = w :: splitWhitespace rest := by
  rw [splitWhitespace, List.splitOnP_append_cons_of_forall_mem h.2 ' ' (by decide) rest,
    List.filter_cons, if_pos h.isEmpty]
  rfl

theorem splitWhitespace_word {w : Str} (h : IsWord w) : splitWhitespace w = [w] := by
  rw [splitWhitespace, List.splitOnP_eq_singleton h.2, List.filter_cons, if_pos h.isEmpty]
  rfl

theorem isWord_of_mem_splitWhitespace {s w : Str} (h : w ∈ splitWhitespace s) : IsWord w := by
  obtain ⟨hpart, hne⟩ := List.mem_filter.mp h
  refine ⟨?_, not_sep_of_mem_splitOnP hpart⟩
  rw [Bool.not_eq_true', List.isEmpty_eq_false_iff] at hne
  exact hne

/-- A line is read as the words it was made of. -/
theorem splitWhitespace_renderLine : ∀ {ips : List Str} {domain : Str}, IsWord domain →
    (∀ ip ∈ ips, IsWord ip) → splitWhitespace (History.renderLine domain ips) = domain :: ips
  | [], domain, hd, _ => by
      rw [History.renderLine, List.flatMap_nil, List.append_nil]
      exact splitWhitespace_word hd
  | ip :: ips, domain, hd, h => by
      have ih := splitWhitespace_renderLine (h ip List.mem_cons_self)
        fun x hx => h x (List.mem_cons_of_mem ip hx)
      rw [History.renderLine] at ih
      rw [History.renderLine, List.flatMap_cons, List.cons_append, splitWhitespace_append hd, ih]

theorem mem_renderLine {ips : List Str} {domain : Str} {c : Char} (hd : IsWord domain)
    (h : ∀ ip ∈ ips, IsWord ip) (hc : c ∈ History.renderLine domain ips) :
    isWhitespace c = false ∨ c = ' ' := by
  rcases List.mem_append.mp hc with hc | hc
  · exact .inl (hd.2 c hc)
  · obtain ⟨ip, hip, hc⟩ := List.mem_flatMap.mp hc
    rcases List.mem_cons.mp hc with rfl | hc
    · exact .inr rfl
    · exact .inl ((h ip hip).2 c hc)

/-! ## Reading what was written -/

namespace History

/-- A history that can be written and read back. -/
structure Wf (h : History) : Prop where
  listed : ∀ domain, (h.ips domain).isSome = true ↔ domain ∈ h.order
  words : ∀ domain l, h.ips domain = some l → IsWord domain ∧ ∀ ip ∈ l, IsWord ip

theorem empty_wf : empty.Wf := by
  refine ⟨fun domain => ?_, fun domain l h => ?_⟩
  · exact iff_of_false Bool.false_ne_true List.not_mem_nil
  · cases h

/-- Giving a listed or new domain its addresses. -/
theorem Wf.update {h : History} (hwf : h.Wf) {domain : Str} {l : List Str} {order : List Str}
    (horder : ∀ d, d ∈ order ↔ d ∈ h.order ∨ d = domain) (hd : IsWord domain)
    (hl : ∀ ip ∈ l, IsWord ip) : Wf ⟨order, Function.update h.ips domain (some l)⟩ := by
  refine ⟨fun d => ?_, fun d l' h' => ?_⟩
  · rw [horder, ← hwf.listed]
    by_cases heq : d = domain
    · subst heq
      simp
    · simp [heq]
  · by_cases heq : d = domain
    · subst heq
      simp only [Function.update_self, Option.some.injEq] at h'
      subst h'
      exact ⟨hd, hl⟩
    · simp only [Function.update_of_ne heq] at h'
      exact hwf.words d l' h'

theorem Wf.addLine {h : History} (hwf : h.Wf) (line : Str) : (h.addLine line).Wf := by
  rw [History.addLine]
  split
  · exact hwf
  · next domain ips heq =>
      have hword : ∀ w ∈ domain :: ips, IsWord w := by
        rw [← heq]
        exact fun w hw => isWord_of_mem_splitWhitespace hw
      refine hwf.update (fun d => ?_) (hword domain List.mem_cons_self)
        fun ip hip => hword ip (List.mem_cons_of_mem domain hip)
      rw [List.mem_append, List.mem_singleton]

theorem mem_foldl_addIp {ip : Str} : ∀ {ips existing : List Str},
    ip ∈ ips.foldl addIp existing ↔ ip ∈ existing ∨ ip ∈ ips
  | [], existing => by simp
  | x :: ips, existing => by
      rw [List.foldl_cons, mem_foldl_addIp, addIp]
      split
      · next hx =>
          constructor
          · exact fun h => h.imp_right (List.mem_cons_of_mem x)
          · rintro (h | h)
            · exact .inl h
            · rcases List.mem_cons.mp h with rfl | h
              · exact .inl hx
              · exact .inr h
      · rw [List.mem_append, List.mem_singleton, List.mem_cons, or_assoc]

@[simp] theorem addEntry_ips_self (h : History) (e : HistoryEntry) :
    (h.addEntry e).ips e.domain = some (e.ips.foldl addIp ((h.ips e.domain).getD [])) :=
  Function.update_self ..

@[simp] theorem addEntry_ips_other (h : History) {e : HistoryEntry} {domain : Str}
    (hne : domain ≠ e.domain) : (h.addEntry e).ips domain = h.ips domain :=
  Function.update_of_ne hne ..

theorem Wf.addEntry {h : History} (hwf : h.Wf) {e : HistoryEntry} (he : e.Plain) :
    (h.addEntry e).Wf := by
  refine hwf.update (fun d => ?_) he.1 fun ip hip => ?_
  · split
    · next hsome =>
        constructor
        · exact fun hd => .inl hd
        · rintro (hd | rfl)
          · exact hd
          · exact (hwf.listed _).mp hsome
    · rw [List.mem_append, List.mem_singleton]
  · rcases mem_foldl_addIp.mp hip with hip | hip
    · cases hknown : h.ips e.domain with
      | none =>
          rw [hknown] at hip
          exact absurd hip List.not_mem_nil
      | some l =>
          rw [hknown] at hip
          exact (hwf.words e.domain l hknown).2 ip hip
    · exact he.2 ip hip

/-- The lines of domains that all have addresses. -/
theorem renderLines_eq {ips : Str → Option (List Str)} : ∀ {order : List Str},
    (∀ d ∈ order, (ips d).isSome = true) →
    renderLines ips order = some (order.map fun d => renderLine d ((ips d).getD []))
  | [], _ => rfl
  | d :: order, h => by
      obtain ⟨l, hl⟩ := Option.isSome_iff_exists.mp (h d List.mem_cons_self)
      rw [renderLines, hl, List.map_cons, hl,
        renderLines_eq fun x hx => h x (List.mem_cons_of_mem d hx)]
      rfl

/-- Reading the lines of some domains gives each its addresses. -/
theorem foldl_addLine {ips : Str → Option (List Str)} : ∀ {order : List Str} {h : History},
    (∀ d ∈ order, ∃ l, ips d = some l ∧ IsWord d ∧ ∀ ip ∈ l, IsWord ip) →
    (order.map fun d => renderLine d ((ips d).getD [])).foldl addLine h =
      ⟨h.order ++ order, fun d => if d ∈ order then ips d else h.ips d⟩
  | [], h, _ => by
      simp
  | d :: order, h, hwords => by
      obtain ⟨l, hl, hd, hips⟩ := hwords d List.mem_cons_self
      have hline : h.addLine (renderLine d ((ips d).getD [])) =
          ⟨h.order ++ [d], Function.update h.ips d (some l)⟩ := by
        rw [addLine, hl, Option.getD_some, splitWhitespace_renderLine hd hips]
      rw [List.map_cons, List.foldl_cons, hline,
        foldl_addLine fun x hx => hwords x (List.mem_cons_of_mem d hx)]
      congr 1
      · rw [List.append_assoc]
        rfl
      · funext x
        show (if x ∈ order then ips x else Function.update h.ips d (some l) x) =
          if x ∈ d :: order then ips x else h.ips x
        by_cases hx : x ∈ order
        · rw [if_pos hx, if_pos (List.mem_cons_of_mem d hx)]
        · rw [if_neg hx]
          by_cases heq : x = d
          · subst heq
            rw [if_pos List.mem_cons_self, Function.update_self, hl]
          · rw [if_neg (by simp [heq, hx]), Function.update_of_ne heq]

end History

open History

theorem History.Wf.words_of_mem {h : History} (hwf : h.Wf) {d : Str} (hd : d ∈ h.order) :
    ∃ l, h.ips d = some l ∧ IsWord d ∧ ∀ ip ∈ l, IsWord ip := by
  obtain ⟨l, hl⟩ := Option.isSome_iff_exists.mp ((hwf.listed d).mpr hd)
  exact ⟨l, hl, hwf.words d l hl⟩

/-- A well-formed history is written, with a line for each domain. -/
theorem lines_render {h : History} (hwf : h.Wf) :
    ∃ text, h.render = some text ∧
      lines text = h.order.map fun d => renderLine d ((h.ips d).getD []) := by
  have hchar : ∀ line ∈ h.order.map (fun d => renderLine d ((h.ips d).getD [])), ∀ c ∈ line,
      isWhitespace c = false ∨ c = ' ' := by
    intro line hline c hc
    obtain ⟨d, hd, rfl⟩ := List.mem_map.mp hline
    obtain ⟨l, hl, hword, hips⟩ := hwf.words_of_mem hd
    rw [hl] at hc
    exact mem_renderLine hword hips hc
  refine ⟨_, by rw [render, renderLines_eq fun d hd => (hwf.listed d).mpr hd]; rfl, ?_⟩
  rw [lines_flatMap]
  · intro line hline hfeed
    rcases hchar line hline _ hfeed with h | h
    · exact absurd h (by decide)
    · exact absurd h (by decide)
  · intro line hline hreturn
    rcases hchar line hline _ (List.mem_of_getLast? hreturn) with h | h
    · exact absurd h (by decide)
    · exact absurd h (by decide)

/-- A well-formed history is read as it was written. -/
theorem readHistory_of_lines {h : History} (hwf : h.Wf) {text : Str}
    (hlines : lines text = h.order.map fun d => renderLine d ((h.ips d).getD [])) :
    readHistory text = h := by
  rw [readHistory, hlines, foldl_addLine fun d hd => hwf.words_of_mem hd]
  obtain ⟨order, ips⟩ := h
  congr 1
  funext d
  split
  · rfl
  · next hd =>
      rw [← hwf.listed d, Option.isSome_iff_ne_none, not_not] at hd
      exact hd.symm

theorem readHistory_render {h : History} (hwf : h.Wf) :
    ∃ text, h.render = some text ∧ readHistory text = h := by
  obtain ⟨text, htext, hlines⟩ := lines_render hwf
  exact ⟨text, htext, readHistory_of_lines hwf hlines⟩

theorem readHistory_wf (content : Str) : (readHistory content).Wf := by
  have hfold : ∀ {ls : List Str} {h : History}, h.Wf → (ls.foldl addLine h).Wf := by
    intro ls
    induction ls with
    | nil => exact fun hwf => hwf
    | cons line ls ih => exact fun hwf => ih (hwf.addLine line)
  exact hfold empty_wf

/-! ## What a flush keeps and adds -/

theorem History.has_addEntry (h : History) (e : HistoryEntry) : (h.addEntry e).Has e := by
  simp only [Has, addEntry_ips_self]
  exact fun ip hip => mem_foldl_addIp.mpr (.inr hip)

theorem History.Has.addEntry {h : History} {e : HistoryEntry} (hhas : h.Has e)
    (e' : HistoryEntry) : (h.addEntry e').Has e := by
  rw [Has] at hhas
  by_cases heq : e.domain = e'.domain
  · simp only [Has, heq, addEntry_ips_self]
    rw [heq] at hhas
    cases hknown : h.ips e'.domain with
    | none =>
        rw [hknown] at hhas
        exact hhas.elim
    | some l =>
        rw [hknown] at hhas
        exact fun ip hip => mem_foldl_addIp.mpr (.inl (hhas ip hip))
  · simp only [Has, addEntry_ips_other h heq]
    exact hhas

theorem foldl_addEntry_spec : ∀ {batch : List HistoryEntry} {h : History}, h.Wf →
    (∀ e ∈ batch, e.Plain) → (batch.foldl addEntry h).Wf ∧
      (∀ e ∈ batch, (batch.foldl addEntry h).Has e) ∧
      ∀ e, h.Has e → (batch.foldl addEntry h).Has e
  | [], h, hwf, _ => ⟨hwf, fun e he => absurd he List.not_mem_nil, fun e hhas => hhas⟩
  | e :: batch, h, hwf, hplain => by
      obtain ⟨hwf', hbatch, hkept⟩ := foldl_addEntry_spec
        (hwf.addEntry (hplain e List.mem_cons_self))
        fun x hx => hplain x (List.mem_cons_of_mem e hx)
      rw [List.foldl_cons]
      refine ⟨hwf', fun x hx => ?_, fun x hx => hkept x (hx.addEntry e)⟩
      rcases List.mem_cons.mp hx with rfl | hx
      · exact hkept x (h.has_addEntry x)
      · exact hbatch x hx

theorem History.dropExcess_of_le {h : History} {linesCount : Nat}
    (hfit : h.order.length ≤ linesCount) : h.dropExcess linesCount = h := by
  obtain ⟨order, ips⟩ := h
  rw [dropExcess, Nat.sub_eq_zero_of_le hfit, List.drop_zero, List.take_zero]
  rfl

/-- A flush of words under the line limit writes a text with the batch and with
everything that the text it has read had. -/
theorem flushedText_spec {content : Str} {batch : List HistoryEntry} {linesCount : Nat}
    (hplain : ∀ e ∈ batch, e.Plain)
    (hfit : (mergeHistory content batch).order.length ≤ linesCount) :
    ∃ text, flushedText linesCount content batch = some text ∧
      (∀ e ∈ batch, Recorded text e) ∧ ∀ e, Recorded content e → Recorded text e := by
  obtain ⟨hwf, hbatch, hkept⟩ := foldl_addEntry_spec (readHistory_wf content) hplain
  obtain ⟨text, htext, hread⟩ := readHistory_render hwf
  refine ⟨text, ?_, ?_, ?_⟩
  · rw [flushedText, dropExcess_of_le hfit]
    exact htext
  · intro e he
    rw [Recorded, hread]
    exact hbatch e he
  · intro e he
    rw [Recorded, hread]
    exact hkept e he

-- two lines that start with one word are read as one domain, and the first one is lost
example : (readHistory "a b\na c\n".toList).ips ['a'] = some [['c']] := by decide

end DnsRelay
