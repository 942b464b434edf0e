import DnsRelay.Relay.HistoryFile

/-!
# The history over many flushes

A ledger is what the history is about.  It has all entries that were flushed and
all lines that were created for them, in order.  The live lines are the last
ones, as many as the limit allows.  An entry belongs to the live line of its
domain and creates a line if there is none.

The file shows the live lines, each with the addresses that were flushed since
it was created.  The order of the domains and their addresses are rebuilt from the
text on every flush, and `Shows` relates them to the ledger.
-/

namespace DnsRelay

open Lib History

/-! ## The ledger -/

structure HistoryLine where
  domain : Str
  /-- The position of the entry that created the line, among all entries. -/
  born : Nat
deriving DecidableEq, Repr

structure Ledger where
  entries : List HistoryEntry
  created : List HistoryLine
deriving DecidableEq, Repr

namespace Ledger

def empty : Ledger := ⟨[], []⟩

def live (linesCount : Nat) (l : Ledger) : List HistoryLine :=
  l.created.drop (l.created.length - linesCount)

/-- The addresses that were flushed for a line since it was created. -/
def flushed (l : Ledger) (line : HistoryLine) : List Str :=
  ((l.entries.drop line.born).filter fun e => e.domain = line.domain).flatMap HistoryEntry.ips

/-- One entry.  It creates a line unless its domain has one from `start` on. -/
def record (start : Nat) (l : Ledger) (e : HistoryEntry) : Ledger where
  entries := l.entries ++ [e]
  created :=
    if e.domain ∈ (l.created.drop start).map HistoryLine.domain then l.created
    else l.created ++ [⟨e.domain, l.entries.length⟩]

def flush (linesCount : Nat) (l : Ledger) (batch : List HistoryEntry) : Ledger :=
  batch.foldl (record (l.created.length - linesCount)) l

def run (linesCount : Nat) (batches : List (List HistoryEntry)) : Ledger :=
  batches.foldl (flush linesCount) empty

/-- What the lines of a ledger are, if those from `start` on are live. -/
structure Wf (start : Nat) (l : Ledger) : Prop where
  born : ∀ line ∈ l.created, (l.entries[line.born]?).map HistoryEntry.domain = some line.domain
  increasing : l.created.Pairwise fun a b => a.born < b.born
  distinct : ((l.created.drop start).map HistoryLine.domain).Nodup

section Record

variable {start : Nat} {l : Ledger} {e : HistoryEntry} {line : HistoryLine}

theorem Wf.born_lt (h : l.Wf start) (hline : line ∈ l.created) : line.born < l.entries.length := by
  obtain ⟨e, he, -⟩ := Option.map_eq_some_iff.mp (h.born line hline)
  exact (List.getElem?_eq_some_iff.mp he).1

theorem created_prefix_record (start : Nat) (l : Ledger) (e : HistoryEntry) :
    l.created <+: (l.record start e).created := by
  rw [record]
  split
  · exact List.prefix_refl _
  · exact List.prefix_append _ _

theorem Wf.record (h : l.Wf start) (hstart : start ≤ l.created.length) (e : HistoryEntry) :
    (l.record start e).Wf start := by
  have hborn : ∀ line ∈ l.created,
      ((l.entries ++ [e])[line.born]?).map HistoryEntry.domain = some line.domain := by
    intro line hline
    rw [List.getElem?_append_left (h.born_lt hline)]
    exact h.born line hline
  rw [Ledger.record]
  split
  · exact ⟨hborn, h.increasing, h.distinct⟩
  · next hnew =>
      refine ⟨?_, ?_, ?_⟩
      · intro line hline
        cases List.mem_append.mp hline with
        | inl hline => exact hborn line hline
        | inr hline =>
            rw [List.mem_singleton.mp hline]
            simp
      · refine List.pairwise_append.mpr ⟨h.increasing, List.pairwise_singleton _ _, ?_⟩
        intro a ha b hb
        rw [List.mem_singleton.mp hb]
        exact h.born_lt ha
      · simp only
        rw [List.drop_append_of_le_length hstart, List.map_append, List.nodup_append]
        refine ⟨h.distinct, List.pairwise_singleton _ _, ?_⟩
        rintro _ ha _ hb rfl
        rw [List.map_singleton, List.mem_singleton] at hb
        rw [hb] at ha
        exact hnew ha

/-- An entry adds its addresses to the lines of its domain. -/
theorem flushed_record (hborn : line.born ≤ l.entries.length) :
    (l.record start e).flushed line =
      l.flushed line ++ if e.domain = line.domain then e.ips else [] := by
  rw [flushed, record, List.drop_append_of_le_length hborn, List.filter_append,
    List.flatMap_append, ← flushed]
  split
  · next h => simp [h]
  · next h => simp [h]

end Record

end Ledger

/-! ## Addresses without repetition -/

section Dups

variable {α : Type} [BEq α] [LawfulBEq α] {l : List α} {a : α}

theorem eraseDups_concat_mem (h : a ∈ l) : (l ++ [a]).eraseDups = l.eraseDups := by
  rw [List.eraseDups_append]
  simp [List.removeAll, h]

theorem eraseDups_concat_new (h : a ∉ l) : (l ++ [a]).eraseDups = l.eraseDups ++ [a] := by
  rw [List.eraseDups_append]
  simp [List.removeAll, h, List.eraseDups_cons]

theorem nodup_eraseDups (l : List α) : l.eraseDups.Nodup := by
  induction l using List.reverseRecOn with
  | nil => simp
  | append_singleton l a ih =>
      by_cases h : a ∈ l
      · rwa [eraseDups_concat_mem h]
      · rw [eraseDups_concat_new h, List.nodup_append]
        refine ⟨ih, List.pairwise_singleton _ _, ?_⟩
        rintro _ hmem _ ha rfl
        rw [List.mem_singleton.mp ha, List.mem_eraseDups] at hmem
        exact h hmem

end Dups

/-- Adding addresses to some without repetition keeps the first of each. -/
theorem foldl_addIp_eraseDups (existing ips : List Str) :
    ips.foldl addIp existing.eraseDups = (existing ++ ips).eraseDups := by
  induction ips generalizing existing with
  | nil => simp
  | cons ip ips ih =>
      have hstep : addIp existing.eraseDups ip = (existing ++ [ip]).eraseDups := by
        by_cases h : ip ∈ existing
        · rw [addIp, if_pos (List.mem_eraseDups.mpr h), eraseDups_concat_mem h]
        · rw [addIp, if_neg (by rwa [List.mem_eraseDups]), eraseDups_concat_new h]
      rw [List.foldl_cons, hstep, ih, List.append_assoc]
      rfl

/-! ## What is in memory -/

/-- A history in memory that has some lines of a ledger. -/
structure Shows (h : History) (l : Ledger) (shown : List HistoryLine) : Prop where
  order : h.order = shown.map HistoryLine.domain
  ips : ∀ line ∈ shown, h.ips line.domain = some (l.flushed line).eraseDups
  other : ∀ domain, domain ∉ shown.map HistoryLine.domain → h.ips domain = none

section Steps

variable {h : History} {l : Ledger} {shown : List HistoryLine} {start : Nat}

theorem Shows.isSome (hshows : Shows h l shown) {domain : Str} :
    (h.ips domain).isSome = true ↔ domain ∈ shown.map HistoryLine.domain := by
  constructor
  · intro hsome
    by_contra hnot
    rw [hshows.other domain hnot] at hsome
    cases hsome
  · intro hmem
    obtain ⟨line, hline, rfl⟩ := List.mem_map.mp hmem
    rw [hshows.ips line hline]
    rfl

/-- A line with what was flushed for it, or a new line for an entry, has what is
flushed for it after the entry. -/
theorem Shows.line_addEntry (hshows : Shows h l shown) {line : HistoryLine}
    (hborn : line.born ≤ l.entries.length)
    (hline : (h.ips line.domain).getD [] = (l.flushed line).eraseDups) {e : HistoryEntry}
    (hmem : e.domain = line.domain ∨ line ∈ shown) :
    (h.addEntry e).ips line.domain = some ((l.record start e).flushed line).eraseDups := by
  rw [Ledger.flushed_record hborn]
  by_cases hdomain : e.domain = line.domain
  · rw [if_pos hdomain, ← foldl_addIp_eraseDups, ← hline, ← hdomain, addEntry_ips_self]
  · rw [if_neg hdomain, List.append_nil, addEntry_ips_other h (Ne.symm hdomain)]
    exact hshows.ips line (hmem.resolve_left hdomain)

/-- Adding an entry in memory records it in the ledger. -/
theorem Shows.addEntry (hshows : Shows h l (l.created.drop start)) (hwf : l.Wf start)
    (hstart : start ≤ l.created.length) (e : HistoryEntry) :
    Shows (h.addEntry e) (l.record start e) ((l.record start e).created.drop start) := by
  have hkept : ∀ line ∈ l.created.drop start, (h.addEntry e).ips line.domain =
      some ((l.record start e).flushed line).eraseDups := by
    intro line hline
    refine hshows.line_addEntry (Nat.le_of_lt (hwf.born_lt (List.mem_of_mem_drop hline))) ?_
      (.inr hline)
    rw [hshows.ips line hline, Option.getD_some]
  by_cases hlive : e.domain ∈ (l.created.drop start).map HistoryLine.domain
  · have hcreated : (l.record start e).created = l.created := if_pos hlive
    rw [hcreated]
    refine ⟨?_, hkept, fun domain hnot => ?_⟩
    · rw [History.addEntry, if_pos (hshows.isSome.mpr hlive)]
      exact hshows.order
    · have hne : domain ≠ e.domain := fun heq => hnot (heq ▸ hlive)
      rw [addEntry_ips_other h hne]
      exact hshows.other domain hnot
  · have hcreated : (l.record start e).created.drop start =
        l.created.drop start ++ [⟨e.domain, l.entries.length⟩] := by
      rw [← List.drop_append_of_le_length hstart]
      exact congrArg (List.drop start) (if_neg hlive)
    rw [hcreated]
    refine ⟨?_, fun line hmem => ?_, fun domain hnot => ?_⟩
    · rw [History.addEntry, if_neg (mt hshows.isSome.mp hlive), hshows.order, List.map_append]
      rfl
    · cases List.mem_append.mp hmem with
      | inl hline => exact hkept line hline
      | inr hnew =>
          rw [List.mem_singleton.mp hnew]
          refine hshows.line_addEntry (Nat.le_refl _) ?_ (.inl rfl)
          rw [hshows.other _ hlive]
          simp [Ledger.flushed]
    · rw [List.map_append, List.mem_append, not_or] at hnot
      have hne : domain ≠ e.domain := fun heq => hnot.2 (heq ▸ List.mem_singleton_self _)
      rw [addEntry_ips_other h hne]
      exact hshows.other domain hnot.1

theorem Shows.dropExcess (hshows : Shows h l shown)
    (hdistinct : (shown.map HistoryLine.domain).Nodup) (linesCount : Nat) :
    Shows (h.dropExcess linesCount) l (shown.drop (shown.length - linesCount)) := by
  have hlength : h.order.length = shown.length := by rw [hshows.order, List.length_map]
  generalize hk : shown.length - linesCount = k
  have htake : h.order.take (h.order.length - linesCount) =
      (shown.take k).map HistoryLine.domain := by
    rw [hlength, hk, hshows.order, List.map_take]
  have hsplit := hdistinct
  rw [← List.take_append_drop k shown, List.map_append, List.nodup_append] at hsplit
  refine ⟨?_, ?_, ?_⟩
  · rw [History.dropExcess, hlength, hk, hshows.order, List.map_drop]
  · intro line hline
    rw [History.dropExcess]
    simp only [htake]
    rw [if_neg fun hmem => hsplit.2.2 _ hmem _ (List.mem_map_of_mem hline) rfl]
    exact hshows.ips line (List.mem_of_mem_drop hline)
  · intro domain hnot
    rw [History.dropExcess]
    simp only [htake]
    split
    · rfl
    · next hmem =>
        refine hshows.other domain ?_
        rw [← List.take_append_drop k shown, List.map_append, List.mem_append]
        exact not_or.mpr ⟨hmem, hnot⟩

/-- Words in the ledger are words in memory. -/
theorem Shows.wf (hshows : Shows h l shown) (hshown : shown ⊆ l.created) (hwf : l.Wf start)
    (hplain : ∀ e ∈ l.entries, e.Plain) : h.Wf := by
  refine ⟨fun domain => by rw [hshows.isSome, hshows.order], fun domain ips hips => ?_⟩
  have hmem := hshows.isSome.mp (Option.isSome_iff_exists.mpr ⟨ips, hips⟩)
  obtain ⟨line, hline, rfl⟩ := List.mem_map.mp hmem
  obtain ⟨e, he, hdomain⟩ := Option.map_eq_some_iff.mp (hwf.born line (hshown hline))
  refine ⟨hdomain ▸ (hplain e (List.mem_of_getElem? he)).1, fun ip hip => ?_⟩
  obtain rfl := Option.some.inj ((hshows.ips line hline).symm.trans hips)
  rw [List.mem_eraseDups, Ledger.flushed, List.mem_flatMap] at hip
  obtain ⟨e', he', hip⟩ := hip
  exact (hplain e' (List.mem_of_mem_drop (List.mem_of_mem_filter he'))).2 ip hip

end Steps

/-! ## One flush -/

/-- The file after a flush.  An empty batch leaves it alone. -/
def flushFile (linesCount : Nat) (content : Str) (batch : List HistoryEntry) : Option Str :=
  if batch.isEmpty then some content else flushedText linesCount content batch

/-- The file after a sequence of flushes that starts without a file. -/
def flushFiles (linesCount : Nat) (batches : List (List HistoryEntry)) : Option Str :=
  batches.foldlM (flushFile linesCount) []

/-- A file that shows the live lines of a ledger. -/
structure FileShows (linesCount : Nat) (text : Str) (l : Ledger) : Prop where
  wf : l.Wf (l.created.length - linesCount)
  read : Shows (readHistory text) l (l.live linesCount)
  lines : lines text = (l.live linesCount).map fun line =>
    renderLine line.domain (l.flushed line).eraseDups

section Flush

variable {linesCount : Nat} {text : Str} {l : Ledger} {batch : List HistoryEntry}

theorem Ledger.Wf.mono {start start' : Nat} (h : l.Wf start) (hle : start ≤ start') :
    l.Wf start' := by
  refine ⟨h.born, h.increasing, h.distinct.sublist ((List.Sublist.map _) ?_)⟩
  rw [← Nat.add_sub_of_le hle, ← List.drop_drop]
  exact List.drop_sublist _ _

/-- The last lines of those that were live before are the last of all. -/
theorem Ledger.live_of_drop {n : Nat} (hgrow : n ≤ l.created.length) :
    (l.created.drop (n - linesCount)).drop
      ((l.created.drop (n - linesCount)).length - linesCount) = l.live linesCount := by
  rw [List.drop_drop, List.length_drop, Ledger.live]
  congr 1
  omega

/-- The entries of a batch, one after the other. -/
theorem Shows.foldl_addEntry {h : History} {start : Nat} (hshows : Shows h l (l.created.drop start))
    (hwf : l.Wf start) (hstart : start ≤ l.created.length) (batch : List HistoryEntry) :
    let l' := batch.foldl (Ledger.record start) l
    Shows (batch.foldl History.addEntry h) l' (l'.created.drop start) ∧ l'.Wf start ∧
      l.created.length ≤ l'.created.length ∧ l'.entries = l.entries ++ batch := by
  induction batch generalizing h l with
  | nil => simpa using ⟨hshows, hwf⟩
  | cons e batch ih =>
      have hgrow := (l.created_prefix_record start e).length_le
      obtain ⟨hshows', hwf', hgrow', hentries⟩ := ih (hshows.addEntry hwf hstart e)
        (hwf.record hstart e) (hstart.trans hgrow)
      refine ⟨hshows', hwf', hgrow.trans hgrow', ?_⟩
      rw [List.foldl_cons, hentries, Ledger.record, List.append_assoc]
      rfl

/-- A flush in memory is one in the ledger. -/
theorem FileShows.flush (h : FileShows linesCount text l) (hold : ∀ e ∈ l.entries, e.Plain)
    (hplain : ∀ e ∈ batch, e.Plain) :
    ∃ text', flushFile linesCount text batch = some text' ∧
      FileShows linesCount text' (l.flush linesCount batch) ∧
      (l.flush linesCount batch).entries = l.entries ++ batch := by
  by_cases hempty : batch = []
  · subst hempty
    exact ⟨text, rfl, h, (List.append_nil _).symm⟩
  · obtain ⟨hshows, hwf, hgrow, hentries⟩ :=
      h.read.foldl_addEntry h.wf (Nat.sub_le _ _) batch
    rw [← Ledger.flush] at hshows hwf hgrow hentries
    have hdropped := hshows.dropExcess hwf.distinct linesCount
    rw [Ledger.live_of_drop hgrow] at hdropped
    have hwf' : (l.flush linesCount batch).Wf
        ((l.flush linesCount batch).created.length - linesCount) := hwf.mono (by omega)
    have hwords := hdropped.wf (List.drop_subset _ _) hwf' (by
      rw [hentries]
      exact fun e he => (List.mem_append.mp he).elim (hold e) (hplain e))
    obtain ⟨text', htext, hlines⟩ := lines_render hwords
    refine ⟨text', ?_, ⟨hwf', ?_, ?_⟩, hentries⟩
    · rw [flushFile, if_neg (by simpa using hempty)]
      exact htext
    · rw [readHistory_of_lines hwords hlines]
      exact hdropped
    · rw [hlines, hdropped.order, List.map_map]
      refine List.map_congr_left fun line hline => ?_
      rw [Function.comp_apply, hdropped.ips line hline, Option.getD_some]

theorem fileShows_empty (linesCount : Nat) : FileShows linesCount [] .empty := by
  refine ⟨⟨?_, ?_, ?_⟩, ⟨?_, ?_, ?_⟩, ?_⟩ <;>
    simp [Ledger.empty, Ledger.live, lines, readHistory, History.empty]

/-- The file shows the ledger after every sequence of flushes. -/
theorem fileShows_run (linesCount : Nat) {batches : List (List HistoryEntry)}
    (hplain : ∀ batch ∈ batches, ∀ e ∈ batch, e.Plain) :
    ∃ text, flushFiles linesCount batches = some text ∧
      FileShows linesCount text (Ledger.run linesCount batches) ∧
      (Ledger.run linesCount batches).entries = batches.flatten := by
  induction batches using List.reverseRecOn with
  | nil => exact ⟨[], rfl, fileShows_empty linesCount, rfl⟩
  | append_singleton batches batch ih =>
      simp only [List.mem_append, List.mem_singleton] at hplain
      obtain ⟨text, htext, hshows, hentries⟩ := ih fun b hb => hplain b (.inl hb)
      have hold : ∀ e ∈ (Ledger.run linesCount batches).entries, e.Plain := by
        intro e he
        rw [hentries, List.mem_flatten] at he
        obtain ⟨b, hb, he⟩ := he
        exact hplain b (.inl hb) e he
      obtain ⟨text', hflush, hshows', hentries'⟩ := hshows.flush hold (hplain batch (.inr rfl))
      have hrun : Ledger.run linesCount (batches ++ [batch]) =
          (Ledger.run linesCount batches).flush linesCount batch := by
        rw [Ledger.run, List.foldl_append]
        rfl
      rw [hrun]
      refine ⟨text', ?_, hshows', ?_⟩
      · rw [flushFiles, List.foldlM_append, ← flushFiles, htext]
        simpa using hflush
      · rw [hentries', hentries, List.flatten_append, List.flatten_singleton]

end Flush

/-- Without a file to start with, every sequence of flushes of words succeeds.
The file then has the lines that were created last, as many as the limit allows
and in the order of their creation, no two for one domain.  Each has the
addresses that were flushed for its domain since, in the order in which they
came first. -/
theorem history_file_over_runs (linesCount : Nat) {batches : List (List HistoryEntry)}
    (hplain : ∀ batch ∈ batches, ∀ e ∈ batch, e.Plain) :
    ∃ text, flushFiles linesCount batches = some text ∧
      let ledger := Ledger.run linesCount batches
      let live := ledger.live linesCount
      ledger.entries = batches.flatten ∧
      (∀ line ∈ ledger.created,
        (ledger.entries[line.born]?).map HistoryEntry.domain = some line.domain) ∧
      (ledger.created.Pairwise fun a b => a.born < b.born) ∧
      (lines text = live.map fun line =>
        renderLine line.domain (ledger.flushed line).eraseDups) ∧
      (lines text).length ≤ linesCount ∧
      (live.map HistoryLine.domain).Nodup ∧
      ∀ line ∈ live, (ledger.flushed line).eraseDups.Nodup := by
  obtain ⟨text, htext, hshows, hentries⟩ := fileShows_run linesCount hplain
  refine ⟨text, htext, hentries, hshows.wf.born, hshows.wf.increasing, hshows.lines, ?_,
    hshows.wf.distinct, fun line _ => nodup_eraseDups _⟩
  rw [hshows.lines, List.length_map, Ledger.live, List.length_drop]
  omega

/-- Three flushes under a limit of one line.  The last one creates a second line
for the first domain. -/
theorem history_file_over_runs_evicted :
    let batches : List (List HistoryEntry) := [[⟨['a'], [['1'], ['2'], ['1']]⟩],
      [⟨['b'], [['3']]⟩], [⟨['a'], [['4']]⟩]]
    (Ledger.run 1 batches).live 1 = [⟨['a'], 2⟩] ∧
      ∃ text, flushFiles 1 batches = some text ∧
        lines text = ((Ledger.run 1 batches).live 1).map fun line =>
          renderLine line.domain ((Ledger.run 1 batches).flushed line).eraseDups := by
  intro batches
  obtain ⟨text, htext, -, -, -, hlines, -⟩ := @history_file_over_runs 1 batches (by decide)
  exact ⟨by decide, text, htext, hlines⟩

end DnsRelay
