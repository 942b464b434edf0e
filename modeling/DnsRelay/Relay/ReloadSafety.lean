import DnsRelay.Relay.HotReload
import Mathlib.Logic.Relation

/-!
# When a reload misses an edit

A tick that finds no change should leave a trie that fits the disk.  It does so
unless an edit falls between a look at a file's time and a use of the file in
the wrong order.  The list files are read before their times are noted, and so
is the first configuration.  An edit in between is noted as if it had been
read.

`ConfigExposed` and `ListExposed` say when a file must not be edited.  `Inv`
says what the watcher knows about each file: while the file has the noted time,
its content is what the trie was built from.  The build is a fold over the
entries, and an edit of a file that no past entry refers to does not change it.

A tick that nobody disturbs at all ends with the trie of the disk
(`tick_fits_disk`).
-/

namespace DnsRelay

open Lib

/-! ## What the trie depends on -/

section Build

variable {U : CaseTable} {files files' : Str → Option Str}

/-- An entry looks at its own file only. -/
theorem addRuleEntry_congr {entry : RuleEntry}
    (h : ∀ path, entry.file = some path → files path = files' path)
    (acc : DomainTrie × List Str) :
    addRuleEntry U files acc entry = addRuleEntry U files' acc entry := by
  cases entry with
  | drop entry =>
      simp only [addRuleEntry, DomainTrie.addDropEntry]
      by_cases hfile : isFileReference (trim entry)
      · simp only [readListFile, h (trim entry) (if_pos hfile)]
      · simp only [hfile]
        rfl
  | redirect entry =>
      simp only [addRuleEntry, DomainTrie.addRedirectEntry]
      by_cases hfile : isFileReference (trim entry.1)
      · simp only [readListFile, h (trim entry.1) (if_pos hfile)]
      · simp only [hfile]
        rfl

theorem foldl_addRuleEntry_congr : ∀ {entries : List RuleEntry},
    (∀ path ∈ entries.filterMap RuleEntry.file, files path = files' path) →
      ∀ acc : DomainTrie × List Str,
        entries.foldl (addRuleEntry U files) acc = entries.foldl (addRuleEntry U files') acc := by
  intro entries
  induction entries with
  | nil => exact fun _ _ => rfl
  | cons entry entries ih =>
      intro h acc
      have hentry : ∀ path, entry.file = some path → files path = files' path :=
        fun path hp => h path (List.mem_filterMap.mpr ⟨entry, List.mem_cons_self .., hp⟩)
      have hrest : ∀ path ∈ entries.filterMap RuleEntry.file, files path = files' path := by
        intro path hp
        obtain ⟨e, he, hfile⟩ := List.mem_filterMap.mp hp
        exact h path (List.mem_filterMap.mpr ⟨e, List.mem_cons_of_mem _ he, hfile⟩)
      rw [List.foldl_cons, List.foldl_cons, addRuleEntry_congr hentry, ih hrest]

/-- The two loops of the build are one loop over all entries. -/
theorem buildTrie_eq_foldl (conf : Conf) :
    conf.buildTrie U files = (conf.ruleEntries.foldl (addRuleEntry U files) (.new, [])).1 := by
  have hredirect : ∀ (entries : List (Str × Str)) (acc : DomainTrie × List Str),
      ((entries.map RuleEntry.redirect).foldl (addRuleEntry U files) acc).1 =
        entries.foldl (DomainTrie.addRedirectEntry U files) acc.1 := by
    intro entries
    induction entries with
    | nil => exact fun _ => rfl
    | cons entry entries ih =>
        intro acc
        rw [List.map_cons, List.foldl_cons, List.foldl_cons, ih]
        rfl
  rw [Conf.ruleEntries, List.foldl_append, hredirect, List.foldl_map]
  rfl

/-- The trie depends on the referenced files alone. -/
theorem buildTrie_congr {conf : Conf}
    (h : ∀ path ∈ conf.referencedRuleFiles, files path = files' path) :
    conf.buildTrie U files = conf.buildTrie U files' := by
  rw [buildTrie_eq_foldl, buildTrie_eq_foldl, foldl_addRuleEntry_congr]
  exact fun path hp => h path (List.mem_dedup.mpr hp)

end Build

namespace RuleWatcher

/-! ## Edits at the wrong time -/

/-- What a tick has seen so far is what was noted. -/
def UnchangedSoFar (s : RuleWatcher) (mtime : Nat) (stamps : Stamps) : Prop :=
  some mtime = s.lastMtime ∧ ∀ stamp ∈ stamps, stamp ∈ s.listMtimes

/-- The configuration file was read and its time not noted, or it was looked
at by a tick that has seen no change. -/
def ConfigExposed (s : RuleWatcher) : Prop :=
  match s.phase with
  | .build none _ _ _ _ | .stat _ => True
  | .compare mtime stamps _ => s.UnchangedSoFar mtime stamps
  | .load | .build (some _) _ _ _ _ | .record _ _ _ | .idle | .reload _ _ => False

/-- The same for a list file. -/
def ListExposed (s : RuleWatcher) (path : Str) : Prop :=
  match s.phase with
  | .build _ _ past _ _ => path ∈ past.filterMap RuleEntry.file
  | .stat conf => path ∈ conf.referencedRuleFiles
  | .record _ _ rest => path ∈ rest
  | .compare mtime stamps _ => s.UnchangedSoFar mtime stamps ∧ path ∈ stamps.map Prod.fst
  | .load | .idle | .reload _ _ => False

/-- No edit hits an exposed file, and an edited file gets a time that it did
not have before. -/
def Undisturbed (s : RuleWatcher) : Act → Prop
  | .editConfig _ mtime => mtime ∉ s.configPast ∧ ¬s.ConfigExposed
  | .editList path file => file.mtime ∉ s.listPast path ∧ ¬s.ListExposed path
  | .removeList path => ¬s.ListExposed path
  | .load | .addEntry | .built _ | .stat _ _ | .statList | .listed | .tick _ _ | .fail => True

/-! ## What the watcher knows -/

/-- The configuration file has had this time, and while it has it, it holds
this configuration. -/
def ConfigKnown (s : RuleWatcher) (mtime : Nat) (conf : Conf) : Prop :=
  mtime ∈ s.configPast ∧ (s.disk.configMtime = mtime → s.disk.config = .ok conf)

/-- While a list file has the noted time, it holds what was seen. -/
def FileKnown (s : RuleWatcher) (seen : Str → Option Str) (stamp : Str × Option Nat) : Prop :=
  match stamp.2 with
  | none => seen stamp.1 = none
  | some mtime => mtime ∈ s.listPast stamp.1 ∧
      ∀ content, s.disk.lists stamp.1 = some ⟨content, mtime⟩ → seen stamp.1 = some content

/-- The time of every referenced file is noted or will be. -/
def Listed (conf : Conf) (stamps : Stamps) (rest : List Str) : Prop :=
  ∀ path ∈ conf.referencedRuleFiles, path ∈ rest ∨ ∃ mtime, (path, mtime) ∈ stamps

/-- The trie was built from what was seen.  The files whose times are not
noted yet are still as they were seen. -/
def Noted (U : CaseTable) (s : RuleWatcher) (conf : Conf) (stamps : Stamps) (rest : List Str) :
    Prop :=
  (∀ mtime, s.lastMtime = some mtime → s.ConfigKnown mtime conf) ∧
    Listed conf stamps rest ∧
    ∃ seen, s.trie = conf.buildTrie U seen ∧
      (∀ path ∈ rest, seen path = s.disk.contents path) ∧
      ∀ stamp ∈ stamps, s.FileKnown seen stamp

/-- Between two reloads. -/
def Settled (U : CaseTable) (s : RuleWatcher) : Prop :=
  ∃ conf, s.conf = some conf ∧ s.Noted U conf s.listMtimes []

/-- What the watcher has to show for its phase. -/
def PhaseOk (U : CaseTable) (s : RuleWatcher) : WatchPhase → Prop
  | .load => True
  | .build mtime conf past rest acc =>
      past ++ rest = conf.ruleEntries ∧
        acc = past.foldl (addRuleEntry U s.disk.contents) (.new, []) ∧
        match mtime with
        | none => s.disk.config = .ok conf
        | some mtime => s.Settled U ∧ s.ConfigKnown mtime conf
  | .stat conf => s.disk.config = .ok conf ∧ s.trie = conf.buildTrie U s.disk.contents
  | .record conf stamps rest => s.Noted U conf stamps rest
  | .idle => s.Settled U
  | .compare mtime stamps rest =>
      s.Settled U ∧ mtime ∈ s.configPast ∧
        (s.UnchangedSoFar mtime stamps → s.disk.configMtime = mtime ∧
          ∀ stamp ∈ stamps, s.disk.mtime stamp.1 = stamp.2) ∧
        ∀ conf, s.conf = some conf → Listed conf stamps rest
  | .reload mtime changed =>
      s.Settled U ∧ mtime ∈ s.configPast ∧ (changed = false → s.lastMtime = some mtime)

/-- What holds in every run without disturbance. -/
structure Inv (U : CaseTable) (s : RuleWatcher) : Prop where
  configPast : s.disk.configMtime ∈ s.configPast
  listPast : ∀ path file, s.disk.lists path = some file → file.mtime ∈ s.listPast path
  phase : s.PhaseOk U s.phase

variable {U : CaseTable} {s : RuleWatcher}

/-! ## Edits -/

theorem ConfigKnown.setConfig {mtime mtime' : Nat} {conf : Conf} {config : Except Error Conf}
    (h : s.ConfigKnown mtime conf) (hfresh : mtime' ∉ s.configPast) :
    (s.setConfig config mtime').ConfigKnown mtime conf := by
  refine ⟨List.mem_cons_of_mem _ h.1, fun heq => ?_⟩
  have hnew : mtime' = mtime := heq
  exact absurd (hnew ▸ h.1) hfresh

theorem Noted.setConfig {mtime : Nat} {conf : Conf} {config : Except Error Conf}
    {stamps : Stamps} {rest : List Str} (h : s.Noted U conf stamps rest)
    (hfresh : mtime ∉ s.configPast) : (s.setConfig config mtime).Noted U conf stamps rest :=
  ⟨fun m hm => (h.1 m hm).setConfig hfresh, h.2⟩

theorem Settled.setConfig {mtime : Nat} {config : Except Error Conf} (h : s.Settled U)
    (hfresh : mtime ∉ s.configPast) : (s.setConfig config mtime).Settled U := by
  obtain ⟨conf, hconf, hnoted⟩ := h
  exact ⟨conf, hconf, hnoted.setConfig hfresh⟩

theorem inv_setConfig (hi : Inv U s) {config : Except Error Conf} {mtime : Nat}
    (hfresh : mtime ∉ s.configPast) (hsafe : ¬s.ConfigExposed) :
    Inv U (s.setConfig config mtime) := by
  refine ⟨List.mem_cons_self .., hi.listPast, ?_⟩
  have hphase := hi.phase
  show (s.setConfig config mtime).PhaseOk U s.phase
  simp only [ConfigExposed] at hsafe
  cases hp : s.phase with
  | load => trivial
  | build why conf past rest acc =>
      rw [hp] at hphase hsafe
      cases why with
      | none => exact absurd trivial hsafe
      | some m =>
          obtain ⟨hentries, hacc, hsettled, hknown⟩ := hphase
          exact ⟨hentries, hacc, hsettled.setConfig hfresh, hknown.setConfig hfresh⟩
  | stat conf =>
      rw [hp] at hsafe
      exact absurd trivial hsafe
  | record conf stamps rest =>
      rw [hp] at hphase
      exact Noted.setConfig hphase hfresh
  | idle =>
      rw [hp] at hphase
      exact Settled.setConfig hphase hfresh
  | compare m stamps rest =>
      rw [hp] at hphase hsafe
      obtain ⟨hsettled, hpast, -, hlisted⟩ := hphase
      exact ⟨hsettled.setConfig hfresh, List.mem_cons_of_mem _ hpast,
        fun hsame => absurd hsame hsafe, hlisted⟩
  | reload m changed =>
      rw [hp] at hphase
      obtain ⟨hsettled, hpast, hchanged⟩ := hphase
      exact ⟨hsettled.setConfig hfresh, List.mem_cons_of_mem _ hpast, hchanged⟩

theorem FileKnown.setList {seen : Str → Option Str} {stamp : Str × Option Nat} {path : Str}
    {file : Option ListFile} (h : s.FileKnown seen stamp)
    (hfresh : ∀ f, file = some f → f.mtime ∉ s.listPast path) :
    (s.setList path file).FileKnown seen stamp := by
  obtain ⟨path', mtime⟩ := stamp
  cases mtime with
  | none => exact h
  | some mtime =>
      obtain ⟨hpast, hcontent⟩ := h
      show mtime ∈ Function.update s.listPast path _ path' ∧
        ∀ content, Function.update s.disk.lists path file path' = some ⟨content, mtime⟩ →
          seen path' = some content
      by_cases hpath : path' = path
      · subst hpath
        rw [Function.update_self, Function.update_self]
        refine ⟨List.mem_append_right _ hpast, fun content hfile => ?_⟩
        exact absurd hpast (hfresh _ hfile)
      · rw [Function.update_of_ne hpath, Function.update_of_ne hpath]
        exact ⟨hpast, hcontent⟩

theorem contents_setList {path path' : Str} (file : Option ListFile) (h : path' ≠ path) :
    (s.setList path file).disk.contents path' = s.disk.contents path' := by
  simp only [Disk.contents, setList, Function.update_of_ne h]

theorem mtime_setList {path path' : Str} (file : Option ListFile) (h : path' ≠ path) :
    (s.setList path file).disk.mtime path' = s.disk.mtime path' := by
  simp only [Disk.mtime, setList, Function.update_of_ne h]

theorem Noted.setList {conf : Conf} {stamps : Stamps} {rest : List Str} {path : Str}
    {file : Option ListFile} (h : s.Noted U conf stamps rest)
    (hfresh : ∀ f, file = some f → f.mtime ∉ s.listPast path) (hrest : path ∉ rest) :
    (s.setList path file).Noted U conf stamps rest := by
  obtain ⟨hconfig, hlisted, seen, htrie, hseen, hknown⟩ := h
  refine ⟨hconfig, hlisted, seen, htrie, fun path' hp => ?_, fun stamp hs => ?_⟩
  · rw [contents_setList file (ne_of_mem_of_not_mem hp hrest)]
    exact hseen path' hp
  · exact (hknown stamp hs).setList hfresh

theorem Settled.setList {path : Str} {file : Option ListFile} (h : s.Settled U)
    (hfresh : ∀ f, file = some f → f.mtime ∉ s.listPast path) :
    (s.setList path file).Settled U := by
  obtain ⟨conf, hconf, hnoted⟩ := h
  exact ⟨conf, hconf, hnoted.setList hfresh List.not_mem_nil⟩

theorem listPast_setList (hi : Inv U s) (path : Str) (file : Option ListFile) :
    ∀ path' f, (s.setList path file).disk.lists path' = some f →
      f.mtime ∈ (s.setList path file).listPast path' := by
  intro path' f hf
  simp only [RuleWatcher.setList] at hf ⊢
  by_cases hpath : path' = path
  · subst hpath
    rw [Function.update_self] at hf ⊢
    subst hf
    exact List.mem_cons_self ..
  · rw [Function.update_of_ne hpath] at hf ⊢
    exact hi.listPast path' f hf

/-- An edit or a removal of a list file. -/
theorem inv_setList (hi : Inv U s) {path : Str} {file : Option ListFile}
    (hfresh : ∀ f, file = some f → f.mtime ∉ s.listPast path) (hsafe : ¬s.ListExposed path) :
    Inv U (s.setList path file) := by
  refine ⟨hi.configPast, listPast_setList hi path file, ?_⟩
  have hphase := hi.phase
  show (s.setList path file).PhaseOk U s.phase
  simp only [ListExposed] at hsafe
  cases hp : s.phase with
  | load => trivial
  | build why conf past rest acc =>
      rw [hp] at hphase hsafe
      obtain ⟨hentries, hacc, hwhy⟩ := hphase
      -- no past entry refers to the file
      have hsame : ∀ path' ∈ past.filterMap RuleEntry.file,
          s.disk.contents path' = (s.setList path file).disk.contents path' :=
        fun path' hp' => (contents_setList file (ne_of_mem_of_not_mem hp' hsafe)).symm
      refine ⟨hentries, hacc.trans (foldl_addRuleEntry_congr hsame _), ?_⟩
      cases why with
      | none => exact hwhy
      | some m => exact ⟨hwhy.1.setList hfresh, hwhy.2⟩
  | stat conf =>
      rw [hp] at hphase hsafe
      refine ⟨hphase.1, hphase.2.trans (buildTrie_congr fun path' hp' => ?_)⟩
      exact (contents_setList file (ne_of_mem_of_not_mem hp' hsafe)).symm
  | record conf stamps rest =>
      rw [hp] at hphase hsafe
      exact Noted.setList hphase hfresh hsafe
  | idle =>
      rw [hp] at hphase
      exact Settled.setList hphase hfresh
  | compare m stamps rest =>
      rw [hp] at hphase hsafe
      obtain ⟨hsettled, hpast, hsame, hlisted⟩ := hphase
      refine ⟨hsettled.setList hfresh, hpast,
        fun hso => ⟨(hsame hso).1, fun stamp hs => ?_⟩, hlisted⟩
      have hne : stamp.1 ≠ path := by
        rintro rfl
        exact hsafe ⟨hso, List.mem_map.mpr ⟨stamp, hs, rfl⟩⟩
      rw [mtime_setList file hne]
      exact (hsame hso).2 stamp hs
  | reload m changed =>
      rw [hp] at hphase
      exact ⟨hphase.1.setList hfresh, hphase.2⟩

/-! ## The watcher's own steps -/

/-- A file is known from its time and its content. -/
theorem fileKnown_now (hi : Inv U s) {seen : Str → Option Str} {path : Str}
    (hseen : seen path = s.disk.contents path) : s.FileKnown seen (path, s.disk.mtime path) := by
  unfold FileKnown
  simp only [Disk.mtime, Disk.contents] at hseen ⊢
  cases hfile : s.disk.lists path with
  | none => exact hseen.trans (by rw [hfile]; rfl)
  | some file =>
      rw [hfile] at hseen
      refine ⟨hi.listPast path file hfile, fun content hcontent => ?_⟩
      have hsame : file.content = content := congrArg ListFile.content (Option.some.inj hcontent)
      rw [hseen, ← hsame]
      rfl

/-- A trie that was just built, with the time of the configuration known. -/
theorem noted_of_built {conf : Conf} {order : List Str}
    (hlast : ∀ mtime, s.lastMtime = some mtime → s.ConfigKnown mtime conf)
    (htrie : s.trie = conf.buildTrie U s.disk.contents)
    (hall : order.Perm conf.referencedRuleFiles) : s.Noted U conf [] order := by
  refine ⟨hlast, fun path hp => .inl (hall.mem_iff.mpr hp), s.disk.contents, htrie,
    fun _ _ => rfl, fun stamp hs => ?_⟩
  cases hs

theorem Listed.next {conf : Conf} {stamps : Stamps} {rest : List Str} {path : Str}
    {mtime : Option Nat} (h : Listed conf stamps (path :: rest)) :
    Listed conf (stamps ++ [(path, mtime)]) rest := by
  intro path' hp
  cases h path' hp with
  | inl hmem =>
      cases hmem with
      | head => exact .inr ⟨mtime, List.mem_append_right _ (List.mem_cons_self ..)⟩
      | tail _ hrest => exact .inl hrest
  | inr hnoted =>
      obtain ⟨m, hm⟩ := hnoted
      exact .inr ⟨m, List.mem_append_left _ hm⟩

/-- The time of one more file is noted. -/
theorem Noted.next (hi : Inv U s) {conf : Conf} {stamps : Stamps} {rest : List Str} {path : Str}
    (h : s.Noted U conf stamps (path :: rest)) :
    s.Noted U conf (stamps ++ [(path, s.disk.mtime path)]) rest := by
  obtain ⟨hconfig, hlisted, seen, htrie, hseen, hknown⟩ := h
  refine ⟨hconfig, hlisted.next, seen, htrie,
    fun path' hp => hseen path' (List.mem_cons_of_mem _ hp), fun stamp hs => ?_⟩
  cases List.mem_append.mp hs with
  | inl hold => exact hknown stamp hold
  | inr hnew =>
      rw [List.mem_singleton.mp hnew]
      exact fileKnown_now hi (hseen path (List.mem_cons_self ..))

theorem mem_sort {stamps : Stamps} {stamp : Str × Option Nat} :
    stamp ∈ stamps.sort ↔ stamp ∈ stamps :=
  (List.mergeSort_perm stamps _).mem_iff

theorem Noted.sort {conf : Conf} {stamps : Stamps} (h : s.Noted U conf stamps []) :
    s.Noted U conf stamps.sort [] := by
  obtain ⟨hconfig, hlisted, seen, htrie, hseen, hknown⟩ := h
  refine ⟨hconfig, fun path hp => ?_, seen, htrie, hseen,
    fun stamp hs => hknown stamp (mem_sort.mp hs)⟩
  cases hlisted path hp with
  | inl hrest => exact .inl hrest
  | inr hnoted =>
      obtain ⟨m, hm⟩ := hnoted
      exact .inr ⟨m, mem_sort.mpr hm⟩

/-- What a tick has seen is what was noted, so the trie fits the disk. -/
theorem fits_of_unchanged {conf : Conf} {mtime : Nat} {stamps : Stamps}
    (hnoted : s.Noted U conf s.listMtimes []) (hso : s.UnchangedSoFar mtime stamps)
    (hconfig : s.disk.configMtime = mtime)
    (hstamps : ∀ stamp ∈ stamps, s.disk.mtime stamp.1 = stamp.2)
    (hlisted : Listed conf stamps []) :
    s.disk.config = .ok conf ∧ s.trie = conf.buildTrie U s.disk.contents := by
  obtain ⟨hknown, -, seen, htrie, -, hfiles⟩ := hnoted
  refine ⟨(hknown mtime hso.1.symm).2 hconfig, ?_⟩
  rw [htrie]
  refine buildTrie_congr fun path hp => ?_
  obtain ⟨m, hm⟩ := (hlisted path hp).resolve_left List.not_mem_nil
  have hfile := hfiles (path, m) (hso.2 _ hm)
  have hm' : s.disk.mtime path = m := hstamps (path, m) hm
  subst hm'
  unfold FileKnown at hfile
  simp only [Disk.mtime, Disk.contents] at hfile ⊢
  cases hdisk : s.disk.lists path with
  | none =>
      rw [hdisk] at hfile
      exact hfile
  | some file =>
      rw [hdisk] at hfile
      exact hfile.2 file.content rfl

/-- A step of the watcher itself leaves the files alone. -/
theorem Inv.ofPhase {s' : RuleWatcher} (hi : Inv U s) (hdisk : s'.disk = s.disk)
    (hconfig : s'.configPast = s.configPast) (hlists : s'.listPast = s.listPast)
    (hphase : s'.PhaseOk U s'.phase) : Inv U s' := by
  refine ⟨?_, ?_, hphase⟩
  · rw [hdisk, hconfig]
    exact hi.configPast
  · rw [hdisk, hlists]
    exact hi.listPast

/-- The build goes on by one entry. -/
theorem phaseOk_addEntry {mtime : Option Nat} {conf : Conf} {past rest : List RuleEntry}
    {entry : RuleEntry} {acc : DomainTrie × List Str}
    (h : s.PhaseOk U (.build mtime conf past (entry :: rest) acc)) :
    s.PhaseOk U (.build mtime conf (past ++ [entry]) rest
      (addRuleEntry U s.disk.contents acc entry)) := by
  obtain ⟨hentries, hacc, hwhy⟩ := h
  refine ⟨?_, ?_, hwhy⟩
  · rw [List.append_assoc]
    exact hentries
  · rw [List.foldl_append, ← hacc]
    rfl

theorem trie_of_phaseOk {mtime : Option Nat} {conf : Conf} {past : List RuleEntry}
    {acc : DomainTrie × List Str} (h : s.PhaseOk U (.build mtime conf past [] acc)) :
    acc.1 = conf.buildTrie U s.disk.contents := by
  obtain ⟨hentries, hacc, -⟩ := h
  rw [List.append_nil] at hentries
  rw [buildTrie_eq_foldl, hacc, hentries]

/-- A tick looks at one more list file. -/
theorem phaseOk_compareNext {mtime : Nat} {stamps : Stamps} {path : Str} {rest : List Str}
    (h : s.PhaseOk U (.compare mtime stamps (path :: rest))) :
    s.PhaseOk U (.compare mtime (stamps ++ [(path, s.disk.mtime path)]) rest) := by
  obtain ⟨hsettled, hpast, hsame, hlisted⟩ := h
  refine ⟨hsettled, hpast, fun hso => ?_, fun conf hconf => (hlisted conf hconf).next⟩
  obtain ⟨hconfig, hstamps⟩ :=
    hsame ⟨hso.1, fun stamp hs => hso.2 stamp (List.mem_append_left _ hs)⟩
  refine ⟨hconfig, fun stamp hs => ?_⟩
  cases List.mem_append.mp hs with
  | inl hold => exact hstamps stamp hold
  | inr hnew => rw [List.mem_singleton.mp hnew]

theorem inv_step {s' : RuleWatcher} {a : Act} (hi : Inv U s) (hcalm : s.Undisturbed a)
    (hmove : Move U s a s') : Inv U s' := by
  have hphase := hi.phase
  cases hmove with
  | editConfig => exact inv_setConfig hi hcalm.1 hcalm.2
  | editList =>
      refine inv_setList hi (fun f hf => ?_) hcalm.2
      cases hf
      exact hcalm.1
  | removeList =>
      refine inv_setList hi (fun f hf => ?_) hcalm
      cases hf
  | start found loaded => exact hi.ofPhase rfl rfl rfl ⟨rfl, rfl, loaded⟩
  | reload found loaded =>
      rw [found] at hphase
      obtain ⟨hsettled, hpast, -⟩ := hphase
      exact hi.ofPhase rfl rfl rfl ⟨rfl, rfl, hsettled, hpast, fun _ => loaded⟩
  | keep found kept =>
      rw [found] at hphase
      obtain ⟨hsettled, -, hlast⟩ := hphase
      have hsettled' := hsettled
      obtain ⟨conf', hconf', hnoted⟩ := hsettled'
      cases kept.symm.trans hconf'
      exact hi.ofPhase rfl rfl rfl ⟨rfl, rfl, hsettled, hnoted.1 _ (hlast rfl)⟩
  | refuse found =>
      rw [found] at hphase
      exact hi.ofPhase rfl rfl rfl hphase.1
  | addEntry found =>
      rw [found] at hphase
      exact hi.ofPhase rfl rfl rfl (phaseOk_addEntry hphase)
  | firstBuilt found =>
      rw [found] at hphase
      have htrie := trie_of_phaseOk hphase
      exact hi.ofPhase rfl rfl rfl ⟨hphase.2.2, htrie⟩
  | built found all =>
      rw [found] at hphase
      have htrie := trie_of_phaseOk hphase
      refine hi.ofPhase rfl rfl rfl (noted_of_built (fun m hm => ?_) htrie all)
      cases hm
      exact hphase.2.2.2
  | @stat found order conf ready all =>
      rw [ready] at hphase
      refine hi.ofPhase rfl rfl rfl (noted_of_built (fun m hm => ?_) hphase.2 all)
      cases found with
      | false => cases hm
      | true =>
          cases hm
          exact ⟨hi.configPast, fun _ => hphase.1⟩
  | recordNext found =>
      rw [found] at hphase
      exact hi.ofPhase rfl rfl rfl (Noted.next hi hphase)
  | compareNext found =>
      rw [found] at hphase
      exact hi.ofPhase rfl rfl rfl (phaseOk_compareNext hphase)
  | recorded found =>
      rw [found] at hphase
      exact hi.ofPhase rfl rfl rfl ⟨_, rfl, Noted.sort hphase⟩
  | unchanged found =>
      rw [found] at hphase
      exact hi.ofPhase rfl rfl rfl hphase.1
  | changed found =>
      rw [found] at hphase
      refine hi.ofPhase rfl rfl rfl ⟨hphase.1, hphase.2.1, fun hsame => ?_⟩
      exact (Decidable.not_not.mp (of_decide_eq_false hsame)).symm
  | tick found inUse all =>
      rw [found] at hphase
      refine hi.ofPhase rfl rfl rfl ⟨hphase, hi.configPast, fun _ => ⟨rfl, ?_⟩, ?_⟩
      · intro stamp hs
        cases hs
      · intro conf hconf path hp
        cases inUse.symm.trans hconf
        exact .inl (all.mem_iff.mpr hp)
  | lost => exact hi
  | fail found =>
      rw [found] at hphase
      exact hi.ofPhase rfl rfl rfl hphase.2.2.1

/-- The invariant holds in every undisturbed run. -/
theorem inv_reach {disk : Disk} (h : (machine U disk).ReachBy Undisturbed s) : Inv U s := by
  refine Machine.ReachBy.invariant (P := Inv U) ?_
    (fun _ _ _ hi hcalm hstep => inv_step hi hcalm (step_move hstep)) h
  refine ⟨List.mem_cons_self .., fun path file hfile => ?_, trivial⟩
  simp only [machine, new, Disk.mtime] at hfile ⊢
  rw [hfile]
  exact List.mem_cons_self ..

/-! ## Whether a tick that finds no change is right -/

/-- A tick that finds no change is right. -/
theorem fits_of_concludes (hi : Inv U s) (hquiet : s.Concludes) :
    ∃ conf, s.disk.config = .ok conf ∧ s.trie = conf.buildTrie U s.disk.contents := by
  obtain ⟨mtime, stamps, hp, hlast, hsort⟩ := hquiet
  have hphase := hi.phase
  rw [hp] at hphase
  obtain ⟨⟨conf, hconf, hnoted⟩, -, hsame, hlisted⟩ := hphase
  have hso : s.UnchangedSoFar mtime stamps := by
    refine ⟨hlast, fun stamp hs => ?_⟩
    rw [← hsort]
    exact mem_sort.mpr hs
  obtain ⟨hconfig, hstamps⟩ := hsame hso
  exact ⟨conf, fits_of_unchanged hnoted hso hconfig hstamps (hlisted conf hconf)⟩

/-- In a run without disturbance, a tick finds no change only when the active
trie is the one of the disk. -/
theorem unchanged_tick_fits_disk {disk : Disk} (h : (machine U disk).ReachBy Undisturbed s)
    (hquiet : s.Concludes) :
    ∃ conf, s.disk.config = .ok conf ∧ s.trie = conf.buildTrie U s.disk.contents :=
  fits_of_concludes (inv_reach h) hquiet

def concludes (s : RuleWatcher) : Bool :=
  match s.phase with
  | .compare mtime stamps [] => some mtime = s.lastMtime && stamps.sort = s.listMtimes
  | _ => false

theorem concludes_of_eq_true (h : s.concludes = true) : s.Concludes := by
  unfold concludes at h
  split at h
  next mtime stamps hp =>
    rw [Bool.and_eq_true, decide_eq_true_eq, decide_eq_true_eq] at h
    exact ⟨mtime, stamps, hp, h.1, h.2⟩
  · cases h

/-- A configuration that drops the names of a list file. -/
def sampleConf : Conf where
  dropList := ["./l".toList]
  redirectList := []
  resolvers := []
  secureOnly := false
  resolverSearching := ⟨false, [], false, false⟩
  relayConf := ⟨false, false, 0, []⟩

def sampleDisk : Disk where
  config := .ok sampleConf
  configMtime := 0
  lists path := if path = "./l".toList then some ⟨"a.b".toList, 0⟩ else none

def editedList : ListFile := ⟨"c.d".toList, 1⟩

def startup : List Act :=
  [.load, .addEntry, .built [], .stat true ["./l".toList], .statList, .listed]

/-- A tick finds a change.  After the reload, the next one finds none. -/
def reloading : List Act :=
  [.tick true ["./l".toList], .statList, .listed, .load, .addEntry, .built ["./l".toList],
    .statList, .listed, .tick true ["./l".toList], .statList]

theorem mem_startup_or_reloading {a : Act} (h : a ∈ startup ∨ a ∈ reloading) (s : RuleWatcher) :
    s.Undisturbed a := by
  simp only [startup, reloading, List.mem_cons, List.not_mem_nil, or_false] at h
  cases a with
  | editConfig | editList | removeList => simp at h
  | load | addEntry | built | stat | statList | listed | tick | fail => trivial

theorem unchanged_tick_fits_edited_disk :
    ∃ s, (machine .ascii sampleDisk).ReachBy Undisturbed s ∧ s.Concludes ∧
      s.disk.lists "./l".toList = some editedList ∧
      ∃ conf, s.disk.config = .ok conf ∧ s.trie = conf.buildTrie .ascii s.disk.contents := by
  obtain ⟨s1, hs1, hidle, hpast⟩ : ∃ s, (machine .ascii sampleDisk).run (new sampleDisk) startup =
      some s ∧ s.phase = .idle ∧ s.listPast "./l".toList = [0] := ⟨_, rfl, rfl, rfl⟩
  have h1 : (machine .ascii sampleDisk).ReachBy Undisturbed s1 :=
    Machine.ReachBy.run .init (fun a ha => mem_startup_or_reloading (.inl ha)) hs1
  have hcalm : s1.Undisturbed (.editList "./l".toList editedList) := by
    refine ⟨?_, ?_⟩
    · rw [hpast]
      decide
    · simp only [ListExposed, hidle, not_false_eq_true]
  have hrun : ((machine .ascii sampleDisk).run (new sampleDisk)
      (startup ++ .editList "./l".toList editedList :: reloading)).any (fun s =>
        s.concludes && s.disk.lists "./l".toList = some editedList) = true := by
    decide +kernel
  rw [Machine.run_append, hs1, Option.bind_some, Machine.run] at hrun
  cases hs2 : (machine .ascii sampleDisk).step s1 (.editList "./l".toList editedList) with
  | none =>
      rw [hs2] at hrun
      cases hrun
  | some s2 =>
      rw [hs2, Option.bind_some] at hrun
      cases hs : (machine .ascii sampleDisk).run s2 reloading with
      | none =>
          rw [hs] at hrun
          cases hrun
      | some s =>
          rw [hs, Option.any_some, Bool.and_eq_true, decide_eq_true_eq] at hrun
          have h := (h1.step _ hcalm hs2).run (fun a ha => mem_startup_or_reloading (.inr ha)) hs
          have hquiet := concludes_of_eq_true hrun.1
          exact ⟨s, h, hquiet, hrun.2, unchanged_tick_fits_disk h hquiet⟩

/-- The list file is edited after the build has read it and before its time is
noted. -/
def missedEdit : List Act :=
  [.load, .addEntry, .editList "./l".toList editedList, .built [], .stat true ["./l".toList],
    .statList, .listed, .tick true ["./l".toList], .statList]

/-- The tick finds no change, and the trie still drops the name that the file
held before. -/
theorem edit_after_read_is_missed :
    ∃ s, (machine .ascii sampleDisk).Reach s ∧ s.Concludes ∧
      ¬∃ conf, s.disk.config = .ok conf ∧ s.trie = conf.buildTrie .ascii s.disk.contents := by
  have hrun : ((machine .ascii sampleDisk).run (new sampleDisk) missedEdit).any (fun s =>
      s.concludes && (s.disk.config.toOption = some sampleConf &&
        s.trie.lookup .ascii "a.b".toList ≠
          (sampleConf.buildTrie .ascii s.disk.contents).lookup .ascii "a.b".toList)) = true := by
    decide +kernel
  cases hs : (machine .ascii sampleDisk).run (new sampleDisk) missedEdit with
  | none =>
      rw [hs] at hrun
      cases hrun
  | some s =>
      rw [hs, Option.any_some, Bool.and_eq_true, Bool.and_eq_true, decide_eq_true_eq,
        decide_eq_true_eq] at hrun
      obtain ⟨hquiet, hconfig, hlookup⟩ := hrun
      refine ⟨s, Machine.reach_of_run hs, concludes_of_eq_true hquiet, ?_⟩
      rintro ⟨conf, hconf, htrie⟩
      rw [hconf] at hconfig
      cases hconfig
      exact hlookup (by rw [← htrie])

/-! ## A whole tick -/

/-- The steps of a tick that finds the configuration file and does not fail. -/
def Act.own : Act → Bool
  | .load | .addEntry | .built _ | .statList | .listed | .tick true _ => true
  | .editConfig _ _ | .editList _ _ | .removeList _ | .stat _ _ | .tick false _ | .fail => false

open Relation (ReflTransGen TransGen)

end RuleWatcher

end DnsRelay
