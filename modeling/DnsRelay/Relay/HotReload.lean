import Mathlib.Data.List.Dedup
import DnsRelay.Lib.Machine
import DnsRelay.Relay.Conf
import DnsRelay.Shared.DomainTrie

/-!
# Hot reload

At start the server loads its configuration and builds the rule trie from it.
Then `watch_conf_and_reload` takes over.  It notes when the configuration and
the referenced list files were last modified.  At each tick it looks at these
times again, and when one of them has changed it reloads.

Files are read and looked at one after the other, and they may be edited in
between.  `RuleWatcher` is the state of the watcher and of the disk.  Every
access to a file is one step, and so is every edit.

The times a file has had are part of the state.  They say whether an edit gives
a file a time it did not have before.
-/

namespace DnsRelay

open Lib

/-! ## Building the trie entry by entry -/

/-- An entry of one of the two rule lists. -/
inductive RuleEntry where
  /-- Of `drop_list`. -/
  | drop (entry : Str)
  /-- Of `redirect_list`. -/
  | redirect (entry : Str × Str)
deriving DecidableEq, Repr

def RuleEntry.file : RuleEntry → Option Str
  | .drop entry | .redirect (entry, _) =>
      if isFileReference (trim entry) then some (trim entry) else none

def Conf.ruleEntries (conf : Conf) : List RuleEntry :=
  conf.dropList.map .drop ++ conf.redirectList.map .redirect

/-- `referenced_rule_files`, in any order. -/
def Conf.referencedRuleFiles (conf : Conf) : List Str :=
  (conf.ruleEntries.filterMap RuleEntry.file).dedup

/-- One round of a loop of `DomainTrie::build`. -/
def addRuleEntry (U : CaseTable) (files : Str → Option Str) (acc : DomainTrie × List Str) :
    RuleEntry → DomainTrie × List Str
  | .drop entry => DomainTrie.addDropEntry U files acc entry
  | .redirect entry => (DomainTrie.addRedirectEntry U files acc.1 entry, acc.2)

/-- The trie of a configuration and of the contents of list files. -/
def Conf.buildTrie (U : CaseTable) (files : Str → Option Str) (conf : Conf) : DomainTrie :=
  DomainTrie.build U files conf.dropList conf.redirectList

/-! ## The disk -/

structure ListFile where
  content : Str
  mtime : Nat
deriving DecidableEq, Repr

/-- The files that the watcher looks at. -/
structure Disk where
  /-- What `load_conf` makes of the configuration file. -/
  config : Except Error Conf
  configMtime : Nat
  lists : Str → Option ListFile

def Disk.contents (disk : Disk) (path : Str) : Option Str := (disk.lists path).map ListFile.content

def Disk.mtime (disk : Disk) (path : Str) : Option Nat := (disk.lists path).map ListFile.mtime

/-! ## The watcher -/

/-- List files with their modification times. -/
abbrev Stamps := List (Str × Option Nat)

def pathLe : Str → Str → Bool
  | [], _ => true
  | _ :: _, [] => false
  | c :: path, d :: path' =>
      decide (c.toNat < d.toNat) || (c.toNat == d.toNat && pathLe path path')

/-- `sort_by` the path. -/
def Stamps.sort (stamps : Stamps) : Stamps := stamps.mergeSort fun l r => pathLe l.1 r.1

inductive WatchPhase where
  | load
  /-- Build the trie, with some entries behind it.  A rebuild carries the
  modification time that its tick has seen. -/
  | build (mtime : Option Nat) (conf : Conf) (past rest : List RuleEntry)
      (acc : DomainTrie × List Str)
  | stat (conf : Conf)
  | record (conf : Conf) (stamps : Stamps) (rest : List Str)
  | idle
  | compare (mtime : Nat) (stamps : Stamps) (rest : List Str)
  | reload (mtime : Nat) (configChanged : Bool)

/-- The server's rules, the watcher and the disk. -/
structure RuleWatcher where
  disk : Disk
  /-- The modification times that the configuration file has had. -/
  configPast : List Nat
  /-- The modification times that each list file has had. -/
  listPast : Str → List Nat
  conf : Option Conf
  trie : DomainTrie
  lastMtime : Option Nat
  listMtimes : Stamps
  phase : WatchPhase

namespace RuleWatcher

def new (disk : Disk) : RuleWatcher where
  disk := disk
  configPast := [disk.configMtime]
  listPast path := (disk.mtime path).toList
  conf := none
  trie := .new
  lastMtime := none
  listMtimes := []
  phase := .load

/-! ## Steps -/

inductive Act where
  | editConfig (config : Except Error Conf) (mtime : Nat)
  | editList (path : Str) (file : ListFile)
  | removeList (path : Str)
  | load
  | addEntry
  | built (order : List Str)
  | stat (found : Bool) (order : List Str)
  | statList
  | listed
  | tick (found : Bool) (order : List Str)
  | fail

def setConfig (s : RuleWatcher) (config : Except Error Conf) (mtime : Nat) : RuleWatcher :=
  { s with
    disk := { s.disk with config := config, configMtime := mtime }
    configPast := mtime :: s.configPast }

def setList (s : RuleWatcher) (path : Str) (file : Option ListFile) : RuleWatcher :=
  { s with
    disk := { s.disk with lists := Function.update s.disk.lists path file }
    listPast := Function.update s.listPast path
      ((file.map ListFile.mtime).toList ++ s.listPast path) }

def startBuild (s : RuleWatcher) (mtime : Option Nat) (conf : Conf) : RuleWatcher :=
  { s with phase := .build mtime conf [] conf.ruleEntries (.new, []) }

/-- Begin to look at the referenced files, in some order. -/
def startListing (s : RuleWatcher) (conf : Conf) (order : List Str)
    (phase : List Str → WatchPhase) : Option RuleWatcher :=
  if order.Perm conf.referencedRuleFiles then some { s with phase := phase order } else none

/-- The end of a tick: nothing has changed, or there is something to
reload. -/
def conclude (s : RuleWatcher) (mtime : Nat) (stamps : Stamps) : RuleWatcher :=
  if some mtime = s.lastMtime ∧ stamps.sort = s.listMtimes then { s with phase := .idle }
  else { s with phase := .reload mtime (decide (some mtime ≠ s.lastMtime)) }

def step (U : CaseTable) (s : RuleWatcher) : Act → Option RuleWatcher
  | .editConfig config mtime =>
      if mtime = s.disk.configMtime then none else some (s.setConfig config mtime)
  | .editList path file =>
      if s.disk.mtime path = some file.mtime then none else some (s.setList path (some file))
  | .removeList path => some (s.setList path none)
  | .load =>
      match s.phase, s.disk.config, s.conf with
      | .load, .ok conf, _ => some ({ s with conf := some conf }.startBuild none conf)
      | .reload mtime true, .ok conf, _ => some (s.startBuild (some mtime) conf)
      -- the old configuration stays, and the next tick tries again
      | .reload _ true, .error _, _ => some { s with phase := .idle }
      | .reload mtime false, _, some conf => some (s.startBuild (some mtime) conf)
      | _, _, _ => none
  | .addEntry =>
      match s.phase with
      | .build mtime conf past (entry :: rest) acc =>
          let acc := addRuleEntry U s.disk.contents acc entry
          some { s with phase := .build mtime conf (past ++ [entry]) rest acc }
      | _ => none
  | .built order =>
      match s.phase with
      | .build none conf _ [] acc => some { s with trie := acc.1, phase := .stat conf }
      | .build (some mtime) conf _ [] acc =>
          { s with trie := acc.1, lastMtime := some mtime }.startListing conf order
            (.record conf [])
      | _ => none
  | .stat found order =>
      match s.phase with
      | .stat conf =>
          let lastMtime := if found then some s.disk.configMtime else none
          { s with lastMtime := lastMtime }.startListing conf order (.record conf [])
      | _ => none
  | .statList =>
      match s.phase with
      | .record conf stamps (path :: rest) =>
          some { s with phase := .record conf (stamps ++ [(path, s.disk.mtime path)]) rest }
      | .compare mtime stamps (path :: rest) =>
          some { s with phase := .compare mtime (stamps ++ [(path, s.disk.mtime path)]) rest }
      | _ => none
  | .listed =>
      match s.phase with
      | .record conf stamps [] =>
          some { s with listMtimes := stamps.sort, conf := some conf, phase := .idle }
      | .compare mtime stamps [] => some (s.conclude mtime stamps)
      | _ => none
  | .tick found order =>
      match s.phase, s.conf with
      | .idle, some conf =>
          if found then s.startListing conf order (.compare s.disk.configMtime []) else some s
      | _, _ => none
  | .fail =>
      match s.phase with
      | .build (some _) _ _ _ _ => some { s with phase := .idle }
      | _ => none

def machine (U : CaseTable) (disk : Disk) : Machine RuleWatcher Act := ⟨new disk, step U⟩

/-- A tick has looked at all files and finds no change. -/
def Concludes (s : RuleWatcher) : Prop :=
  ∃ mtime stamps, s.phase = .compare mtime stamps [] ∧ some mtime = s.lastMtime ∧
    stamps.sort = s.listMtimes

/-! ## What a step can do -/

/-- The steps by their effect, with what each one finds. -/
inductive Move (U : CaseTable) (s : RuleWatcher) : Act → RuleWatcher → Prop where
  | editConfig {config : Except Error Conf} {mtime : Nat} :
      Move U s (.editConfig config mtime) (s.setConfig config mtime)
  | editList {path : Str} {file : ListFile} :
      Move U s (.editList path file) (s.setList path (some file))
  | removeList {path : Str} : Move U s (.removeList path) (s.setList path none)
  | start {conf : Conf} (found : s.phase = .load) (loaded : s.disk.config = .ok conf) :
      Move U s .load ({ s with conf := some conf }.startBuild none conf)
  | reload {mtime : Nat} {conf : Conf} (found : s.phase = .reload mtime true)
      (loaded : s.disk.config = .ok conf) : Move U s .load (s.startBuild (some mtime) conf)
  | keep {mtime : Nat} {conf : Conf} (found : s.phase = .reload mtime false)
      (kept : s.conf = some conf) : Move U s .load (s.startBuild (some mtime) conf)
  | refuse {mtime : Nat} {changed : Bool} (found : s.phase = .reload mtime changed) :
      Move U s .load { s with phase := .idle }
  | addEntry {mtime : Option Nat} {conf : Conf} {past rest : List RuleEntry} {entry : RuleEntry}
      {acc : DomainTrie × List Str} (found : s.phase = .build mtime conf past (entry :: rest) acc) :
      Move U s .addEntry { s with
        phase := .build mtime conf (past ++ [entry]) rest
          (addRuleEntry U s.disk.contents acc entry) }
  | firstBuilt {order : List Str} {conf : Conf} {past : List RuleEntry}
      {acc : DomainTrie × List Str} (found : s.phase = .build none conf past [] acc) :
      Move U s (.built order) { s with trie := acc.1, phase := .stat conf }
  | built {order : List Str} {mtime : Nat} {conf : Conf} {past : List RuleEntry}
      {acc : DomainTrie × List Str} (found : s.phase = .build (some mtime) conf past [] acc)
      (all : order.Perm conf.referencedRuleFiles) :
      Move U s (.built order) { s with
        trie := acc.1
        lastMtime := some mtime
        phase := .record conf [] order }
  | stat {found : Bool} {order : List Str} {conf : Conf} (ready : s.phase = .stat conf)
      (all : order.Perm conf.referencedRuleFiles) :
      Move U s (.stat found order) { s with
        lastMtime := if found then some s.disk.configMtime else none
        phase := .record conf [] order }
  | recordNext {conf : Conf} {stamps : Stamps} {path : Str} {rest : List Str}
      (found : s.phase = .record conf stamps (path :: rest)) :
      Move U s .statList { s with
        phase := .record conf (stamps ++ [(path, s.disk.mtime path)]) rest }
  | compareNext {mtime : Nat} {stamps : Stamps} {path : Str} {rest : List Str}
      (found : s.phase = .compare mtime stamps (path :: rest)) :
      Move U s .statList { s with
        phase := .compare mtime (stamps ++ [(path, s.disk.mtime path)]) rest }
  | recorded {conf : Conf} {stamps : Stamps} (found : s.phase = .record conf stamps []) :
      Move U s .listed { s with listMtimes := stamps.sort, conf := some conf, phase := .idle }
  | unchanged {mtime : Nat} {stamps : Stamps} (found : s.phase = .compare mtime stamps []) :
      Move U s .listed { s with phase := .idle }
  | changed {mtime : Nat} {stamps : Stamps} (found : s.phase = .compare mtime stamps []) :
      Move U s .listed { s with phase := .reload mtime (decide (some mtime ≠ s.lastMtime)) }
  | tick {order : List Str} {conf : Conf} (found : s.phase = .idle) (inUse : s.conf = some conf)
      (all : order.Perm conf.referencedRuleFiles) :
      Move U s (.tick true order) { s with phase := .compare s.disk.configMtime [] order }
  | lost {order : List Str} : Move U s (.tick false order) s
  | fail {mtime : Nat} {conf : Conf} {past rest : List RuleEntry} {acc : DomainTrie × List Str}
      (found : s.phase = .build (some mtime) conf past rest acc) :
      Move U s .fail { s with phase := .idle }

theorem startListing_eq_some {s s' : RuleWatcher} {conf : Conf} {order : List Str}
    {phase : List Str → WatchPhase} (h : s.startListing conf order phase = some s') :
    order.Perm conf.referencedRuleFiles ∧ s' = { s with phase := phase order } := by
  unfold startListing at h
  split at h
  next hall =>
    cases h
    exact ⟨hall, rfl⟩
  · cases h

/-- Every step is one of the moves. -/
theorem step_move {U : CaseTable} {s s' : RuleWatcher} {a : Act} (h : step U s a = some s') :
    Move U s a s' := by
  cases a with
  | editConfig config mtime =>
      simp only [step] at h
      split at h
      · cases h
      · cases h
        exact .editConfig
  | editList path file =>
      simp only [step] at h
      split at h
      · cases h
      · cases h
        exact .editList
  | removeList path =>
      cases h
      exact .removeList
  | load =>
      simp only [step] at h
      split at h
      next conf hp hl =>
        cases h
        exact .start hp hl
      next mtime conf hp hl =>
        cases h
        exact .reload hp hl
      next hp hl =>
        cases h
        exact .refuse hp
      next mtime conf hp hc =>
        cases h
        exact .keep hp hc
      · cases h
  | addEntry =>
      simp only [step] at h
      split at h
      next hp =>
        cases h
        exact .addEntry hp
      · cases h
  | built order =>
      simp only [step] at h
      split at h
      next hp =>
        cases h
        exact .firstBuilt hp
      next hp =>
        obtain ⟨hall, rfl⟩ := startListing_eq_some h
        exact .built hp hall
      · cases h
  | stat found order =>
      simp only [step] at h
      split at h
      next hp =>
        obtain ⟨hall, rfl⟩ := startListing_eq_some h
        exact .stat hp hall
      · cases h
  | statList =>
      simp only [step] at h
      split at h
      next hp =>
        cases h
        exact .recordNext hp
      next hp =>
        cases h
        exact .compareNext hp
      · cases h
  | listed =>
      simp only [step] at h
      split at h
      next hp =>
        cases h
        exact .recorded hp
      next hp =>
        cases h
        unfold conclude
        split
        · exact .unchanged hp
        · exact .changed hp
      · cases h
  | tick found order =>
      simp only [step] at h
      split at h
      next conf hp hc =>
        cases found with
        | true =>
            obtain ⟨hall, rfl⟩ := startListing_eq_some h
            exact .tick hp hc hall
        | false =>
            cases h
            exact .lost
      · cases h
  | fail =>
      simp only [step] at h
      split at h
      next hp =>
        cases h
        exact .fail hp
      · cases h

end RuleWatcher

end DnsRelay
