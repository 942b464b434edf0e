import DnsRelay.Lib.Machine
import DnsRelay.Relay.HistoryFile

/-!
# The history buffer

Resolved names are queued and written to the history file by background tasks.
A flag lets one task run at a time.  A task that ends clears the flag, looks at
the queue once more and starts another task if there are entries again.
`close` waits until the flag is clear and flushes what is left, without taking
the flag.

The machine has a step for every access to what is shared: each push and pop,
each look at the queue, each access to the flag, and the read and the write of
the file.
-/

namespace DnsRelay

open Lib

namespace HistoryBuffer

/-- `CAP`. -/
def cap : Nat := 100

/-- What a history buffer is made with. -/
structure Conf where
  linesCount : Nat
  matchedList : List Str

inductive Flush where
  | popping (batch : List HistoryEntry)
  /-- It has a batch and is about to read the file. -/
  | reading (batch : List HistoryEntry)
  /-- It has read the file and is about to write it. -/
  | writing (batch : List HistoryEntry) (content : Str)
  | done
deriving DecidableEq, Repr

/-- Where a task of `try_spawn_flush` stands. -/
inductive Task where
  | flushing (f : Flush)
  /-- It has cleared the flag and is about to look at the queue. -/
  | checking
  /-- It has seen entries and is about to try for the flag. -/
  | respawning
  | ended
deriving DecidableEq, Repr

/-- Where a call of `push_many` stands. -/
inductive Push where
  | pushing (e : HistoryEntry)
  /-- Its entry is in the queue, and it is about to look at the length. -/
  | counting
  | spawning
  | returned
deriving DecidableEq, Repr

/-- Where `close` stands. -/
inductive Close where
  | notCalled
  | spinning
  | flushing (f : Flush)
deriving DecidableEq, Repr

/-- The buffer and all that work on it. -/
structure State where
  queue : List HistoryEntry
  flushing : Bool
  dropped : Nat
  file : Str
  tasks : List Task
  /-- The calls of `push_many`. -/
  pushes : List Push
  /-- The call of `close`. -/
  closing : Close
  /-- The entries that the queue took, for the statements. -/
  accepted : List HistoryEntry
deriving DecidableEq

/-- `HistoryBuffer::new`, with a file that may have been there before. -/
def new (file : Str) : State := ⟨[], false, 0, file, [], [], .notCalled, []⟩

/-- `domain_matches`. -/
def domainMatches (pattern domain : Str) : Bool :=
  match stripPrefix pattern ['*'] with
  | some suffix =>
      decide (domain = suffix) || (decide (suffix.length < domain.length) &&
        suffix.isSuffixOf domain &&
        decide (domain[domain.length - suffix.length - 1]? = some '.'))
  | none => decide (domain = pattern)

/-- The head of `push_many`.  Entries without addresses and domains that are
not asked for are left out. -/
def Conf.pushMany (conf : Conf) (e : HistoryEntry) : Push :=
  if e.ips.isEmpty then .returned
  else if !conf.matchedList.isEmpty &&
      !conf.matchedList.any (fun pattern => domainMatches pattern e.domain) then .returned
  else .pushing e

namespace State

/-- `try_spawn_flush`: the flag is taken and a task starts, unless the flag is
set. -/
def trySpawnFlush (s : State) : State :=
  if s.flushing then s
  else { s with flushing := true, tasks := s.tasks ++ [.flushing (.popping [])] }

/-- One step of `flush`.  A batch that is empty ends it.  A panic leaves the
file as it is. -/
def flush (conf : Conf) (s : State) : Flush → Option (State × Flush)
  | .popping batch =>
      match s.queue with
      | e :: rest => some ({ s with queue := rest }, .popping (batch ++ [e]))
      | [] => some ({ s with dropped := 0 }, if batch.isEmpty then .done else .reading batch)
  | .reading batch => some (s, .writing batch s.file)
  | .writing batch content =>
      match flushedText conf.linesCount content batch with
      | some text => some ({ s with file := text }, .done)
      | none => some (s, .done)
  | .done => none

/-- The next step of a call of `push_many`. -/
def push (s : State) (i : Nat) : Option State :=
  match s.pushes[i]? with
  | some (.pushing e) =>
      if s.queue.length < cap then
        some { s with
          queue := s.queue ++ [e]
          accepted := s.accepted ++ [e]
          pushes := s.pushes.set i .counting }
      else some { s with dropped := s.dropped + 1, pushes := s.pushes.set i .spawning }
  | some .counting =>
      some { s with
        pushes := s.pushes.set i (if cap ≤ s.queue.length then .spawning else .returned) }
  | some .spawning => some { s with pushes := s.pushes.set i .returned }.trySpawnFlush
  | _ => none

def task (conf : Conf) (s : State) (i : Nat) : Option State :=
  match s.tasks[i]? with
  | some (.flushing .done) =>
      some { s with flushing := false, tasks := s.tasks.set i .checking }
  | some (.flushing f) =>
      (s.flush conf f).map fun r => { r.1 with tasks := r.1.tasks.set i (.flushing r.2) }
  | some .checking =>
      some { s with tasks := s.tasks.set i (if s.queue.isEmpty then .ended else .respawning) }
  | some .respawning => some { s with tasks := s.tasks.set i .ended }.trySpawnFlush
  | _ => none

/-- The next step of `close`. -/
def close (conf : Conf) (s : State) : Option State :=
  match s.closing with
  | .notCalled => none
  | .spinning =>
      if s.flushing then some s else some { s with closing := .flushing (.popping []) }
  | .flushing f => (s.flush conf f).map fun r => { r.1 with closing := .flushing r.2 }

end State

inductive Act where
  /-- `push_many` is called. -/
  | call (e : HistoryEntry)
  /-- A call of `push_many` goes on. -/
  | push (i : Nat)
  | task (i : Nat)
  /-- `close` is called, after all calls of `push_many` have returned. -/
  | close
  /-- `close` goes on. -/
  | closing
deriving DecidableEq, Repr

def step (conf : Conf) (s : State) : Act → Option State
  | .call e =>
      if s.closing = .notCalled then some { s with pushes := s.pushes ++ [conf.pushMany e] }
      else none
  | .push i => s.push i
  | .task i => s.task conf i
  | .close =>
      if s.closing = .notCalled ∧ ∀ p ∈ s.pushes, p = .returned then
        some { s with closing := .spinning }
      else none
  | .closing => s.close conf

/-- The machine, over a file that may have been there before. -/
def machine (conf : Conf) (file : Str) : Machine State Act := ⟨new file, step conf⟩

end HistoryBuffer

end DnsRelay
