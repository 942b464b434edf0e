import DnsRelay.Lib.Machine
import DnsRelay.Relay.Resolver

/-!
# How long a failed resolver is left out

The search for resolvers remembers the ones whose probe failed and does not
probe them again.  The set is emptied after an hour, but only while another
failure is recorded.  A cycle without candidates records nothing.

`Finder` is the state of the search between two cycles, with a clock and a log
of all calls of `record_failed_resolver`.  `Finder.Logged` says that what is in
the set was recorded since it was last emptied.  A cycle whose last probes
never finish stands for one that is under way, so the results hold in the
middle of a cycle too.
-/

namespace DnsRelay

open Lib

structure Finder where
  failed : FailedResolverSet
  healthy : List Resolver
  /-- The time of the last thing that happened. -/
  clock : Nat
  /-- All calls of `record_failed_resolver`, with their times. -/
  records : List (Nat × Str)

/-- What the outside contributes to one cycle. -/
structure Cycle where
  /-- When the fetched lists are filtered. -/
  now : Nat
  fetched : List (List Str)
  checks : HealthChecks

/-- The calls of `record_failed_resolver` that some probes make. -/
def recordsOf (probes : List Probe) : List (Nat × Str) :=
  (probes.filter fun probe => probe.latency.isNone).map fun probe =>
    (probe.finishedAt, probe.resolver)

namespace Finder

def finished (now : Nat) (probes : List Probe) : Nat :=
  probes.foldl (fun _ probe => probe.finishedAt) now

/-- One turn of the loop of `run_resolver_finder_inner`.  Time does not run
backwards. -/
def cycle (S : UnstableSort) (secureOnly : Bool) (s : Finder) (c : Cycle) : Option Finder :=
  let candidates := discoveryCandidates secureOnly s.failed s.healthy c.fetched
  if c.now < s.clock then none
  else if candidates.isEmpty then some { s with clock := c.now }
  else
    let probes := c.checks.probes candidates
    if (c.now :: probes.map Probe.finishedAt).Pairwise (· ≤ ·) then
      some {
        failed := recordFailures s.failed probes
        healthy := mergeProbed S c.checks s.healthy candidates
        clock := finished c.now probes
        records := s.records ++ recordsOf probes }
    else none

def machine (S : UnstableSort) (secureOnly : Bool) (start : Nat) (healthy : List Resolver) :
    Machine Finder Cycle where
  init := ⟨⟨[], start⟩, healthy, start, []⟩
  step := cycle S secureOnly

/-! ## What the set holds -/

/-- The set was emptied before the clock's time, and what it holds was recorded
since then. -/
structure Logged (failed : FailedResolverSet) (records : List (Nat × Str)) (clock : Nat) :
    Prop where
  flushed : failed.flushedAt ≤ clock
  recorded : ∀ r ∈ failed.set, ∃ time, (time, r) ∈ records ∧ failed.flushedAt ≤ time

section Logged

variable {failed : FailedResolverSet} {records : List (Nat × Str)} {clock now : Nat}

theorem Logged.wait (h : Logged failed records clock) (hle : clock ≤ now) :
    Logged failed records now :=
  ⟨h.flushed.trans hle, h.recorded⟩

/-- One call of `record_failed_resolver`. -/
theorem Logged.record (h : Logged failed records clock) (hle : clock ≤ now) (resolver : Str) :
    Logged (recordFailedResolver failed now resolver) (records ++ [(now, resolver)]) now := by
  -- the set that the resolver is added to
  have hbase : Logged (if failedResolverFlushInterval ≤ now - failed.flushedAt then ⟨[], now⟩
      else failed) records now := by
    split
    · exact ⟨Nat.le_refl now, fun r hr => absurd hr List.not_mem_nil⟩
    · exact h.wait hle
  rw [recordFailedResolver]
  generalize (if failedResolverFlushInterval ≤ now - failed.flushedAt then
    (⟨[], now⟩ : FailedResolverSet) else failed) = base at hbase
  have hold : ∀ r ∈ base.set, ∃ time, (time, r) ∈ records ++ [(now, resolver)] ∧
      base.flushedAt ≤ time := by
    intro r hr
    obtain ⟨time, hmem, htime⟩ := hbase.recorded r hr
    exact ⟨time, List.mem_append_left _ hmem, htime⟩
  split
  · exact ⟨hbase.flushed, hold⟩
  · refine ⟨hbase.flushed, fun r hr => ?_⟩
    rcases List.mem_insert_iff.mp hr with rfl | hr
    · exact ⟨now, by simp, hbase.flushed⟩
    · exact hold r hr

/-- The records of the probes of one cycle. -/
theorem Logged.probes {probes : List Probe} (h : Logged failed records now)
    (htimes : (now :: probes.map Probe.finishedAt).Pairwise (· ≤ ·)) :
    Logged (recordFailures failed probes) (records ++ recordsOf probes) (finished now probes) := by
  induction probes generalizing failed records now with
  | nil => simpa [recordFailures, recordsOf, finished] using h
  | cons probe probes ih =>
      obtain ⟨hnow, hrest⟩ := List.pairwise_cons.mp htimes
      have hle : now ≤ probe.finishedAt := hnow _ List.mem_cons_self
      cases hl : probe.latency with
      | none =>
          have hnext := ih (h.record hle probe.resolver) hrest
          simpa [recordFailures, recordsOf, finished, hl] using hnext
      | some latency =>
          have hnext := ih (h.wait hle) hrest
          simpa [recordFailures, recordsOf, finished, hl] using hnext

end Logged

variable {S : UnstableSort} {secureOnly : Bool} {s s' : Finder}

theorem logged_cycle {c : Cycle} (h : Logged s.failed s.records s.clock)
    (hstep : cycle S secureOnly s c = some s') : Logged s'.failed s'.records s'.clock := by
  simp only [cycle] at hstep
  split at hstep
  · cases hstep
  · next hclock =>
      have hwait := h.wait (Nat.le_of_not_lt hclock)
      split at hstep
      · cases hstep
        exact hwait
      · split at hstep
        · next htimes =>
            cases hstep
            exact hwait.probes htimes
        · cases hstep

theorem logged_reach {start : Nat} {healthy : List Resolver}
    (h : (machine S secureOnly start healthy).Reach s) : Logged s.failed s.records s.clock := by
  refine Machine.ReachBy.invariant
    (P := fun s : Finder => Logged s.failed s.records s.clock) ?_ ?_ h
  · exact ⟨Nat.le_refl start, fun r hr => absurd hr List.not_mem_nil⟩
  · exact fun s c s' hlogged _ hstep => logged_cycle hlogged hstep

/-! ## Cycles that probe nothing -/

/-- All resolvers that a cycle fetches are marked as failed. -/
def AllFailed (s : Finder) (c : Cycle) : Prop :=
  ∀ r ∈ c.fetched.flatten, isFailedResolver s.failed r = true

theorem no_candidates {c : Cycle} (h : AllFailed s c) :
    discoveryCandidates secureOnly s.failed s.healthy c.fetched = [] := by
  have hwanted : c.fetched.flatten.filter (fun r =>
      (!secureOnly || isSecureResolver r) && !isFailedResolver s.failed r) = [] := by
    rw [List.filter_eq_nil_iff]
    intro r hr
    simp [h r hr]
  rw [discoveryCandidates, hwanted]
  rfl

theorem idle_cycle {c : Cycle} (h : AllFailed s c) (hstep : cycle S secureOnly s c = some s') :
    s'.failed = s.failed ∧ s'.records = s.records := by
  simp only [cycle, no_candidates h] at hstep
  split at hstep
  · cases hstep
  · cases hstep
    exact ⟨rfl, rfl⟩

theorem idle_run {start : Nat} {healthy : List Resolver} {cycles : List Cycle}
    (h : (machine S secureOnly start healthy).RunBy AllFailed s cycles s') :
    s'.failed = s.failed ∧ s'.records = s.records := by
  induction h with
  | nil => exact ⟨rfl, rfl⟩
  | cons hall hstep _ ih =>
      obtain ⟨hfailed, hrecords⟩ := idle_cycle hall hstep
      exact ⟨ih.1.trans hfailed, ih.2.trans hrecords⟩

/-- A resolver that may be used, is not in use and is not marked as failed is
probed when it is fetched. -/
theorem mem_candidates_of_not_failed {fetched : List (List Str)} {r : Str}
    (hr : r ∈ fetched.flatten) (hsecure : (!secureOnly || isSecureResolver r) = true)
    (hfailed : isFailedResolver s.failed r = false) (hnew : r ∉ s.healthy.map Resolver.addr) :
    r ∈ discoveryCandidates secureOnly s.failed s.healthy fetched := by
  rw [discoveryCandidates, List.mem_filter, List.mem_dedup, List.mem_filter]
  exact ⟨⟨hr, by rw [hsecure, hfailed]; rfl⟩, decide_eq_true hnew⟩

/-- The resolver was recorded as failed in the hour before a time. -/
def RecordedWithin (s : Finder) (time : Nat) (r : Str) : Prop :=
  ∃ recorded, (recorded, r) ∈ s.records ∧ time < recorded + failedResolverFlushInterval

/-- While less than an hour has passed since the set was last emptied, every
resolver in it failed in the last hour, and every other one is probed when it is
fetched.  The set is not emptied by time alone: as long as all fetched resolvers
are in it, nothing is recorded and nothing leaves it. -/
theorem failed_within_window (S : UnstableSort) (secureOnly : Bool) (start : Nat)
    (healthy : List Resolver) {s : Finder}
    (h : (machine S secureOnly start healthy).Reach s) :
    (∀ time, s.clock ≤ time → time < s.failed.flushedAt + failedResolverFlushInterval →
      (∀ r, isFailedResolver s.failed r = true → RecordedWithin s time r) ∧
      ∀ fetched r, r ∈ fetched.flatten → (!secureOnly || isSecureResolver r) = true →
        r ∉ s.healthy.map Resolver.addr → ¬RecordedWithin s time r →
        r ∈ discoveryCandidates secureOnly s.failed s.healthy fetched) ∧
    ∀ cycles s', (machine S secureOnly start healthy).RunBy AllFailed s cycles s' →
      s'.failed = s.failed ∧ s'.records = s.records := by
  refine ⟨fun time _ hwindow => ?_, fun cycles s' => idle_run⟩
  have hwithin : ∀ r, isFailedResolver s.failed r = true → RecordedWithin s time r := by
    intro r hr
    obtain ⟨recorded, hmem, hle⟩ := (logged_reach h).recorded r (of_decide_eq_true hr)
    exact ⟨recorded, hmem, hwindow.trans_le (Nat.add_le_add_right hle _)⟩
  refine ⟨hwithin, fun fetched r hr hsecure hnew hold => ?_⟩
  refine mem_candidates_of_not_failed hr hsecure ?_ hnew
  exact Bool.eq_false_iff.mpr fun hfailed => hold (hwithin r hfailed)

def deadChecks (time : Nat) : HealthChecks where
  probes resolvers := resolvers.map fun r => ⟨r, none, time⟩
  probed resolvers := by
    rw [Probe.map_resolver fun _ => none]

/-- One resolver fails its probe.  Two hours later it is the only one fetched. -/
def deadRun : List Cycle :=
  [⟨0, [["9.9.9.9:53".toList]], deadChecks 1⟩,
    ⟨fromSecs 7200, [["9.9.9.9:53".toList]], deadChecks (fromSecs 7200)⟩]

theorem failed_within_window_after_failure :
    ∃ s, (machine .insertion false 0 []).Reach s ∧
      isFailedResolver s.failed "9.9.9.9:53".toList = true ∧
      RecordedWithin s s.clock "9.9.9.9:53".toList := by
  have hrun : (machine .insertion false 0 []).run (machine .insertion false 0 []).init
      (deadRun.take 1) = some ⟨⟨["9.9.9.9:53".toList], 0⟩, [], 1, [(1, "9.9.9.9:53".toList)]⟩ := by
    rfl
  have hreach := Machine.reach_of_run hrun
  have hfailed : isFailedResolver ⟨["9.9.9.9:53".toList], 0⟩ "9.9.9.9:53".toList = true := by
    decide
  have hwindow := (failed_within_window _ _ _ _ hreach).1 1 (Nat.le_refl 1) (by decide)
  exact ⟨_, hreach, hfailed, hwindow.1 _ hfailed⟩

/-- The resolver is still left out two hours after its only failure. -/
theorem failed_beyond_window :
    ∃ s, (machine .insertion false 0 []).run (machine .insertion false 0 []).init deadRun =
        some s ∧
      isFailedResolver s.failed "9.9.9.9:53".toList = true ∧
      ¬RecordedWithin s s.clock "9.9.9.9:53".toList := by
  refine ⟨⟨⟨["9.9.9.9:53".toList], 0⟩, [], fromSecs 7200, [(1, "9.9.9.9:53".toList)]⟩, rfl,
    by decide, ?_⟩
  rintro ⟨recorded, hmem, hlt⟩
  obtain ⟨rfl, -⟩ := Prod.mk.inj (List.mem_singleton.mp hmem)
  revert hlt
  decide

end Finder

end DnsRelay
