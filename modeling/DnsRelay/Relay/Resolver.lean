import Mathlib.Data.Prod.Lex
import Mathlib.Data.List.Dedup
import Mathlib.Data.List.Perm.Subperm
import DnsRelay.Lib.Addr
import DnsRelay.Lib.Sort
import DnsRelay.Relay.Conf
import DnsRelay.Shared.Cache
import DnsRelay.Shared.Craft

/-!
# Choosing an upstream resolver

`ResolverPicker` holds the resolvers that answered a health check, with the
time each one took.  It is built once from the configuration, and a background
search merges resolvers from fetched lists into it.  A query asks it for up to
two candidates, and the lookup of a relay's address asks it for one.

What the network does is an argument.  `HealthChecks` is the outcome of
probing resolvers concurrently: the probes finish in any order, and a probe
whose task died is missing.  Sorting is any `UnstableSort`.

`resolveFromUpstreamInner` decides by the address of a resolver which
transport carries a query.
-/

namespace DnsRelay

open Lib

/-- `Resolver`: an address and its latency. -/
structure Resolver where
  addr : Str
  latency : Nat
deriving DecidableEq, Repr

/-! ## Health checks -/

structure Probe where
  resolver : Str
  latency : Option Nat
  finishedAt : Nat
deriving DecidableEq, Repr

/-- The probes of `collect_concurrent` over `measure_latency`, in the order in
which they finish. -/
structure HealthChecks where
  probes : List Str → List Probe
  probed : ∀ resolvers, ((probes resolvers).map Probe.resolver).Subperm resolvers

def Probe.healthy? (probe : Probe) : Option Resolver :=
  probe.latency.map fun latency => ⟨probe.resolver, latency⟩

def HealthChecks.healthy (checks : HealthChecks) (resolvers : List Str) : List Resolver :=
  (checks.probes resolvers).filterMap Probe.healthy?

/-- One probe of each resolver names the resolvers again. -/
theorem Probe.map_resolver (latency : Str → Option Nat) (time : Nat) (resolvers : List Str) :
    (resolvers.map fun r => (⟨r, latency r, time⟩ : Probe)).map Probe.resolver = resolvers := by
  rw [List.map_map]
  exact List.map_id resolvers

theorem HealthChecks.mem_healthy {checks : HealthChecks} {resolvers : List Str} {r : Resolver}
    (h : r ∈ checks.healthy resolvers) : r.addr ∈ resolvers := by
  obtain ⟨probe, hp, hr⟩ := List.mem_filterMap.mp h
  obtain ⟨latency, -, rfl⟩ := Option.map_eq_some_iff.mp hr
  exact (checks.probed resolvers).subset (List.mem_map_of_mem hp)

/-- `test_resolvers`. -/
def testResolvers (S : UnstableSort) (checks : HealthChecks) (resolvers : List Str) :
    Except Error (List Resolver) :=
  let results := checks.healthy resolvers
  if results.isEmpty then .error .noHealthyResolvers
  else .ok (S.sortByKey Resolver.latency results)

theorem testResolvers_ok {S : UnstableSort} {checks : HealthChecks} {resolvers : List Str}
    {healthy : List Resolver} (h : testResolvers S checks resolvers = .ok healthy) :
    healthy ≠ [] ∧ ∀ r ∈ healthy, r.addr ∈ resolvers := by
  rw [testResolvers, check_eq_ok] at h
  obtain ⟨hne, h⟩ := h
  cases h
  refine ⟨by simpa using hne, fun r hr => ?_⟩
  exact HealthChecks.mem_healthy (S.mem_sortByKey.mp hr)

/-! ## The picker -/

/-- How a call can fail: with an error, or by a failed `expect`. -/
inductive Fault where
  | error (error : Error)
  | panic (message : Str)
deriving DecidableEq, Repr

structure ResolverPicker where
  healthyResolvers : List Resolver
  secureOnly : Bool
deriving DecidableEq, Repr

namespace ResolverPicker

/-- `ResolverPicker::build`. -/
def build (S : UnstableSort) (checks : HealthChecks) (resolvers : List Str) (secureOnly : Bool) :
    Except Error ResolverPicker :=
  let resolvers := if secureOnly then resolvers.filter isSecureResolver else resolvers
  if resolvers.isEmpty && secureOnly then .ok ⟨[], secureOnly⟩
  else (testResolvers S checks resolvers).map (⟨·, secureOnly⟩)

def eligible (picker : ResolverPicker) (r : Resolver) : Bool :=
  !picker.secureOnly || isSecureResolver r.addr

/-- `ResolverPicker::pick`. -/
def pick (picker : ResolverPicker) : Except Fault Str :=
  match picker.healthyResolvers.find? picker.eligible with
  | some r => .ok r.addr
  | none => .error (.panic "resolver picker must contain an eligible resolver".toList)

/-- The order of `candidates` that puts DoH resolvers first. -/
def dohFirst (r : Resolver) : Bool ×ₗ Nat := toLex (!startsWith r.addr https, r.latency)

/-- `ResolverPicker::candidates`. -/
def candidates (S : UnstableSort) (picker : ResolverPicker) (preferDoh : Bool) : List Resolver :=
  let resolvers :=
    if picker.secureOnly then picker.healthyResolvers.filter fun r => isSecureResolver r.addr
    else picker.healthyResolvers
  let resolvers :=
    if preferDoh then S.sortByKey dohFirst resolvers else S.sortByKey Resolver.latency resolvers
  resolvers.take 2

theorem eligible_of_pick {picker : ResolverPicker} {resolver : Str}
    (h : picker.pick = .ok resolver) :
    ∃ r ∈ picker.healthyResolvers, picker.eligible r = true ∧ r.addr = resolver := by
  rw [pick] at h
  split at h
  next r hr =>
      cases h
      exact ⟨r, List.mem_of_find?_eq_some hr, List.find?_some hr, rfl⟩
  next => cases h

theorem pick_of_eligible {picker : ResolverPicker} {r : Resolver}
    (hr : r ∈ picker.healthyResolvers) (he : picker.eligible r = true) :
    ∃ resolver, picker.pick = .ok resolver := by
  have hfind : (picker.healthyResolvers.find? picker.eligible).isSome = true :=
    List.find?_isSome.mpr ⟨r, hr, he⟩
  obtain ⟨found, hfound⟩ := Option.isSome_iff_exists.mp hfind
  exact ⟨found.addr, by rw [pick, hfound]⟩

theorem mem_candidates {S : UnstableSort} {picker : ResolverPicker} {preferDoh : Bool}
    {r : Resolver} (h : r ∈ picker.candidates S preferDoh) :
    r ∈ picker.healthyResolvers ∧ picker.eligible r = true := by
  have hsorted := List.mem_of_mem_take h
  have hmem : r ∈ if picker.secureOnly then
      picker.healthyResolvers.filter fun r => isSecureResolver r.addr
      else picker.healthyResolvers := by
    cases preferDoh with
    | true => exact S.mem_sortByKey.mp hsorted
    | false => exact S.mem_sortByKey.mp hsorted
  cases hs : picker.secureOnly with
  | false => exact ⟨by simpa [hs] using hmem, by simp [eligible, hs]⟩
  | true =>
      rw [hs, if_pos rfl, List.mem_filter] at hmem
      exact ⟨hmem.1, by rw [eligible, hs]; exact hmem.2⟩

/-- What a picker that was built for secure use holds.  It is empty only when
no authenticated resolver is configured. -/
theorem build_secure {S : UnstableSort} {checks : HealthChecks} {resolvers : List Str}
    {picker : ResolverPicker} (h : build S checks resolvers true = .ok picker) :
    picker.secureOnly = true ∧
      (∀ r ∈ picker.healthyResolvers, isSecureResolver r.addr = true) ∧
      (resolvers.any isSecureResolver = true → picker.healthyResolvers ≠ []) := by
  rw [build] at h
  simp only [if_true, Bool.and_true] at h
  split at h
  next hempty =>
      cases h
      refine ⟨rfl, fun r hr => absurd hr List.not_mem_nil, fun hany => ?_⟩
      obtain ⟨r, hr, hs⟩ := List.any_eq_true.mp hany
      rw [List.isEmpty_iff, List.filter_eq_nil_iff] at hempty
      exact absurd hs (hempty r hr)
  next =>
      cases ht : testResolvers S checks (resolvers.filter isSecureResolver) with
      | error e =>
          rw [ht] at h
          cases h
      | ok healthy =>
          rw [ht] at h
          cases h
          obtain ⟨hne, hmem⟩ := testResolvers_ok ht
          exact ⟨rfl, fun r hr => (List.mem_filter.mp (hmem r hr)).2, fun _ => hne⟩

end ResolverPicker

/-! ## The search for resolvers -/

/-- `MAX_HEALTHY_RESOLVERS`. -/
def maxHealthyResolvers : Nat := 256

/-- `FAILED_RESOLVER_CAP`. -/
def failedResolverCap : Nat := 4096

/-- `FAILED_RESOLVER_FLUSH_INTERVAL`. -/
def failedResolverFlushInterval : Nat := fromSecs 3600

structure FailedResolverSet where
  set : List Str
  /-- When the set was last emptied. -/
  flushedAt : Nat
deriving DecidableEq, Repr

/-- `is_failed_resolver`. -/
def isFailedResolver (failed : FailedResolverSet) (resolver : Str) : Bool :=
  decide (resolver ∈ failed.set)

/-- `record_failed_resolver`.  A full set takes nothing until it is emptied. -/
def recordFailedResolver (failed : FailedResolverSet) (now : Nat) (resolver : Str) :
    FailedResolverSet :=
  let failed :=
    if failedResolverFlushInterval ≤ now - failed.flushedAt then ⟨[], now⟩ else failed
  if failedResolverCap ≤ failed.set.length then failed
  else { failed with set := failed.set.insert resolver }

/-- The resolvers a cycle probes: the fetched ones that may be used, did not
fail before and are not in use. -/
def discoveryCandidates (secureOnly : Bool) (failed : FailedResolverSet) (healthy : List Resolver)
    (fetched : List (List Str)) : List Str :=
  let wanted := fetched.flatten.filter fun resolver =>
    (!secureOnly || isSecureResolver resolver) && !isFailedResolver failed resolver
  wanted.dedup.filter fun resolver => decide (resolver ∉ healthy.map Resolver.addr)

def recordFailures (failed : FailedResolverSet) (probes : List Probe) : FailedResolverSet :=
  (probes.filter fun probe => probe.latency.isNone).foldl
    (fun failed probe => recordFailedResolver failed probe.finishedAt probe.resolver) failed

def retainNew : List Str → List Resolver → List Resolver
  | _, [] => []
  | seen, r :: rest =>
      if r.addr ∈ seen then retainNew seen rest else r :: retainNew (r.addr :: seen) rest

/-- `merge_discovered_into_healthy`. -/
def mergeDiscoveredIntoHealthy (S : UnstableSort) (healthy discovered : List Resolver)
    (maxLen : Nat) : List Resolver :=
  (retainNew [] (S.sortByKey Resolver.latency (healthy ++ discovered))).take maxLen

/-- The end of a cycle: the healthy resolvers after the probes of the
candidates. -/
def mergeProbed (S : UnstableSort) (checks : HealthChecks) (healthy : List Resolver)
    (candidates : List Str) : List Resolver :=
  let results := checks.healthy candidates
  if results.isEmpty then healthy
  else mergeDiscoveredIntoHealthy S healthy (S.sortByKey Resolver.latency results)
    maxHealthyResolvers

theorem mem_discoveryCandidates {secureOnly : Bool} {failed : FailedResolverSet}
    {healthy : List Resolver} {fetched : List (List Str)} {resolver : Str}
    (h : resolver ∈ discoveryCandidates secureOnly failed healthy fetched) :
    (!secureOnly || isSecureResolver resolver) = true := by
  have h1 := (List.mem_filter.mp h).1
  rw [List.mem_dedup, List.mem_filter, Bool.and_eq_true] at h1
  exact h1.2.1

theorem retainNew_sublist : ∀ (seen : List Str) (rs : List Resolver),
    (retainNew seen rs).Sublist rs := by
  intro seen rs
  fun_induction retainNew seen rs with
  | case1 seen => exact List.Sublist.refl []
  | case2 seen r rest hin ih => exact ih.cons r
  | case3 seen r rest hin ih => exact ih.cons_cons r

theorem retainNew_ne_nil {rs : List Resolver} (h : rs ≠ []) : retainNew [] rs ≠ [] := by
  cases rs with
  | nil => exact absurd rfl h
  | cons r rest => simp [retainNew]

theorem mem_merge {S : UnstableSort} {healthy discovered : List Resolver} {maxLen : Nat}
    {r : Resolver} (h : r ∈ mergeDiscoveredIntoHealthy S healthy discovered maxLen) :
    r ∈ healthy ∨ r ∈ discovered := by
  have h1 := (retainNew_sublist _ _).subset (List.mem_of_mem_take h)
  exact List.mem_append.mp (S.mem_sortByKey.mp h1)

theorem merge_ne_nil {S : UnstableSort} {healthy discovered : List Resolver} {maxLen : Nat}
    (hmax : maxLen ≠ 0) (h : healthy ≠ []) :
    mergeDiscoveredIntoHealthy S healthy discovered maxLen ≠ [] := by
  have hsorted : S.sortByKey Resolver.latency (healthy ++ discovered) ≠ [] := by simp [h]
  rw [mergeDiscoveredIntoHealthy, ne_eq, List.take_eq_nil_iff, not_or]
  exact ⟨hmax, retainNew_ne_nil hsorted⟩

theorem mem_mergeProbed {S : UnstableSort} {checks : HealthChecks} {healthy : List Resolver}
    {candidates : List Str} {r : Resolver} (h : r ∈ mergeProbed S checks healthy candidates) :
    r ∈ healthy ∨ r.addr ∈ candidates := by
  simp only [mergeProbed] at h
  split at h
  next => exact .inl h
  next =>
      rcases mem_merge h with h | h
      · exact .inl h
      · exact .inr (HealthChecks.mem_healthy (S.mem_sortByKey.mp h))

theorem mergeProbed_ne_nil {S : UnstableSort} {checks : HealthChecks} {healthy : List Resolver}
    {candidates : List Str} (h : healthy ≠ []) : mergeProbed S checks healthy candidates ≠ [] := by
  simp only [mergeProbed]
  split
  next => exact h
  next => exact merge_ne_nil (by decide) h

/-! ## The transport of a query -/

/-- The four ways in which `resolve_from_upstream_inner` sends a query. -/
inductive Upstream where
  | doh (url : Str)
  | doq (resolver : Str)
  | dispatcher (addr : SocketAddr)
  | socket (addr : SocketAddr)
deriving DecidableEq, Repr

def Upstream.plainUdp : Upstream → Bool
  | .doh _ | .doq _ => false
  | .dispatcher _ | .socket _ => true

/-- `resolve_from_upstream_inner` up to the point where the query leaves: the
transport and the bytes it carries. -/
def resolveFromUpstreamInner (payload : Bytes) (resolver : Str) (subnet : Option Ipv4Subnet)
    (hasDispatcher : Bool) : Except Error (Upstream × Bytes) :=
  let finalPayload := (setEcsIpv4Subnet payload subnet).getD payload
  if startsWith resolver https then .ok (.doh resolver, finalPayload)
  else if startsWith resolver quic then .ok (.doq resolver, finalPayload)
  else
    match parseSocketAddr resolver with
    | none => .error (.invalidResolver resolver)
    | some addr =>
        if addr.isIpv4 && hasDispatcher then .ok (.dispatcher addr, finalPayload)
        else .ok (.socket addr, finalPayload)

/-- An authenticated resolver is asked over an authenticated transport. -/
theorem upstream_secure {resolver : Str} (h : isSecureResolver resolver = true) (payload : Bytes)
    (subnet : Option Ipv4Subnet) (hasDispatcher : Bool) :
    ∃ upstream sent, resolveFromUpstreamInner payload resolver subnet hasDispatcher =
      .ok (upstream, sent) ∧ upstream.plainUdp = false := by
  rw [isSecureResolver, Bool.or_eq_true] at h
  by_cases hh : startsWith resolver https = true
  · exact ⟨_, _, by rw [resolveFromUpstreamInner, if_pos hh], rfl⟩
  · have hq := h.resolve_left hh
    exact ⟨_, _, by rw [resolveFromUpstreamInner, if_neg hh, if_pos hq], rfl⟩

/-- `normalize_resolver`. -/
def normalizeResolver (resolver : Str) : Str :=
  if startsWith resolver https || startsWith resolver "http://".toList then resolver
  else if resolver.contains ':' then resolver
  else resolver ++ ":53".toList

/-- A query handed to `resolve_from_upstream_inner`, and where it goes. -/
structure Request where
  resolver : Str
  query : Except Error (Upstream × Bytes)

/-- `ResolverPicker::resolve`: the requests it makes and its result, for the
reply that the upstream gives. -/
def ResolverPicker.resolve (picker : ResolverPicker) (txid : UInt8 × UInt8) (domain : Str)
    (resolver : Option Str) (reply : Except Error Bytes) :
    List Request × Except Fault (List Bytes) :=
  let chosen : Except Fault Str := match resolver with
    | some r => .ok (normalizeResolver r)
    | none => picker.pick
  match chosen with
  | .error fault => ([], .error fault)
  | .ok resolver =>
      let query := resolveFromUpstreamInner (buildLookupQuery txid domain) resolver none true
      ([⟨resolver, query⟩], match query, reply with
        | .error e, _ | .ok _, .error e => .error (.error e)
        | .ok _, .ok packet => .ok (parseARecords packet))

/-- Once `pick` has a resolver, the lookup asks it and ends without a panic. -/
theorem ResolverPicker.resolve_picked {picker : ResolverPicker} {resolver : Str}
    (h : picker.pick = .ok resolver) (txid : UInt8 × UInt8) (domain : Str)
    (reply : Except Error Bytes) :
    (picker.resolve txid domain none reply).1 =
        [⟨resolver, resolveFromUpstreamInner (buildLookupQuery txid domain) resolver none true⟩] ∧
      ∀ message, (picker.resolve txid domain none reply).2 ≠ .error (.panic message) := by
  simp only [ResolverPicker.resolve, h, ne_eq, true_and]
  intro message
  cases resolveFromUpstreamInner (buildLookupQuery txid domain) resolver none true with
  | error e => nofun
  | ok sent =>
      cases reply with
      | error e => nofun
      | ok packet => nofun

end DnsRelay
