import DnsRelay.Lib.Machine
import DnsRelay.Relay.Resolver

/-!
# Secure mode over the life of a server

`run_server` builds the picker, then the relays, then serves queries while the
search for resolvers runs in the background.  `Server` is the state of these
parts and `Server.machine` their interleaving.  The actions carry what the
network answers.  The state keeps every query that was handed to an upstream
resolver, and a failed `expect` shows as a phase.

`Server.Inv` is what secure mode maintains.  Each of the five places that
filter resolvers contributes one field or one lemma to it.
-/

namespace DnsRelay

open Lib

/-! ## Relays at start -/

/-- What the outside contributes to one `RelayInstance::new`. -/
structure RelayEnv where
  host : Except Error Str
  txid : UInt8 × UInt8
  reply : Except Error Bytes
  client : Except Error Unit
  key : Except Error Unit
  text : Error → Str

/-- The last steps of `RelayInstance::new`. -/
def relayClient (env : RelayEnv) : Except Fault Unit :=
  match env.client, env.key with
  | .error e, _ =>
      .error (.error (.relayErr ("failed to build relay client: ".toList ++ env.text e)))
  | .ok (), .error e =>
      .error (.error (.relayErr ("invalid relay instance key: ".toList ++ env.text e)))
  | .ok (), .ok () => .ok ()

/-- `RelayInstance::new`: the requests it makes and its result. -/
def relayInstanceNew (picker : ResolverPicker) (relay : Relay) (env : RelayEnv)
    (resolveIpv4 : Bool) : List Request × Except Fault Unit :=
  match env.host with
  | .error e =>
      ([], .error (.error (.relayErr
        ("invalid relay_url ".toList ++ relay.relayUrl ++ ": ".toList ++ env.text e))))
  | .ok host =>
      if resolveIpv4 then
        let lookup := picker.resolve env.txid host none env.reply
        (lookup.1, match lookup.2 with
          | .error (.panic message) => .error (.panic message)
          | .error (.error e) =>
              .error (.error (.relayErr
                ("failed to resolve relay host ".toList ++ host ++ ": ".toList ++ env.text e)))
          | .ok [] =>
              .error (.error (.relayErr ("failed to resolve relay host ".toList ++ host)))
          | .ok (_ :: _) => relayClient env)
      else ([], relayClient env)

/-! ## The server -/

inductive Phase where
  | starting
  | bootstrapping (left : List Relay)
  | serving
  | failed (error : Error)
  /-- An `expect` failed. -/
  | panicked (message : Str)

/-- The state of the server.  The picker is empty until it is built. -/
structure Server where
  phase : Phase
  picker : ResolverPicker
  failed : FailedResolverSet
  /-- The candidates of the search cycle under way. -/
  searching : Option (List Str)
  /-- The queries that were handed to an upstream resolver. -/
  sent : List Request

namespace Server

/-- What happens next, with what the network answers. -/
inductive Act where
  | build (checks : HealthChecks)
  | bootstrap (env : RelayEnv)
  | query (payload : Bytes) (subnet : Option Ipv4Subnet) (preferDoh : Bool)
  | search (fetched : List (List Str))
  | probed (checks : HealthChecks)

/-- The start of `RelayPicker::new`, which is only called when relays are
enabled. -/
def startRelays (conf : RelayConf) : Phase :=
  if !conf.enable then .serving
  else if conf.relayInstances.isEmpty then
    .failed (.relayErr "no relay instances configured".toList)
  else .bootstrapping conf.relayInstances

/-- The loop of `RelayPicker::new` after one relay. -/
def nextRelay (left : List Relay) : Except Fault Unit → Phase
  | .error (.error e) => .failed e
  | .error (.panic message) => .panicked message
  | .ok () => if left.isEmpty then .serving else .bootstrapping left

/-- The queries that `resolve_packet_for_subnet` hands to its candidates.
Hedging decides whether the second one is used. -/
def requests (S : UnstableSort) (picker : ResolverPicker) (payload : Bytes)
    (subnet : Option Ipv4Subnet) (preferDoh : Bool) : List Request :=
  (picker.candidates S preferDoh).map fun r =>
    ⟨r.addr, resolveFromUpstreamInner payload r.addr subnet true⟩

/-- `searching_enabled`. -/
def searchingEnabled (conf : Conf) : Bool :=
  conf.resolverSearching.enable && !conf.resolverSearching.resolverSource.isEmpty

def search (conf : Conf) (s : Server) (fetched : List (List Str)) : Server :=
  let candidates :=
    discoveryCandidates conf.secureOnly s.failed s.picker.healthyResolvers fetched
  { s with searching := if candidates.isEmpty then none else some candidates }

def finishSearch (S : UnstableSort) (s : Server) (checks : HealthChecks) (candidates : List Str) :
    Server :=
  { s with
    searching := none
    failed := recordFailures s.failed (checks.probes candidates)
    picker := { s.picker with
      healthyResolvers := mergeProbed S checks s.picker.healthyResolvers candidates } }

def step (S : UnstableSort) (conf : Conf) (s : Server) : Act → Option Server
  | .build checks =>
      match s.phase with
      | .starting =>
          match ResolverPicker.build S checks conf.resolvers conf.secureOnly with
          | .error e => some { s with phase := .failed e }
          | .ok picker => some { s with phase := startRelays conf.relayConf, picker := picker }
      | _ => none
  | .bootstrap env =>
      match s.phase with
      | .bootstrapping (relay :: left) =>
          let new := relayInstanceNew s.picker relay env conf.relayConf.resolveManual
          some { s with phase := nextRelay left new.2, sent := s.sent ++ new.1 }
      | _ => none
  | .query payload subnet preferDoh =>
      match s.phase with
      | .serving =>
          -- With relays enabled the query goes to a relay and not to the picker.
          if conf.relayConf.enable then some s
          else some { s with sent := s.sent ++ requests S s.picker payload subnet preferDoh }
      | _ => none
  | .search fetched =>
      match s.phase, s.searching with
      | .serving, none => if searchingEnabled conf then some (search conf s fetched) else none
      | _, _ => none
  | .probed checks =>
      match s.searching with
      | some candidates => some (finishSearch S s checks candidates)
      | none => none

def machine (S : UnstableSort) (conf : Conf) : Machine Server Act where
  init := ⟨.starting, ⟨[], conf.secureOnly⟩, ⟨[], 0⟩, none, []⟩
  step := step S conf

/-! ## What secure mode maintains -/

/-- The request asks an authenticated resolver, and not over plain UDP. -/
def Authenticated (request : Request) : Prop :=
  isSecureResolver request.resolver = true ∧
    ∃ upstream sent, request.query = .ok (upstream, sent) ∧ upstream.plainUdp = false

/-- The picker may be asked in this phase. -/
def Phase.Running : Phase → Prop
  | .bootstrapping _ | .serving => True
  | .starting | .failed _ | .panicked _ => False

structure Inv (conf : Conf) (s : Server) : Prop where
  secureOnly : s.picker.secureOnly = true
  healthy : ∀ r ∈ s.picker.healthyResolvers, isSecureResolver r.addr = true
  nonempty : Phase.Running s.phase → conf.hasSecureResolver = true →
    s.picker.healthyResolvers ≠ []
  relays : ∀ left, s.phase = .bootstrapping left → conf.relayConf.enable = true
  searching : ∀ candidates, s.searching = some candidates →
    ∀ resolver ∈ candidates, isSecureResolver resolver = true
  sent : ∀ request ∈ s.sent, Authenticated request
  /-- No `expect` has failed. -/
  calm : ∀ message, s.phase ≠ .panicked message

variable {S : UnstableSort} {conf : Conf} {s s' : Server}

theorem authenticated_of_secure {resolver : Str} (h : isSecureResolver resolver = true)
    (payload : Bytes) (subnet : Option Ipv4Subnet) :
    Authenticated ⟨resolver, resolveFromUpstreamInner payload resolver subnet true⟩ :=
  ⟨h, upstream_secure h payload subnet true⟩

theorem startRelays_ne_panicked (rc : RelayConf) (message : Str) :
    startRelays rc ≠ .panicked message := by
  rw [startRelays]
  split
  · nofun
  · split
    · nofun
    · nofun

theorem enabled_of_startRelays {rc : RelayConf} {left : List Relay}
    (h : startRelays rc = .bootstrapping left) : rc.enable = true := by
  rw [startRelays] at h
  split at h
  next => cases h
  next he => simpa using he

/-- The requests of a relay under construction go to an authenticated resolver,
and the picker has one. -/
theorem relayInstanceNew_secure (hi : Inv conf s) (hrun : Phase.Running s.phase)
    {resolveIpv4 : Bool} (hboot : resolveIpv4 = true → conf.hasSecureResolver = true)
    (relay : Relay) (env : RelayEnv) :
    (∀ request ∈ (relayInstanceNew s.picker relay env resolveIpv4).1, Authenticated request) ∧
      ∀ message, (relayInstanceNew s.picker relay env resolveIpv4).2 ≠ .error (.panic message) := by
  have hclient : ∀ message, relayClient env ≠ .error (.panic message) := by
    intro message h
    rw [relayClient] at h
    split at h <;> cases h
  rw [relayInstanceNew]
  cases env.host with
  | error e => exact ⟨fun _ h => absurd h List.not_mem_nil, fun _ h => by cases h⟩
  | ok host =>
      cases resolveIpv4 with
      | false => exact ⟨fun _ h => absurd h List.not_mem_nil, hclient⟩
      | true =>
          -- The lookup asks the picker, which has a resolver to give.
          obtain ⟨r, hr⟩ := List.exists_mem_of_ne_nil _ (hi.nonempty hrun (hboot rfl))
          have helig : s.picker.eligible r = true := by
            rw [ResolverPicker.eligible, hi.healthy r hr, Bool.or_true]
          obtain ⟨resolver, hpick⟩ := ResolverPicker.pick_of_eligible hr helig
          obtain ⟨r', hr', -, rfl⟩ := ResolverPicker.eligible_of_pick hpick
          obtain ⟨hsent, hcalm⟩ := ResolverPicker.resolve_picked hpick env.txid host env.reply
          simp only [if_true, hsent]
          refine ⟨fun request h => ?_, fun message h => ?_⟩
          · rw [List.mem_singleton.mp h]
            exact authenticated_of_secure (hi.healthy r' hr') (buildLookupQuery env.txid host) none
          · split at h
            next m hm => exact hcalm m hm
            next => cases h
            next => cases h
            next => exact hclient message h

theorem inv_build (hi : Inv conf s) (hsecure : conf.secureOnly = true) {checks : HealthChecks}
    (h : step S conf s (.build checks) = some s') : Inv conf s' := by
  simp only [step] at h
  split at h
  next hphase =>
      split at h
      next e he =>
          cases h
          exact { hi with
            nonempty := fun hrun => absurd hrun id
            relays := nofun
            calm := nofun }
      next picker hbuild =>
          cases h
          rw [hsecure] at hbuild
          obtain ⟨honly, hhealthy, hne⟩ := ResolverPicker.build_secure hbuild
          exact { hi with
            secureOnly := honly
            healthy := hhealthy
            nonempty := fun _ => hne
            relays := fun left hl => enabled_of_startRelays hl
            calm := startRelays_ne_panicked conf.relayConf }
  next => cases h

theorem inv_bootstrap (hi : Inv conf s) (hsec : conf.Secured) {env : RelayEnv}
    (h : step S conf s (.bootstrap env) = some s') : Inv conf s' := by
  simp only [step] at h
  split at h
  next relay left hphase =>
      cases h
      have hrun : Phase.Running s.phase := by rw [hphase]; trivial
      have henable := hi.relays _ hphase
      obtain ⟨hsent, hcalm⟩ := relayInstanceNew_secure hi hrun (hsec.bootstrap henable) relay env
      refine { hi with
        nonempty := fun _ => hi.nonempty hrun
        relays := fun _ _ => henable
        sent := fun request hr => ?_
        calm := fun message hp => ?_ }
      · rcases List.mem_append.mp hr with hr | hr
        · exact hi.sent request hr
        · exact hsent request hr
      · simp only at hp
        revert hp
        rw [nextRelay.eq_def]
        split
        next => nofun
        next m hm => exact fun _ => hcalm m hm
        next =>
            split
            · nofun
            · nofun
  next => cases h

theorem inv_query (hi : Inv conf s) {payload : Bytes} {subnet : Option Ipv4Subnet}
    {preferDoh : Bool} (h : step S conf s (.query payload subnet preferDoh) = some s') :
    Inv conf s' := by
  simp only [step] at h
  split at h
  next =>
      split at h
      next => cases h; exact hi
      next =>
          cases h
          refine { hi with sent := fun request hr => ?_ }
          rcases List.mem_append.mp hr with hr | hr
          · exact hi.sent request hr
          · obtain ⟨r, hcand, rfl⟩ := List.mem_map.mp hr
            have hmem := (ResolverPicker.mem_candidates hcand).1
            exact authenticated_of_secure (hi.healthy r hmem) payload subnet
  next => cases h

theorem inv_search (hi : Inv conf s) (hsecure : conf.secureOnly = true)
    {fetched : List (List Str)} (h : step S conf s (.search fetched) = some s') : Inv conf s' := by
  simp only [step] at h
  split at h
  next =>
      split at h
      next =>
          cases h
          refine { hi with searching := fun candidates hc resolver hr => ?_ }
          simp only [search] at hc
          split at hc
          next => cases hc
          next =>
              cases hc
              simpa [hsecure] using mem_discoveryCandidates hr
      next => cases h
  next => cases h

theorem inv_probed (hi : Inv conf s) {checks : HealthChecks}
    (h : step S conf s (.probed checks) = some s') : Inv conf s' := by
  simp only [step] at h
  split at h
  next candidates hc =>
      cases h
      refine { hi with
        healthy := fun r hr => ?_
        nonempty := fun hrun hs => mergeProbed_ne_nil (hi.nonempty hrun hs)
        searching := nofun }
      rcases mem_mergeProbed hr with hr | hr
      · exact hi.healthy r hr
      · exact hi.searching candidates hc _ hr
  next => cases h

theorem inv_step (hsecure : conf.secureOnly = true) (hsec : conf.Secured) (hi : Inv conf s)
    (a : Act) (h : step S conf s a = some s') : Inv conf s' := by
  cases a with
  | build checks => exact inv_build hi hsecure h
  | bootstrap env => exact inv_bootstrap hi hsec h
  | query payload subnet preferDoh => exact inv_query hi h
  | search fetched => exact inv_search hi hsecure h
  | probed checks => exact inv_probed hi h

theorem inv_reach (hsecure : conf.secureOnly = true) (hsec : conf.Secured)
    (h : (machine S conf).Reach s) : Inv conf s := by
  refine Machine.ReachBy.invariant (P := Inv conf) ?_ ?_ h
  · exact {
      secureOnly := hsecure
      healthy := fun r hr => absurd hr List.not_mem_nil
      nonempty := fun hrun => absurd hrun id
      relays := nofun
      searching := nofun
      sent := fun r hr => absurd hr List.not_mem_nil
      calm := nofun }
  · intro s a s' hi _ hs
    exact inv_step hsecure hsec hi a hs

/-- With an accepted secure configuration, whatever the probes, the fetched
lists and the replies are, the picker only yields authenticated resolvers, they
are asked over an authenticated transport, and `pick` is never called without
one to give. -/
theorem secure_mode_fails_closed (S : UnstableSort) (conf : Conf) (hsecure : conf.secureOnly = true)
    (hvalid : conf.validate = .ok ()) {s : Server} (h : (machine S conf).Reach s) :
    (∀ preferDoh, ∀ r ∈ s.picker.candidates S preferDoh, isSecureResolver r.addr = true) ∧
      (∀ resolver, s.picker.pick = .ok resolver → isSecureResolver resolver = true) ∧
      (∀ request ∈ s.sent, Authenticated request) ∧
      ∀ message, s.phase ≠ .panicked message := by
  have hi := inv_reach hsecure ((Conf.validate_ok hsecure).mp hvalid) h
  refine ⟨fun preferDoh r hr => hi.healthy r (ResolverPicker.mem_candidates hr).1,
    fun resolver hp => ?_, hi.sent, hi.calm⟩
  obtain ⟨r, hr, -, rfl⟩ := ResolverPicker.eligible_of_pick hp
  exact hi.healthy r hr

/-- Every probe is answered, in the order of the list. -/
def answeredChecks : HealthChecks where
  probes resolvers := resolvers.map fun r => ⟨r, some r.length, 0⟩
  probed resolvers := by
    rw [Probe.map_resolver fun r => some r.length]

/-- Plain UDP and DoH are configured, and a relay to look up. -/
def sampleConf : Conf where
  dropList := []
  redirectList := []
  resolvers := ["8.8.8.8:53".toList, "https://d".toList]
  secureOnly := true
  resolverSearching := ⟨true, ["https://list".toList], true, true⟩
  relayConf := ⟨true, true, 5, [⟨[], "https://r".toList, .direct⟩]⟩

/-- The lookup of the relay is answered with one address. -/
def sampleEnv : RelayEnv where
  host := .ok ['r']
  txid := (0, 0)
  reply := .ok (addressResponse [192, 0, 2, 1])
  client := .ok ()
  key := .ok ()
  text := fun _ => []

/-- Start, look up the relay and find a DoQ resolver. -/
def sampleRun : List Act :=
  [.build answeredChecks, .bootstrap sampleEnv,
    .search [["9.9.9.9:53".toList, "quic://q".toList]], .probed answeredChecks]

theorem secure_mode_fails_closed_after_search :
    ∃ s, (machine .insertion sampleConf).Reach s ∧ s.sent.length = 1 ∧
      (s.picker.candidates .insertion true).length = 2 ∧
      (∀ r ∈ s.picker.candidates .insertion true, isSecureResolver r.addr = true) ∧
      ∀ request ∈ s.sent, Authenticated request := by
  have hrun : ((machine .insertion sampleConf).run (machine .insertion sampleConf).init
      sampleRun).any (fun s => s.sent.length == 1 &&
        (s.picker.candidates .insertion true).length == 2) = true := by decide +kernel
  cases hs : (machine .insertion sampleConf).run (machine .insertion sampleConf).init sampleRun with
  | none =>
      rw [hs] at hrun
      cases hrun
  | some s =>
      rw [hs, Option.any_some, Bool.and_eq_true, beq_iff_eq, beq_iff_eq] at hrun
      have hreach := Machine.reach_of_run hs
      obtain ⟨hcand, -, hsent, -⟩ :=
        secure_mode_fails_closed .insertion sampleConf rfl (by decide) hreach
      exact ⟨s, hreach, hrun.1, hrun.2, hcand true, hsent⟩

end Server

end DnsRelay
