import DnsRelay.Relay.Transport

/-!
# What a hedged lookup returns

A lookup has one or two attempts, a hedge timer and a deadline.
`Hedge.Explained` says what must have happened for a lookup to be at a point, and
so where its result comes from.

A lookup returns the first usable packet that an attempt has got.  It fails
without the deadline only when every attempt has failed.  A failed attempt leaves
the other one running, and the second one is not asked as long as the first one
is in time.
-/

namespace DnsRelay

open Lib

/-! ## Attempts -/

inductive Attempt where
  | primary
  | secondary
deriving DecidableEq, Repr

namespace Attempt

def event : Attempt → Except Error Bytes → HedgeEvent
  | .primary, reply => .primary reply
  | .secondary, reply => .secondary reply

section Ends

variable (lookup : Lookup) (second : Option Resolver)

def candidate : Attempt → Option Resolver
  | .primary => some lookup.primary
  | .secondary => second

/-- An event ends an attempt with a result. -/
def Ends (attempt : Attempt) (result : Except Error Bytes) (event : Nat × HedgeEvent) : Prop :=
  ∃ resolver reply, attempt.candidate lookup second = some resolver ∧
    event.2 = attempt.event reply ∧ resolveCandidate lookup resolver.addr reply = result

/-- An attempt has failed. -/
def Failed (attempt : Attempt) (events : List (Nat × HedgeEvent)) : Prop :=
  ∃ event ∈ events, ∃ e, attempt.Ends lookup second (.error e) event

end Ends

end Attempt

namespace Hedge

def running : Hedge → List Attempt
  | .alone | .first _ | .primaryLeft => [.primary]
  | .fallback _ | .secondaryLeft _ => [.secondary]
  | .both _ => [.primary, .secondary]
  | .finished _ => []

/-- Whether the second candidate has been asked and the lookup still waits. -/
def asksSecondary : Hedge → Bool
  | .fallback _ | .both _ | .secondaryLeft _ | .primaryLeft => true
  | .alone | .first _ | .finished _ => false

/-! ## Where a lookup stands -/

section Runs

variable {lookup : Lookup} {second : Option Resolver} {events : List (Nat × HedgeEvent)}
  {event : Nat × HedgeEvent} {point point' : Hedge} {attempt : Attempt}
  {result : Except Error Bytes}

/-- What has happened when a lookup is at a point. -/
def Explained (lookup : Lookup) (second : Option Resolver) (events : List (Nat × HedgeEvent)) :
    Hedge → Prop
  | .alone => second = none
  | .first secondary | .both secondary => second = some secondary
  | .fallback secondary | .secondaryLeft secondary =>
      second = some secondary ∧ Attempt.primary.Failed lookup second events
  | .primaryLeft => Attempt.secondary.Failed lookup second events
  | .finished (.ok packet) =>
      ∃ attempt : Attempt, ∃ event ∈ events, attempt.Ends lookup second (.ok packet) event
  | .finished (.error e) =>
      e = .resolveTimeout ∨
        ∀ attempt : Attempt, attempt.candidate lookup second ≠ none →
          attempt.Failed lookup second events

theorem failed_concat (h : attempt.Failed lookup second events) (event : Nat × HedgeEvent) :
    attempt.Failed lookup second (events ++ [event]) := by
  obtain ⟨old, hold, hends⟩ := h
  exact ⟨old, List.mem_append_left _ hold, hends⟩

theorem failed_of_ends {e : Error} (h : attempt.Ends lookup second (.error e) event) :
    attempt.Failed lookup second (events ++ [event]) :=
  ⟨event, List.mem_append_right _ (List.mem_singleton_self _), e, h⟩

/-- A lookup may end with the result of an attempt when the other one has
failed. -/
theorem explained_finished (hends : attempt.Ends lookup second result event)
    (hother : ∀ other, other ≠ attempt → other.candidate lookup second ≠ none →
      other.Failed lookup second events) :
    Explained lookup second (events ++ [event]) (.finished result) := by
  cases result with
  | ok packet => exact ⟨attempt, event, List.mem_append_right _ (List.mem_singleton_self _), hends⟩
  | error e =>
      refine .inr fun other hcandidate => ?_
      by_cases heq : other = attempt
      · exact heq ▸ failed_of_ends hends
      · exact failed_concat (hother other heq hcandidate) event

/-- A lookup goes on only when an attempt has failed. -/
theorem explained_orElse {next : Hedge} (hends : attempt.Ends lookup second result event)
    (hnext : attempt.Failed lookup second (events ++ [event]) →
      Explained lookup second (events ++ [event]) next) :
    Explained lookup second (events ++ [event]) (orElse result next) := by
  cases result with
  | ok packet => exact ⟨attempt, event, List.mem_append_right _ (List.mem_singleton_self _), hends⟩
  | error e => exact hnext (failed_of_ends hends)

theorem explained_step (h : Explained lookup second events point)
    (hmove : Move lookup point event point') :
    Explained lookup second (events ++ [event]) point' := by
  cases hmove with
  | alone =>
      refine @explained_finished _ _ _ _ .primary _ ⟨_, _, rfl, rfl, rfl⟩ fun other hne hcand => ?_
      cases other with
      | primary => exact absurd rfl hne
      | secondary => exact absurd h hcand
  | primaryLast =>
      refine @explained_finished _ _ _ _ .primary _ ⟨_, _, rfl, rfl, rfl⟩ fun other hne _ => ?_
      cases other with
      | primary => exact absurd rfl hne
      | secondary => exact h
  | first => exact @explained_orElse _ _ _ _ .primary _ _ ⟨_, _, rfl, rfl, rfl⟩ fun hf => ⟨h, hf⟩
  | primary => exact @explained_orElse _ _ _ _ .primary _ _ ⟨_, _, rfl, rfl, rfl⟩ fun hf => ⟨h, hf⟩
  | secondary => exact @explained_orElse _ _ _ _ .secondary _ _ ⟨_, _, h, rfl, rfl⟩ fun hf => hf
  | fallback | secondaryLast =>
      refine @explained_finished _ _ _ _ .secondary _ ⟨_, _, h.1, rfl, rfl⟩ fun other hne _ => ?_
      cases other with
      | primary => exact h.2
      | secondary => exact absurd rfl hne
  | hedge => exact h
  | deadline => exact .inl rfl

theorem explained_run (hrun : (hedgeMachine lookup second).run (hedgeMachine lookup second).init
    events = some point) : Explained lookup second events point := by
  induction events using List.reverseRecOn generalizing point with
  | nil =>
      cases hrun
      cases second with
      | none => rfl
      | some secondary => rfl
  | append_singleton events event ih =>
      rw [Machine.run_append] at hrun
      obtain ⟨before, hbefore, hlast⟩ := Option.bind_eq_some_iff.mp hrun
      obtain ⟨after, hstep, hafter⟩ := Option.bind_eq_some_iff.mp hlast
      cases hafter
      exact explained_step (ih hbefore) (move_of_step hstep)

/-! ## Successes and failures -/

/-- What the end of an attempt does.  An attempt that runs alone ends the lookup,
and before another one it does so only by a success. -/
theorem move_of_ends (h : Explained lookup second events point)
    (hmove : Move lookup point event point') (hends : attempt.Ends lookup second result event) :
    (point.running = [attempt] ∧ point' = .finished result) ∨
      ∃ next : Hedge, point' = orElse result next ∧
        ∀ other ∈ point.running, other ≠ attempt → other ∈ next.running := by
  obtain ⟨resolver, reply, hcand, hevent, rfl⟩ := hends
  cases attempt with
  | primary =>
      obtain rfl := Option.some.inj hcand
      cases hmove with
      | alone | primaryLast =>
          cases hevent
          exact .inl ⟨rfl, rfl⟩
      | first | primary =>
          cases hevent
          exact .inr ⟨_, rfl, by simp [running]⟩
      | secondary | fallback | secondaryLast | hedge | deadline => cases hevent
  | secondary =>
      cases hmove with
      | secondary =>
          cases hevent
          obtain rfl := Option.some.inj (h.symm.trans hcand)
          exact .inr ⟨_, rfl, by simp [running]⟩
      | fallback | secondaryLast =>
          cases hevent
          obtain rfl := Option.some.inj (h.1.symm.trans hcand)
          exact .inl ⟨rfl, rfl⟩
      | alone | primaryLast | first | primary | hedge | deadline => cases hevent

theorem finished_of_ends (h : Explained lookup second events point)
    (hmove : Move lookup point event point') {packet : Bytes}
    (hends : attempt.Ends lookup second (.ok packet) event) : point' = .finished (.ok packet) := by
  rcases move_of_ends h hmove hends with ⟨-, hlast⟩ | ⟨next, hnext, -⟩
  · exact hlast
  · exact hnext

/-- A failure leaves the other attempt running. -/
theorem running_of_ends (h : Explained lookup second events point)
    (hmove : Move lookup point event point') {e : Error}
    (hends : attempt.Ends lookup second (.error e) event) :
    ∀ other ∈ point.running, other ≠ attempt → other ∈ point'.running := by
  rcases move_of_ends h hmove hends with ⟨halone, -⟩ | ⟨next, rfl, hkept⟩
  · intro other hother hne
    rw [halone] at hother
    exact absurd (List.mem_singleton.mp hother) hne
  · exact hkept

theorem run_finished (hrun : (hedgeMachine lookup second).run (.finished result) events =
    some point) : events = [] ∧ point = .finished result := by
  cases events with
  | nil =>
      cases hrun
      exact ⟨rfl, rfl⟩
  | cons event events =>
      obtain ⟨point', hstep, -⟩ := Option.bind_eq_some_iff.mp hrun
      have hmove : Move lookup (.finished result) event point' := move_of_step hstep
      cases hmove with
      | deadline hrunning => exact absurd rfl (hrunning result)

/-- A lookup in which an attempt has got a usable packet returns it. -/
theorem run_of_ends (hrun : (hedgeMachine lookup second).run (hedgeMachine lookup second).init
    events = some point) (hmem : event ∈ events) {packet : Bytes}
    (hends : attempt.Ends lookup second (.ok packet) event) : point = .finished (.ok packet) := by
  obtain ⟨before, after, mid, next, rfl, hbefore, hstep, hafter⟩ := Machine.run_split hrun hmem
  obtain rfl := finished_of_ends (explained_run hbefore) (move_of_step hstep) hends
  exact (run_finished hafter).2

/-! ## In time -/

/-- The first attempt does not run again. -/
theorem primary_not_running (hrun : (hedgeMachine lookup second).run point events = some point')
    (h : Attempt.primary ∉ point.running) : Attempt.primary ∉ point'.running := by
  induction events generalizing point with
  | nil =>
      cases hrun
      exact h
  | cons event events ih =>
      obtain ⟨next, hstep, hrest⟩ := Option.bind_eq_some_iff.mp hrun
      refine ih hrest ?_
      cases move_of_step hstep with
      | alone | primaryLast | first | primary | secondary | hedge =>
          exact absurd List.mem_cons_self h
      | fallback | secondaryLast | deadline => exact List.not_mem_nil

theorem hedgeDelay_lt_resolveTimeout (rtt : Nat) : hedgeDelay rtt < resolveTimeout := by
  rw [hedgeDelay, resolveTimeout, fromMillis, fromMillis, fromSecs]
  omega

/-- Before the timer fires only the first attempt can end. -/
theorem primary_ended (hmove : Move lookup (hedgeMachine lookup second).init event point')
    (htime : event.1 < hedgeDelay lookup.primary.latency) : Attempt.primary ∉ point'.running := by
  have hdeadline := hedgeDelay_lt_resolveTimeout lookup.primary.latency
  generalize hinit : (hedgeMachine lookup second).init = point at hmove
  have hstart : point = .alone ∨ ∃ secondary, point = .first secondary := by
    rw [← hinit]
    cases second with
    | none => exact .inl rfl
    | some secondary => exact .inr ⟨secondary, rfl⟩
  cases hmove with
  | alone => exact List.not_mem_nil
  | first =>
      cases resolveCandidate lookup lookup.primary.addr _ with
      | ok packet => exact List.not_mem_nil
      | error e => simp [orElse, running]
  | hedge hdelay => exact absurd hdelay (Nat.not_le_of_lt htime)
  | deadline _ hpassed => exact absurd hpassed (Nat.not_le_of_lt (htime.trans hdeadline))
  | primaryLast | primary | secondary | fallback | secondaryLast => simp at hstart

theorem primary_running {reply : Except Error Bytes} (hmove : Move lookup point event point')
    (hevent : event.2 = .primary reply) : Attempt.primary ∈ point.running := by
  cases hmove with
  | alone | primaryLast | first | primary => exact List.mem_cons_self
  | secondary | fallback | secondaryLast | hedge | deadline => cases hevent

/-- A first attempt that succeeds in time is all that happens. -/
theorem events_of_primary (hclock : events.Pairwise fun a b => a.1 ≤ b.1)
    (hrun : (hedgeMachine lookup second).run (hedgeMachine lookup second).init events = some point)
    (hmem : event ∈ events) {packet : Bytes}
    (hends : Attempt.primary.Ends lookup second (.ok packet) event)
    (htime : event.1 < hedgeDelay lookup.primary.latency) : events = [event] := by
  obtain ⟨before, after, mid, next, rfl, hbefore, hstep, hafter⟩ := Machine.run_split hrun hmem
  have hmove : Move lookup mid event next := move_of_step hstep
  cases before with
  | nil =>
      obtain rfl := finished_of_ends (explained_run hbefore) hmove hends
      rw [(run_finished hafter).1]
      rfl
  | cons early before =>
      -- an earlier event would have ended the first attempt
      obtain ⟨point1, hstep1, hbefore⟩ := Option.bind_eq_some_iff.mp hbefore
      have hearly : early.1 ≤ event.1 :=
        List.rel_of_pairwise_cons hclock (List.mem_append_right _ List.mem_cons_self)
      have hgone := primary_not_running hbefore
        (primary_ended (move_of_step hstep1) (by omega))
      obtain ⟨resolver, reply, -, hevent, -⟩ := hends
      exact absurd (primary_running hmove hevent) hgone

end Runs

end Hedge

theorem ResolverPicker.resolvePacket_eq_some {S : UnstableSort} {picker : ResolverPicker}
    {preferDoh : Bool} {primary : Resolver} {rest : List Resolver}
    (hcands : picker.candidates S preferDoh = primary :: rest) {payload : Bytes}
    {subnet : Option Ipv4Subnet} {events : List (Nat × HedgeEvent)}
    {result : Except Error Bytes} :
    let M := hedgeMachine ⟨payload, subnet, primary, picker.secureOnly⟩ rest.head?
    picker.resolvePacketForSubnet S payload subnet preferDoh events = some result ↔
      M.run M.init events = some (.finished result) := by
  simp only [resolvePacketForSubnet, hcands]
  constructor
  · intro h
    split at h
    · next result' hrun =>
        cases h
        exact hrun
    · cases h
  · intro h
    rw [h]

/-- A lookup returns the usable packet that an attempt has got, and nothing else.
It returns an error other than the timeout only when every attempt has failed.  A
failed attempt leaves the other one running.  A second candidate is not asked
when the first one succeeds before the timer fires. -/
theorem hedged_resolution_correct {S : UnstableSort} {picker : ResolverPicker}
    {preferDoh : Bool} {primary : Resolver} {rest : List Resolver}
    (hcands : picker.candidates S preferDoh = primary :: rest) (payload : Bytes)
    (subnet : Option Ipv4Subnet) (events : List (Nat × HedgeEvent)) :
    let lookup : Lookup := ⟨payload, subnet, primary, picker.secureOnly⟩
    let second := rest.head?
    let M := hedgeMachine lookup second
    let returned := picker.resolvePacketForSubnet S payload subnet preferDoh events
    (∀ packet, returned = some (.ok packet) → isUsableResponse packet picker.secureOnly = true ∧
      ∃ attempt : Attempt, ∃ event ∈ events, attempt.Ends lookup second (.ok packet) event) ∧
    (∀ point, M.run M.init events = some point → ∀ (attempt : Attempt) (packet : Bytes),
      ∀ event ∈ events, attempt.Ends lookup second (.ok packet) event →
        returned = some (.ok packet)) ∧
    (∀ e, returned = some (.error e) → e ≠ .resolveTimeout → ∀ attempt : Attempt,
      attempt.candidate lookup second ≠ none → attempt.Failed lookup second events) ∧
    (∀ before event after, events = before ++ event :: after → ∀ point point',
      M.run M.init before = some point → M.step point event = some point' →
      ∀ (attempt : Attempt) (e : Error), attempt.Ends lookup second (.error e) event →
        ∀ other ∈ point.running, other ≠ attempt → other ∈ point'.running) ∧
    (∀ point, M.run M.init events = some point → (events.Pairwise fun a b => a.1 ≤ b.1) →
      ∀ event ∈ events, ∀ packet, Attempt.primary.Ends lookup second (.ok packet) event →
        event.1 < hedgeDelay primary.latency →
        ∀ front, front <+: events → ∀ mid, M.run M.init front = some mid →
          mid.asksSecondary = false) := by
  intro lookup second M returned
  have hreturned : ∀ result, returned = some result ↔
      M.run M.init events = some (.finished result) :=
    fun _ => ResolverPicker.resolvePacket_eq_some hcands
  refine ⟨?_, ?_, ?_, ?_, ?_⟩
  · intro packet h
    exact ⟨ResolverPicker.resolvePacket_usable h, Hedge.explained_run ((hreturned _).mp h)⟩
  · intro point hrun attempt packet event hmem hends
    obtain rfl := Hedge.run_of_ends hrun hmem hends
    exact (hreturned _).mpr hrun
  · intro e h hne
    exact (Hedge.explained_run ((hreturned _).mp h)).resolve_left hne
  · intro before event after _ point point' hrun hstep attempt e hends
    exact Hedge.running_of_ends (Hedge.explained_run hrun) (Hedge.move_of_step hstep) hends
  · intro point hrun hclock event hmem packet hends htime front hfront mid hmid
    have hpoint := Hedge.run_of_ends hrun hmem hends
    obtain rfl := Hedge.events_of_primary hclock hrun hmem hends htime
    cases List.prefix_cons_iff.mp hfront with
    | inl hnone =>
        rw [hnone] at hmid
        obtain rfl := Option.some.inj hmid
        cases rest with
        | nil => rfl
        | cons secondary rest => rfl
    | inr hall =>
        obtain ⟨later, rfl, hlater⟩ := hall
        rw [List.prefix_nil.mp hlater] at hmid
        obtain rfl := Option.some.inj (hmid.symm.trans hrun)
        rw [hpoint]
        rfl

/-- The first candidate answers with a sinkhole, and the second one in its
place. -/
theorem hedged_resolution_correct_sinkhole :
    let picker : ResolverPicker := ⟨[⟨"https://a".toList, 1⟩, ⟨"https://b".toList, 2⟩], true⟩
    let packet := addressResponse [192, 0, 2, 1]
    let events : List (Nat × HedgeEvent) :=
      [(0, .primary (.ok (addressResponse [0, 0, 0, 0]))), (1, .secondary (.ok packet))]
    picker.resolvePacketForSubnet .insertion [] none false events = some (.ok packet) ∧
      isUsableResponse packet true = true := by
  intro picker packet events
  have hcands : picker.candidates .insertion false =
    [⟨"https://a".toList, 1⟩, ⟨"https://b".toList, 2⟩] := by decide
  have hreturned : picker.resolvePacketForSubnet .insertion [] none false events =
      some (.ok packet) := by decide
  exact ⟨hreturned, ((hedged_resolution_correct hcands [] none events).1 packet hreturned).1⟩

end DnsRelay
