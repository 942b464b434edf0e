import DnsRelay.Relay.Provenance

/-!
# When a lookup fails

A leader whose lookup fails serves what is left in the cache, and SERVFAIL when
nothing is.  `cache_lookup_stale` passes over an entry that is still fresh.  A
caller can lead although there is one: it looked into the cache before the
entry was stored and joined after the flight that stored it was over.

`Led` says which calls own their flights.  `Serving` follows a response from
the leader to all that reply with it.  `failure_serves_cached_iff` says when a
failure hides an answer of the cache.
-/

namespace DnsRelay

open Lib

/-- The flight that a call owns and has not published to. -/
def Stage.leads : Stage → Option Nat
  | .resolving l _ | .publishing l _ => some l
  | .keyed _ | .missed _ | .following _ | .sent _ _ | .done _ | .cancelled => none

def Stage.returned : Stage → Bool
  | .done _ => true
  | .keyed _ | .missed _ | .following _ | .resolving _ _ | .publishing _ _ | .sent _ _
  | .cancelled => false

def Stage.unanswered : Stage → Bool
  | .keyed _ | .missed _ | .following _ | .resolving _ _ => true
  | .publishing _ _ | .sent _ _ | .done _ | .cancelled => false

/-- A cached packet as it may be served at a time. -/
def servedPacket (entry : CacheEntry) (now : Nat) : Option Bytes :=
  agedPacket entry now (decide (entry.freshUntil ≤ now))

namespace Handler

variable {U : CaseTable} {S : UnstableSort} {M : EvictingMap CacheKey CacheEntry}
  {secureOnly : Bool} {s s' : Handler M}

/-! ## Calls that lead -/

/-- Every call that leads owns a flight, and no two calls own the same. -/
structure Led (s : Handler M) : Prop where
  held : ∀ (i : Nat) (call : Call) (l : Nat), s.calls[i]? = some call →
    call.stage.leads = some l → ∃ key, s.flights.leaders l = some ⟨key, .held⟩
  owner : ∀ (i j : Nat) (call call' : Call) (l : Nat), s.calls[i]? = some call →
    s.calls[j]? = some call' → call.stage.leads = some l → call'.stage.leads = some l → i = j

/-- The owners stay as they are when no call begins to lead and the flights of
those that still do are held. -/
theorem Led.keep (h : Led s)
    (hcalls : ∀ (i : Nat) (call : Call) (l : Nat), s'.calls[i]? = some call →
      call.stage.leads = some l → ∃ call', s.calls[i]? = some call' ∧ call'.stage.leads = some l)
    (hheld : ∀ (i : Nat) (call : Call) (l : Nat) (key : CacheKey), s'.calls[i]? = some call →
      call.stage.leads = some l → s.flights.leaders l = some ⟨key, .held⟩ →
      s'.flights.leaders l = some ⟨key, .held⟩) : Led s' where
  held i call l hcall hl := by
    obtain ⟨call0, hcall0, hl0⟩ := hcalls i call l hcall hl
    obtain ⟨key, hkey⟩ := h.held i call0 l hcall0 hl0
    exact ⟨key, hheld i call l key hcall hl hkey⟩
  owner i j call call' l hi hj hl hl' := by
    obtain ⟨call0, hi0, hl0⟩ := hcalls i call l hi hl
    obtain ⟨call1, hj0, hl1⟩ := hcalls j call' l hj hl'
    exact h.owner i j call0 call1 l hi0 hj0 hl0 hl1

/-- One call goes on.  It leads what it led or nothing, and the flights are
held that it does not give up. -/
theorem Led.move (h : Led s) {i : Nat} {q : Query} {stage stage' : Stage}
    (found : s.calls[i]? = some ⟨q, stage⟩)
    (hstage : ∀ l, stage'.leads = some l → stage.leads = some l)
    (hcalls : s'.calls = s.calls.set i ⟨q, stage'⟩)
    (hheld : ∀ l key, s.flights.leaders l = some ⟨key, .held⟩ →
      (stage.leads = some l → stage'.leads = some l) →
      s'.flights.leaders l = some ⟨key, .held⟩) : Led s' := by
  have hcases : ∀ {j : Nat} {call : Call}, s'.calls[j]? = some call →
      (j = i ∧ call = ⟨q, stage'⟩) ∨ (j ≠ i ∧ s.calls[j]? = some call) := by
    intro j call hj
    rw [hcalls] at hj
    exact getElem?_set_cases hj
  refine h.keep (fun j call l hj hl => ?_) (fun j call l key hj hl hkey => ?_)
  · obtain ⟨rfl, rfl⟩ | ⟨-, hj⟩ := hcases hj
    · exact ⟨_, found, hstage l hl⟩
    · exact ⟨call, hj, hl⟩
  · refine hheld l key hkey fun hlead => ?_
    obtain ⟨rfl, rfl⟩ | ⟨hne, hj⟩ := hcases hj
    · exact hl
    · exact absurd (h.owner j i call _ l hj found hl hlead) hne

theorem Led.lead (h : Led s) (hi : InFlightQueries.Inv s.flights) {i : Nat} {q : Query} {k : Keyed}
    (found : s.calls[i]? = some ⟨q, .missed k⟩) (hnone : s.flights.entries k.key = none)
    (hcalls : s'.calls = s.calls.set i ⟨q, .resolving s.flights.nextFlight k⟩)
    (hflights : s'.flights = (s.flights.join k.key).1) : Led s' := by
  have hcases : ∀ {j : Nat} {call : Call}, s'.calls[j]? = some call →
      (j = i ∧ call = ⟨q, .resolving s.flights.nextFlight k⟩) ∨
        (j ≠ i ∧ s.calls[j]? = some call) := by
    intro j call hj
    rw [hcalls] at hj
    exact getElem?_set_cases hj
  -- the flights of the others have numbers already
  have hlt : ∀ {j : Nat} {call : Call} {l : Nat}, s.calls[j]? = some call →
      call.stage.leads = some l → l < s.flights.nextFlight := by
    intro j call l hj hl
    obtain ⟨key, hkey⟩ := h.held j call l hj hl
    exact hi.leader_lt hkey
  have hleaders : s'.flights.leaders =
      Function.update s.flights.leaders s.flights.nextFlight (some ⟨k.key, .held⟩) := by
    rw [hflights, InFlightQueries.join, hnone]
  refine ⟨fun j call l hj hl => ?_, fun j j' call call' l hj hj' hl hl' => ?_⟩
  · rw [hleaders]
    obtain ⟨rfl, rfl⟩ | ⟨-, hj⟩ := hcases hj
    · cases hl
      exact ⟨k.key, Function.update_self ..⟩
    · rw [Function.update_of_ne (Nat.ne_of_lt (hlt hj hl))]
      exact h.held j call l hj hl
  · obtain ⟨rfl, rfl⟩ | ⟨-, hj⟩ := hcases hj
    · obtain ⟨rfl, rfl⟩ | ⟨-, hj'⟩ := hcases hj'
      · rfl
      · cases hl
        exact absurd (hlt hj' hl') (Nat.lt_irrefl _)
    · obtain ⟨rfl, rfl⟩ | ⟨-, hj'⟩ := hcases hj'
      · cases hl'
        exact absurd (hlt hj hl) (Nat.lt_irrefl _)
      · exact h.owner j j' call call' l hj hj' hl hl'

theorem openQuery_leads (relayPicker : Option RelayPicker) (q : Query) :
    (openQuery U relayPicker q).leads = none := by
  obtain hopen | ⟨_, -, hopen⟩ | ⟨_, _, _, -, hopen⟩ | ⟨k, -, hopen⟩ :=
    openQuery_cases U relayPicker q
  all_goals
    rw [hopen]
    rfl

theorem looked_leads (q : Query) (k : Keyed) (cached : Option Bytes) :
    (looked q k cached).leads = none := by
  cases cached with
  | none => rfl
  | some packet => rfl

theorem led_step (hi : Inv secureOnly s) (h : Led s) {a : Act}
    (hs : step U S secureOnly s a = some s') : Led s' := by
  have hf := InFlightQueries.inv_reach hi.flights
  have hnone : ∀ {stage stage' : Stage}, stage'.leads = none →
      ∀ l, stage'.leads = some l → stage.leads = some l := by
    intro stage stage' hleads l hl
    rw [hleads] at hl
    cases hl
  cases step_move hs with
  | @query q =>
      refine h.keep (fun j call l hj hl => ?_) (fun j call l key _ _ hkey => hkey)
      by_cases hlt : j < s.calls.length
      · rw [List.getElem?_append_left hlt] at hj
        exact ⟨call, hj, hl⟩
      · rw [List.getElem?_append_right (Nat.le_of_not_lt hlt)] at hj
        have hcall := List.mem_singleton.mp (List.mem_of_getElem? hj)
        rw [hcall, openQuery_leads] at hl
        cases hl
  | @lookup i now q k found =>
      exact h.move found (hnone (looked_leads ..)) rfl fun l key hkey _ => hkey
  | @join i q k found =>
      cases hentry : s.flights.entries k.key with
      | none =>
          refine h.lead hf found hentry ?_ rfl
          simp only [setStage, InFlightQueries.join, hentry, joined]
      | some l =>
          have hstage : joined k (s.flights.join k.key).2 =
              .following s.flights.followers.length := by
            simp only [InFlightQueries.join, hentry, joined]
          rw [hstage]
          refine h.move found (hnone rfl) rfl fun l' key hkey _ => ?_
          exact InFlightQueries.held_step (a := .join k.key) hf hkey rfl
            (Option.some_ne_none _).symm
  | respond found resolved response =>
      refine h.move found ?_ rfl fun l key hkey _ => hkey
      exact fun l hl => hl
  | @giveUp i now healthy preferDoh net q l k result flights found resolved response dropped =>
      refine h.move found (hnone rfl) rfl fun l' key hkey hgiven => ?_
      refine InFlightQueries.held_step hf hkey dropped fun hd => ?_
      cases hgiven hd
  | @send i q l reply flights found published =>
      refine h.move found (hnone rfl) rfl fun l' key hkey hgiven => ?_
      refine InFlightQueries.held_step hf hkey published fun hd => ?_
      cases hgiven hd
  | finish found gone => exact h.move found (hnone rfl) rfl fun l key hkey _ => hkey
  | answer found returned => exact h.move found (hnone rfl) rfl fun l key hkey _ => hkey
  | cancel _ _ _ =>
      obtain ⟨q, stage, flights, found, heq, hdrop⟩ := cancel_cases hs
      rw [heq]
      refine h.move found (hnone rfl) rfl fun l key hkey hgiven => ?_
      obtain ⟨f, rfl, hdrop⟩ | ⟨l', k, rfl, hdrop⟩ := hdrop
      · exact InFlightQueries.held_step hf hkey hdrop (Option.some_ne_none _).symm
      · refine InFlightQueries.held_step hf hkey hdrop fun hd => ?_
        cases hgiven hd
  | @flight a flights own moved =>
      refine h.keep (fun j call l hj hl => ⟨call, hj, hl⟩) fun j call l key _ _ hkey => ?_
      refine InFlightQueries.held_step hf hkey moved ?_
      rw [InFlightQueries.Act.releases_of_ofHandle own]
      exact (Option.some_ne_none _).symm
  | rediscover => exact h
  | discover relayed => exact ⟨h.held, h.owner⟩
  | clear => exact ⟨h.held, h.owner⟩

theorem led_reach {relayPicker : Option RelayPicker}
    (h : (machine U S M secureOnly relayPicker).Reach s) : Inv secureOnly s ∧ Led s := by
  refine Machine.ReachBy.invariant (P := fun s => Inv secureOnly s ∧ Led s) ?_ ?_ h
  · have hinit : (machine U S M secureOnly relayPicker).Reach (new M relayPicker) := .init
    refine ⟨inv_reach hinit, fun i call l hcall => ?_, fun i j call call' l hcall => ?_⟩
    · cases hcall
    · cases hcall
  · intro s a s' hi _ hs
    exact ⟨inv_step hi.1 hs, led_step hi.1 hi.2 hs⟩

/-! ## From the leader to its followers -/

/-- A response on its way: its call is about to publish it, or has published it
and replies with it. -/
inductive Serving (s : Handler M) (i : Nat) (q : Query) (l : Nat) (reply : Reply) : Prop where
  | publishing (call : s.calls[i]? = some ⟨q, .publishing l reply⟩)
      (unpublished : s.flights.published l = none)
  | published (call : s.calls[i]? = some ⟨q, .sent l reply⟩ ∨
        s.calls[i]? = some ⟨q, .done (some (reply.withTxid q.reqTxid))⟩)
      (packet : s.flights.published l = some reply.packet) (origin : s.origins l = reply.source)

/-- Where the call of the response is. -/
theorem Serving.exists_call {i l : Nat} {q : Query} {reply : Reply} (h : Serving s i q l reply) :
    ∃ stage, s.calls[i]? = some ⟨q, stage⟩ ∧ (stage = .publishing l reply ∨
      stage = .sent l reply ∨ stage = .done (some (reply.withTxid q.reqTxid))) := by
  cases h with
  | publishing call unpublished => exact ⟨_, call, .inl rfl⟩
  | published call packet origin =>
      obtain call | call := call
      · exact ⟨_, call, .inr (.inl rfl)⟩
      · exact ⟨_, call, .inr (.inr rfl)⟩

theorem Serving.ne_of_unanswered {i j l : Nat} {q q' : Query} {reply : Reply} {stage : Stage}
    (h : Serving s i q l reply) (found : s.calls[j]? = some ⟨q', stage⟩)
    (hstage : stage.unanswered = true) : i ≠ j := by
  rintro rfl
  obtain ⟨stage', call, hcases⟩ := h.exists_call
  rw [call] at found
  cases found
  obtain rfl | rfl | rfl := hcases
  all_goals cases hstage

theorem Serving.congr {i l : Nat} {q : Query} {reply : Reply} (h : Serving s i q l reply)
    (hcall : s'.calls[i]? = s.calls[i]?) (hpublished : s'.flights.published = s.flights.published)
    (horigins : s'.origins = s.origins) : Serving s' i q l reply := by
  cases h with
  | publishing call unpublished =>
      exact .publishing (hcall.trans call) (by rw [hpublished, unpublished])
  | published call packet origin =>
      refine .published ?_ (by rw [hpublished, packet]) (by rw [horigins, origin])
      rw [hcall]
      exact call

theorem getElem?_setStage_ne {i j : Nat} (hne : i ≠ j) (q : Query) (stage : Stage) :
    (s.setStage j q stage).calls[i]? = s.calls[i]? := List.getElem?_set_ne (Ne.symm hne)

theorem getElem?_setStage_self {i : Nat} {q q' : Query} {stage : Stage}
    (found : s.calls[i]? = some ⟨q, stage⟩) (stage' : Stage) :
    (s.setStage i q' stage').calls[i]? = some ⟨q', stage'⟩ :=
  List.getElem?_set_self (List.getElem?_eq_some_iff.mp found).1

/-- A send goes to the flight of the sender. -/
theorem Serving.send {i j l l' : Nat} {q q' : Query} {reply reply' : Reply}
    {flights : InFlightQueries} (hi : Inv secureOnly s) (hled : Led s)
    (h : Serving s i q l reply) (found : s.calls[j]? = some ⟨q', .publishing l' reply'⟩)
    (published : s.flights.step (.publishSend l' reply'.packet) = some flights) :
    Serving ({ s with
      flights := flights
      origins := Function.update s.origins l' reply'.source }.setStage j q' (.sent l' reply'))
      i q l reply := by
  have hpub := InFlightQueries.published_publishSend published
  by_cases hij : i = j
  · subst hij
    cases h with
    | publishing call unpublished =>
        rw [call] at found
        cases found
        refine .published (.inl (getElem?_setStage_self call _)) ?_ (Function.update_self ..)
        show flights.published l = _
        rw [hpub, Function.update_self]
    | published call packet origin =>
        obtain call | call := call
        · rw [call] at found
          cases found
        · rw [call] at found
          cases found
  · -- the other call owns another flight
    have hl : l ≠ l' := by
      rintro rfl
      cases h with
      | publishing call unpublished =>
          exact hij (hled.owner i j _ _ l call found rfl rfl)
      | published call packet origin =>
          obtain ⟨key, hheld⟩ := hled.held j _ l found rfl
          rw [(InFlightQueries.inv_reach hi.flights).held l key hheld] at packet
          cases packet
    have hpub' : flights.published l = s.flights.published l := by
      rw [hpub, Function.update_of_ne hl]
    have hcall := getElem?_setStage_ne (s := { s with
      flights := flights
      origins := Function.update s.origins l' reply'.source }) hij q' (.sent l' reply')
    cases h with
    | publishing call unpublished =>
        exact .publishing (hcall.trans call) (hpub'.trans unpublished)
    | published call packet origin =>
        refine .published ?_ (hpub'.trans packet) ((Function.update_of_ne hl ..).trans origin)
        rw [hcall]
        exact call

/-- Every step keeps the response on its way. -/
theorem serving_step {i l : Nat} {q : Query} {reply : Reply} (hi : Inv secureOnly s) (hled : Led s)
    (h : Serving s i q l reply) {a : Act} (hs : step U S secureOnly s a = some s') :
    Serving s' i q l reply := by
  have hsilent : ∀ {a : InFlightQueries.Act} {flights : InFlightQueries},
      s.flights.step a = some flights → (∀ l packet, a ≠ .publishSend l packet) →
      flights.published = s.flights.published :=
    fun hstep ha => InFlightQueries.published_step hstep ha
  cases step_move hs with
  | query =>
      refine h.congr ?_ rfl rfl
      obtain ⟨stage, call, -⟩ := h.exists_call
      exact List.getElem?_append_left (List.getElem?_eq_some_iff.mp call).1
  | lookup found =>
      exact h.congr (getElem?_setStage_ne (h.ne_of_unanswered found rfl) _ _) rfl rfl
  | @join j q' k found =>
      refine h.congr (getElem?_setStage_ne (h.ne_of_unanswered found rfl) _ _) ?_ rfl
      exact hsilent (a := .join k.key) rfl (fun _ _ ha => by cases ha)
  | respond found resolved response =>
      exact h.congr (getElem?_setStage_ne (h.ne_of_unanswered found rfl) _ _) rfl rfl
  | giveUp found resolved response dropped =>
      refine h.congr (getElem?_setStage_ne (h.ne_of_unanswered found rfl) _ _) ?_ rfl
      exact hsilent dropped (fun _ _ ha => by cases ha)
  | send found published => exact h.send hi hled found published
  | @finish j q' l' reply' found gone =>
      by_cases hij : i = j
      · subst hij
        cases h with
        | publishing call unpublished =>
            rw [call] at found
            cases found
        | published call packet origin =>
            refine .published (.inr ?_) packet origin
            obtain call | call := call
            · rw [call] at found
              cases found
              exact getElem?_setStage_self call _
            · rw [call] at found
              cases found
      · exact h.congr (getElem?_setStage_ne hij _ _) rfl rfl
  | answer found returned =>
      exact h.congr (getElem?_setStage_ne (h.ne_of_unanswered found rfl) _ _) rfl rfl
  | cancel _ dropped drops =>
      obtain ⟨q', stage, flights, found, heq, hdrop⟩ := cancel_cases hs
      have hstage : stage.unanswered = true := by
        obtain ⟨f, rfl, -⟩ | ⟨l', k, rfl, -⟩ := hdrop
        · rfl
        · rfl
      rw [heq]
      refine h.congr (getElem?_setStage_ne (h.ne_of_unanswered found hstage) _ _) ?_ rfl
      obtain ⟨f, -, hdrop⟩ | ⟨l', k, -, hdrop⟩ := hdrop
      · exact hsilent hdrop (fun _ _ ha => by cases ha)
      · exact hsilent hdrop (fun _ _ ha => by cases ha)
  | @flight a flights own moved =>
      refine h.congr rfl (hsilent moved fun l packet ha => ?_) rfl
      rw [ha] at own
      cases own
  | rediscover => exact h
  | discover relayed => exact h.congr rfl rfl rfl
  | clear => exact h.congr rfl rfl rfl

/-- A leader that is about to publish can do so and reply. -/
theorem deliver (U : CaseTable) (S : UnstableSort) (secureOnly : Bool)
    (relayPicker : Option RelayPicker) {i l : Nat} {q : Query} {reply : Reply}
    {key : CacheKey} (found : s.calls[i]? = some ⟨q, .publishing l reply⟩)
    (hheld : s.flights.leaders l = some ⟨key, .held⟩) :
    ∃ s', (machine U S M secureOnly relayPicker).run s
        [.send i, .flight (.publishRemove l), .flight (.dropFields l), .finish i] = some s' ∧
      s'.calls[i]? = some ⟨q, .done (some (reply.withTxid q.reqTxid))⟩ := by
  obtain ⟨f1, f2, f3, hsend, hremove, hdrop, hgone⟩ :=
    InFlightQueries.publish_run hheld reply.packet
  let s1 : Handler M := { s with
    flights := f1
    origins := Function.update s.origins l reply.source }.setStage i q (.sent l reply)
  have hs1 : step U S secureOnly s (.send i) = some s1 := by
    have hsend' : s.flights.publishSend l reply.packet = some f1 := hsend
    simp only [step, found, hsend']
    rfl
  have hs2 : step U S secureOnly s1 (.flight (.publishRemove l)) =
      some { s1 with flights := f2 } := by
    have hremove' : s1.flights.step (.publishRemove l) = some f2 := hremove
    simp only [step, InFlightQueries.Act.ofHandle, if_true, hremove', Option.map_some]
  have hs3 : step U S secureOnly { s1 with flights := f2 } (.flight (.dropFields l)) =
      some { s1 with flights := f3 } := by
    simp only [step, InFlightQueries.Act.ofHandle, if_true, hdrop, Option.map_some]
  have hcall : s1.calls[i]? = some ⟨q, .sent l reply⟩ := getElem?_setStage_self found _
  have hs4 : step U S secureOnly { s1 with flights := f3 } (.finish i) =
      some ({ s1 with flights := f3 }.setStage i q (.done (some (reply.withTxid q.reqTxid)))) := by
    simp only [step, hcall, hgone, if_true]
  refine ⟨_, ?_, getElem?_setStage_self (s := { s1 with flights := f3 }) hcall _⟩
  simp only [Machine.run, machine, hs1, hs2, hs3, hs4, Option.bind_some]

/-! ## What a failure hides -/

/-- The replies of a flight: the one of its leader, and those that its
followers give next. -/
inductive Replies (U : CaseTable) (S : UnstableSort) (secureOnly : Bool) (s : Handler M)
    (i l : Nat) : Query → Reply → Prop where
  | leader {q : Query} {reply : Reply} (found : s.calls[i]? = some ⟨q, .done (some reply)⟩) :
      Replies U S secureOnly s i l q reply
  | follower {j f : Nat} {q : Query} {x : FlightFollower} {s' : Handler M} {reply : Reply}
      (found : s.calls[j]? = some ⟨q, .following f⟩) (follows : s.flights.followers[f]? = some x)
      (flight : x.flight = l) (answers : step U S secureOnly s (.answer j) = some s')
      (replied : s'.calls[j]? = some ⟨q, .done (some reply)⟩) :
      Replies U S secureOnly s i l q reply

/-- The leader does not end without a reply, and all replies of its flight are
the given packet and no SERVFAIL made here. -/
def ServesPacket (U : CaseTable) (S : UnstableSort) (secureOnly : Bool) (s : Handler M)
    (i l : Nat) (packet : Bytes) : Prop :=
  (∀ q, s.calls[i]? ≠ some ⟨q, .done none⟩) ∧
    ∀ q reply, Replies U S secureOnly s i l q reply →
      reply.packet = withTxid packet q.reqTxid ∧ reply.source ≠ .servfail

/-- What is on its way is what is replied. -/
theorem Serving.replies {i l : Nat} {q q' : Query} {reply reply' : Reply}
    (hi : Inv secureOnly s) (h : Serving s i q l reply)
    (hreply : Replies U S secureOnly s i l q' reply') : reply' = reply.withTxid q'.reqTxid := by
  cases hreply with
  | leader found =>
      obtain ⟨stage, call, hcases⟩ := h.exists_call
      rw [call] at found
      cases found
      obtain hstage | hstage | hstage := hcases
      · cases hstage
      · cases hstage
      · cases hstage
        rfl
  | @follower j f _ x s1 _ found follows flight answers replied =>
      subst flight
      cases step_move answers with
      | @answer _ q1 f1 l1 seen packet1 found1 returned =>
          rw [found1] at found
          cases found
          rw [returned] at follows
          cases follows
          rw [getElem?_setStage_self found1] at replied
          cases packet1 with
          | none => cases replied
          | some packet1 =>
              have htook := InFlightQueries.tookPublished_reach hi.flights _
                (List.mem_of_getElem? returned) packet1 rfl
              cases h with
              | publishing call unpublished =>
                  rw [unpublished] at htook
                  cases htook
              | published call packet origin =>
                  rw [packet] at htook
                  cases htook
                  cases replied
                  simp only [origin]

/-- The response to a failure, when the cache has an entry that may be served. -/
theorem respond_error {cache : M.State} {now : Nat} {q : Query} {k : Keyed} {e : Error}
    {entry : CacheEntry} {packet : Bytes} (hfind : M.find cache k.key = some entry)
    (husable : now < entry.staleUntil) (hserved : servedPacket entry now = some packet) :
    (respond cache now q k (.error e)).2 =
      if entry.freshUntil ≤ now then some ⟨packet, .stale⟩
      else (craftServfailResponse q.payload).map (⟨·, .servfail⟩) := by
  have hlive : ¬entry.staleUntil ≤ now := Nat.not_le.mpr husable
  by_cases hfresh : entry.freshUntil ≤ now
  · have haged : agedPacket entry now true = some packet := by
      rwa [servedPacket, decide_eq_true hfresh] at hserved
    have hlook : (cacheLookupStale M cache now k.key).2 = some packet :=
      cacheLookupStale_eq_some.mpr ⟨entry, hfind, hfresh, husable, haged⟩
    simp only [respond, hlook, if_pos hfresh]
  · have hlook : (cacheLookupStale M cache now k.key).2 = none := by
      simp only [cacheLookupStale, hfind, if_neg hlive, if_pos (Nat.lt_of_not_le hfresh)]
    simp only [respond, hlook, if_neg hfresh]

section Resolve

variable {i now l : Nat} {healthy : List Resolver} {preferDoh : Bool} {net : Network} {q : Query}
  {k : Keyed} {result : Except Error Bytes}

/-- A leader that has a response is about to publish it. -/
theorem resolve_serving (U : CaseTable) (hi : Inv secureOnly s) (hled : Led s)
    (found : s.calls[i]? = some ⟨q, .resolving l k⟩)
    (resolved : resolveTransport S k.domain q.payload k.effectiveSubnet preferDoh
      ⟨healthy, secureOnly⟩ s.relayPicker.isSome net = some result)
    {reply : Reply} (response : (respond s.cache now q k result).2 = some reply) :
    ∃ s1 key, step U S secureOnly s (.resolve i now healthy preferDoh net) = some s1 ∧
      s1.calls[i]? = some ⟨q, .publishing l (reply.withTxid (0, 0))⟩ ∧
      s1.flights.leaders l = some ⟨key, .held⟩ ∧
      Serving s1 i q l (reply.withTxid (0, 0)) := by
  obtain ⟨key, hheld⟩ := hled.held i _ l found rfl
  have hcall : ({ s with cache := (respond s.cache now q k result).1 }.setStage i q
      (.publishing l (reply.withTxid (0, 0)))).calls[i]? =
      some ⟨q, .publishing l (reply.withTxid (0, 0))⟩ := getElem?_setStage_self found _
  refine ⟨_, key, ?_, hcall, hheld, .publishing hcall ?_⟩
  · simp only [step, found, resolved, Option.bind_some, conclude, response]
  · exact (InFlightQueries.inv_reach hi.flights).held l key hheld

theorem resolve_gives_up (U : CaseTable) (hled : Led s)
    (found : s.calls[i]? = some ⟨q, .resolving l k⟩)
    (resolved : resolveTransport S k.domain q.payload k.effectiveSubnet preferDoh
      ⟨healthy, secureOnly⟩ s.relayPicker.isSome net = some result)
    (response : (respond s.cache now q k result).2 = none) :
    ∃ s1, step U S secureOnly s (.resolve i now healthy preferDoh net) = some s1 ∧
      s1.calls[i]? = some ⟨q, .done none⟩ := by
  obtain ⟨key, hheld⟩ := hled.held i _ l found rfl
  have hdrop : s.flights.dropRemove l =
      some ((s.flights.removeEntry key).setLeader l (some ⟨key, .unlinked⟩)) := by
    rw [InFlightQueries.dropRemove, hheld]
  refine ⟨_, ?_, getElem?_setStage_self (s := { s with
    cache := (respond s.cache now q k result).1
    flights := (s.flights.removeEntry key).setLeader l (some ⟨key, .unlinked⟩) }) found _⟩
  simp only [step, found, resolved, Option.bind_some, conclude, response, hdrop, Option.map_some]

end Resolve

/-- What is on its way from the cache is served. -/
theorem Serving.servesPacket {i l : Nat} {q : Query} {packet : Bytes} (hi : Inv secureOnly s)
    (h : Serving s i q l (Reply.withTxid ⟨packet, .stale⟩ (0, 0))) :
    ServesPacket U S secureOnly s i l packet := by
  refine ⟨fun q' hdone => ?_, fun q' reply hreply => ?_⟩
  · obtain ⟨stage, call, hcases⟩ := h.exists_call
    rw [call] at hdone
    cases hdone
    obtain hstage | hstage | hstage := hcases
    all_goals cases hstage
  · rw [h.replies hi hreply]
    exact ⟨withTxid_withTxid packet (0, 0) q'.reqTxid, fun hsource => by cases hsource⟩

/-- A lookup fails while the cache has an entry that may be served.  All replies
of the flight are this entry, whatever happens next, iff the entry is stale. -/
theorem failure_serves_cached_iff (U : CaseTable) (S : UnstableSort)
    (M : EvictingMap CacheKey CacheEntry) (secureOnly : Bool) (relayPicker : Option RelayPicker)
    {s : Handler M} (h : (machine U S M secureOnly relayPicker).Reach s) {i now l : Nat}
    {healthy : List Resolver} {preferDoh : Bool} {net : Network} {q : Query} {k : Keyed}
    {e : Error} {entry : CacheEntry} {packet : Bytes}
    (found : s.calls[i]? = some ⟨q, .resolving l k⟩)
    (failed : resolveTransport S k.domain q.payload k.effectiveSubnet preferDoh
      ⟨healthy, secureOnly⟩ s.relayPicker.isSome net = some (.error e))
    (hfind : M.find s.cache k.key = some entry) (husable : now < entry.staleUntil)
    (hserved : servedPacket entry now = some packet) :
    (∀ acts s', (machine U S M secureOnly relayPicker).run s
        (.resolve i now healthy preferDoh net :: acts) = some s' →
      ServesPacket U S secureOnly s' i l packet) ↔ entry.freshUntil ≤ now := by
  obtain ⟨hi, hled⟩ := led_reach h
  have hresponse := respond_error (q := q) (e := e) hfind husable hserved
  constructor
  · intro hall
    by_contra hfresh
    rw [if_neg hfresh] at hresponse
    cases hcraft : craftServfailResponse q.payload with
    | none =>
        rw [hcraft] at hresponse
        obtain ⟨s1, hs1, hdone⟩ := resolve_gives_up U hled found failed hresponse
        have hrun : (machine U S M secureOnly relayPicker).run s
            [.resolve i now healthy preferDoh net] = some s1 :=
          Machine.run_cons hs1 rfl
        exact (hall [] s1 hrun).1 q hdone
    | some servfail =>
        rw [hcraft] at hresponse
        obtain ⟨s1, key, hs1, hcall, hheld, -⟩ := resolve_serving U hi hled found failed hresponse
        obtain ⟨s2, hrun, hdone⟩ := deliver U S secureOnly relayPicker hcall hheld
        have hall' := hall _ s2 (Machine.run_cons hs1 hrun)
        exact (hall'.2 q _ (.leader hdone)).2 rfl
  · intro hfresh acts s' hrun
    rw [if_pos hfresh] at hresponse
    obtain ⟨s1, key, hs1, -, -, hserving⟩ := resolve_serving U hi hled found failed hresponse
    obtain ⟨s1', hs1', hrun⟩ := Option.bind_eq_some_iff.mp hrun
    obtain rfl : s1 = s1' := Option.some.inj (hs1.symm.trans hs1')
    have hreach := h.next _ hs1'
    have hend : Serving s' i q l (Reply.withTxid ⟨packet, .stale⟩ (0, 0)) := by
      refine Machine.Reach.run_keeps (P := fun s => Serving s i q l _) ?_ hreach hserving hrun
      intro t a t' ht hserving hs
      obtain ⟨hi, hled⟩ := led_reach ht
      exact serving_step hi hled hserving hs
    exact hend.servesPacket (inv_reach (hreach.run hrun))

def sampleResolvers : List Resolver := [⟨"https://a".toList, 1⟩, ⟨"https://b".toList, 2⟩]

def deadNetwork : Network := ⟨fun _ _ => none, [(resolveTimeout, .deadline)]⟩

/-- Two callers miss the cache.  The first one leads, stores the answer and is
done before the second one joins. -/
def overlapRun : List Act :=
  [.query sampleQuery, .lookup 0 0, .query sampleQuery, .lookup 1 0, .join 0,
    .resolve 0 1 sampleResolvers false sampleNetwork, .send 0, .flight (.publishRemove 0),
    .flight (.dropFields 0), .finish 0, .join 1]

def overlapKeyed : Keyed := ⟨['a'], none, ⟨['a'], 1, 1, 1, false, none⟩⟩

def overlapEntry : CacheEntry :=
  newEntry 1 (fromSecs 60) (addressResponse [192, 0, 2, 1])

/-- The second caller leads and the entry is in the cache. -/
theorem overlap_reach :
    let M := EvictingMap.recent CacheKey CacheEntry (cacheCapacity - 1)
    ∃ s q, (machine .ascii .insertion M true none).run (new M none) overlapRun = some s ∧
      s.calls[1]? = some ⟨q, .resolving 1 overlapKeyed⟩ ∧ q.payload = sampleQuery.payload ∧
      M.find s.cache overlapKeyed.key = some overlapEntry ∧ s.relayPicker = none := by
  intro M
  have hrun : ((machine .ascii .insertion M true none).run (new M none) overlapRun).any
      (fun s => (s.calls[1]?.any fun call => decide (call.stage = .resolving 1 overlapKeyed ∧
          call.query.payload = sampleQuery.payload)) &&
        decide (M.find s.cache overlapKeyed.key = some overlapEntry ∧ s.relayPicker = none)) =
      true := by decide +kernel
  obtain ⟨s, hs, hfacts⟩ := (Option.any_eq_true _ _).mp hrun
  rw [Bool.and_eq_true, decide_eq_true_iff] at hfacts
  obtain ⟨hcall, hfind, hrelay⟩ := hfacts
  obtain ⟨⟨q, stage⟩, hc, hcall⟩ := (Option.any_eq_true _ _).mp hcall
  obtain ⟨rfl, hpayload⟩ := of_decide_eq_true hcall
  exact ⟨s, q, hs, hc, hpayload, hfind, hrelay⟩

theorem dead_lookup_fails {payload : Bytes} (hpayload : payload = sampleQuery.payload)
    {relayPicker : Option RelayPicker} (hrelay : relayPicker = none) :
    resolveTransport .insertion overlapKeyed.domain payload overlapKeyed.effectiveSubnet false
      ⟨sampleResolvers, true⟩ relayPicker.isSome deadNetwork =
        some (.error .resolveTimeout) := by
  rw [hpayload, hrelay]
  decide +kernel

/-- The second caller fails when the answer is stale, and serves it. -/
theorem failure_serves_stale_answer :
    let M := EvictingMap.recent CacheKey CacheEntry (cacheCapacity - 1)
    ∃ s q packet, (machine .ascii .insertion M true none).run (new M none) overlapRun = some s ∧
      s.calls[1]? = some ⟨q, .resolving 1 overlapKeyed⟩ ∧
      servedPacket overlapEntry (fromSecs 100) = some packet ∧
      ∀ acts s', (machine .ascii .insertion M true none).run s
          (.resolve 1 (fromSecs 100) sampleResolvers false deadNetwork :: acts) = some s' →
        ServesPacket .ascii .insertion true s' 1 1 packet := by
  intro M
  obtain ⟨s, q, hrun, hcall, hpayload, hfind, hrelay⟩ := overlap_reach
  obtain ⟨packet, hserved⟩ : ∃ packet, servedPacket overlapEntry (fromSecs 100) = some packet :=
    Option.isSome_iff_exists.mp (by decide +kernel)
  have hfailed := dead_lookup_fails hpayload hrelay
  refine ⟨s, q, packet, hrun, hcall, hserved, ?_⟩
  exact (failure_serves_cached_iff .ascii .insertion M true none (Machine.reach_of_run hrun) hcall
    hfailed hfind (by decide) hserved).mpr (by decide)

/-- The first caller's answer is fresh, and the second caller gets SERVFAIL. -/
theorem fresh_answer_is_hidden :
    let M := EvictingMap.recent CacheKey CacheEntry (cacheCapacity - 1)
    ∃ s s' q packet servfail,
      (machine .ascii .insertion M true none).run (new M none) overlapRun = some s ∧
      s.calls[1]? = some ⟨q, .resolving 1 overlapKeyed⟩ ∧
      M.find s.cache overlapKeyed.key = some overlapEntry ∧ 2 < overlapEntry.staleUntil ∧
      servedPacket overlapEntry 2 = some packet ∧
      (machine .ascii .insertion M true none).run s
        [.resolve 1 2 sampleResolvers false deadNetwork, .send 1, .flight (.publishRemove 1),
          .flight (.dropFields 1), .finish 1] = some s' ∧
      craftServfailResponse q.payload = some servfail ∧
      s'.calls[1]? = some ⟨q, .done (some ⟨withTxid servfail q.reqTxid, .servfail⟩)⟩ := by
  intro M
  obtain ⟨s, q, hrun, hcall, hpayload, hfind, hrelay⟩ := overlap_reach
  obtain ⟨hi, hled⟩ := led_reach (Machine.reach_of_run hrun)
  obtain ⟨servfail, hcraft⟩ : ∃ servfail, craftServfailResponse q.payload = some servfail := by
    rw [hpayload]
    exact ⟨_, rfl⟩
  obtain ⟨packet, hserved⟩ : ∃ packet, servedPacket overlapEntry 2 = some packet := by
    exact Option.isSome_iff_exists.mp (by decide +kernel)
  have husable : 2 < overlapEntry.staleUntil := by decide
  have hresponse := respond_error (q := q) (e := .resolveTimeout) hfind husable hserved
  rw [if_neg (by decide), hcraft] at hresponse
  have hfailed := dead_lookup_fails hpayload hrelay
  obtain ⟨s1, key, hs1, hcall1, hheld, -⟩ :=
    resolve_serving .ascii hi hled hcall hfailed hresponse
  obtain ⟨s2, hrun2, hdone⟩ := deliver .ascii .insertion true none hcall1 hheld
  refine ⟨s, s2, q, packet, servfail, hrun, hcall, hfind, husable, hserved, ?_, hcraft, ?_⟩
  · exact Machine.run_cons hs1 hrun2
  · rw [hdone]
    simp only [Reply.withTxid, withTxid_withTxid]

end Handler

end DnsRelay
