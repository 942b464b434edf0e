import DnsRelay.Relay.InFlight

/-!
# The channels of queries in flight

`Inv` ties the map, the leaders and the channels together.  Every entry belongs
to one leader that has not removed it.  Senders and receivers are counted
right, so a channel is closed when its leader is gone, and a send is heard when
somebody listens.  `inv_reach` carries it through all runs.
-/

namespace DnsRelay

open Lib

/-- What stands in a list after one item was replaced. -/
theorem getElem?_set_cases {α : Type} {xs : List α} {i j : Nat} {x y : α}
    (h : (xs.set i x)[j]? = some y) : (j = i ∧ y = x) ∨ (j ≠ i ∧ xs[j]? = some y) := by
  rw [List.getElem?_set] at h
  split at h
  next heq =>
    split at h
    · cases h
      exact .inl ⟨heq.symm, rfl⟩
    · cases h
  next hne => exact .inr ⟨Ne.symm hne, h⟩

namespace InFlightQueries

/-! ## The invariant of the channels -/

def listening (s : InFlightQueries) (l : Nat) : Nat :=
  s.followers.countP fun x => x.flight == l && x.live

/-- The senders of a flight: one of the leader and one of the entry. -/
def senderCount : Option FlightLeader → Nat
  | none => 0
  | some ⟨_, .unlinked⟩ => 1
  | some ⟨_, .held⟩ | some ⟨_, .sent⟩ => 2

/-- What holds of the map, the leaders and the channels in every state. -/
structure Inv (s : InFlightQueries) : Prop where
  entry : ∀ k l, s.entries k = some l → ∃ stage, s.leaders l = some ⟨k, stage⟩ ∧ stage ≠ .unlinked
  linked : ∀ l k stage, s.leaders l = some ⟨k, stage⟩ → stage ≠ .unlinked → s.entries k = some l
  senders : ∀ l, (s.chans l).senders = senderCount (s.leaders l)
  receivers : ∀ l, (s.chans l).receivers = s.listening l
  value : ∀ l, ((s.chans l).value = none ∧ (s.chans l).version = 0) ∨
    ∃ packet, s.published l = some packet ∧ (s.chans l).value = some packet ∧
      (s.chans l).version = 1
  held : ∀ l k, s.leaders l = some ⟨k, .held⟩ → s.published l = none
  sent : ∀ l k, s.leaders l = some ⟨k, .sent⟩ → s.published l ≠ none
  fresh : ∀ l, s.nextFlight ≤ l → s.leaders l = none ∧ s.published l = none
  flight_lt : ∀ x ∈ s.followers, x.flight < s.nextFlight

theorem inv_new : Inv new where
  entry _ _ h := nomatch h
  linked _ _ _ h := nomatch h
  senders _ := rfl
  receivers _ := rfl
  value _ := .inl ⟨rfl, rfl⟩
  held _ _ h := nomatch h
  sent _ _ h := nomatch h
  fresh _ _ := ⟨rfl, rfl⟩
  flight_lt _ h := nomatch h

variable {s : InFlightQueries}

theorem Inv.leader_lt (h : Inv s) {l : Nat} {ld : FlightLeader} (hl : s.leaders l = some ld) :
    l < s.nextFlight := by
  by_contra hge
  have := (h.fresh l (by omega)).1
  rw [hl] at this
  cases this

theorem Inv.published_of_value (h : Inv s) {l : Nat} {packet : Bytes}
    (hv : (s.chans l).value = some packet) : s.published l = some packet := by
  rcases h.value l with ⟨hnone, -⟩ | ⟨q, hpub, hq, -⟩
  · rw [hnone] at hv
    cases hv
  · rw [hq] at hv
    cases hv
    exact hpub

theorem listening_next (h : Inv s) : s.listening s.nextFlight = 0 := by
  rw [listening, List.countP_eq_zero]
  intro x hx
  have := h.flight_lt x hx
  simp only [Bool.and_eq_true, beq_iff_eq, not_and]
  omega

/-- Replacing a follower of the same flight that stays alive counts alike. -/
theorem listening_setFollower {f : Nat} {x y : FlightFollower} (hf : s.followers[f]? = some x)
    (hflight : y.flight = x.flight) (hlive : y.live = x.live) (l : Nat) :
    (s.setFollower f y).listening l = s.listening l := by
  obtain ⟨hlt, hx⟩ := List.getElem?_eq_some_iff.mp hf
  have hpos : (if (x.flight == l && x.live) = true then 1 else 0) ≤
      s.followers.countP fun x => x.flight == l && x.live := by
    split
    · next hp => exact List.countP_pos_iff.mpr ⟨x, List.mem_of_getElem? hf, hp⟩
    · exact Nat.zero_le _
  rw [listening, setFollower, List.countP_set hlt, hx, hflight, hlive, listening]
  omega

/-- A follower that ends leaves one listener less, in its own flight. -/
theorem listening_endFollower {f : Nat} {x : FlightFollower} (hf : s.followers[f]? = some x)
    (hlive : x.live = true) {stage : FollowerStage}
    (hstage : ({ x with stage := stage } : FlightFollower).live = false) (l : Nat) :
    (s.endFollower f x stage).listening l = s.listening l - if x.flight = l then 1 else 0 := by
  obtain ⟨hlt, hx⟩ := List.getElem?_eq_some_iff.mp hf
  rw [listening, endFollower, setFollower]
  show List.countP _ (s.followers.set f _) = _
  rw [List.countP_set hlt, hx, hstage, hlive, listening]
  simp

/-- An operation on a channel that keeps a part of it keeps it everywhere. -/
theorem onChan_congr {β : Type} (part : Watch (Option Bytes) → β) {l : Nat}
    {f : Watch (Option Bytes) → Watch (Option Bytes)} (hf : part (f (s.chans l)) = part (s.chans l))
    (l' : Nat) : part ((s.onChan l f).chans l') = part (s.chans l') := by
  simp only [onChan, Function.update_apply]
  split
  · next heq => rw [heq, hf]
  · rfl

theorem inv_follow (h : Inv s) {k : CacheKey} {l : Nat} (hk : s.entries k = some l) :
    Inv { s.onChan l Watch.subscribe with
      followers := s.followers ++ [⟨l, (s.chans l).version, .borrow⟩] } where
  entry := h.entry
  linked := h.linked
  senders l' := (onChan_congr Watch.senders rfl l').trans (h.senders l')
  receivers l' := by
    show (Function.update s.chans l (s.chans l).subscribe l').receivers =
      List.countP _ (s.followers ++ _)
    have hl' := h.receivers l'
    rw [listening] at hl'
    rw [List.countP_append, ← hl', Function.update_apply]
    by_cases heq : l' = l
    · subst heq
      simp [FlightFollower.live]
    · simp [heq, Ne.symm heq]
  value l' := by
    have hvalue := onChan_congr (s := s) Watch.value (l := l) (f := Watch.subscribe) rfl l'
    have hversion := onChan_congr (s := s) Watch.version (l := l) (f := Watch.subscribe) rfl l'
    simp only [hvalue, hversion]
    exact h.value l'
  held := h.held
  sent := h.sent
  fresh := h.fresh
  flight_lt x hx := by
    obtain ⟨stage, hl, -⟩ := h.entry k l hk
    rcases List.mem_append.mp hx with hx | hx
    · exact h.flight_lt x hx
    · rw [List.mem_singleton.mp hx]
      exact h.leader_lt hl

theorem inv_lead (h : Inv s) {k : CacheKey} (hk : s.entries k = none) : Inv (s.join k).1 := by
  have hnew := h.fresh s.nextFlight (Nat.le_refl _)
  have hne : ∀ l ld, s.leaders l = some ld → l ≠ s.nextFlight := by
    rintro l ld hl rfl
    rw [hnew.1] at hl
    cases hl
  rw [join, hk]
  constructor
  case entry =>
    intro k' l hl
    simp only [Function.update_apply] at hl ⊢
    split at hl
    · next heq =>
        obtain rfl := Option.some.inj hl
        exact ⟨.held, by rw [if_pos rfl, heq], by decide⟩
    · obtain ⟨stage, hl', hstage⟩ := h.entry k' l hl
      exact ⟨stage, by rwa [if_neg (hne l _ hl')], hstage⟩
  case linked =>
    intro l k' stage hl hstage
    simp only [Function.update_apply] at hl ⊢
    split at hl
    · next heq =>
        cases hl
        rw [if_pos rfl, heq]
    · have hlink := h.linked l k' stage hl hstage
      rw [if_neg, hlink]
      rintro rfl
      rw [hk] at hlink
      cases hlink
  case senders =>
    intro l
    simp only [Function.update_apply]
    split
    · rfl
    · exact h.senders l
  case receivers =>
    intro l
    simp only [Function.update_apply]
    split
    · next heq =>
        rw [heq]
        exact (listening_next h).symm
    · exact h.receivers l
  case value =>
    intro l
    simp only [Function.update_apply]
    split
    · exact .inl ⟨rfl, rfl⟩
    · exact h.value l
  case held =>
    intro l k' hl
    simp only [Function.update_apply] at hl
    split at hl
    · next heq =>
        rw [heq]
        exact hnew.2
    · exact h.held l k' hl
  case sent =>
    intro l k' hl
    simp only [Function.update_apply] at hl
    split at hl
    · cases hl
    · exact h.sent l k' hl
  case fresh =>
    intro l hl
    have hl' : s.nextFlight + 1 ≤ l := hl
    simp only [Function.update_apply]
    rw [if_neg (by omega)]
    exact h.fresh l (by omega)
  case flight_lt =>
    intro x hx
    exact Nat.lt_succ_of_lt (h.flight_lt x hx)

theorem inv_send (h : Inv s) {l : Nat} {k : CacheKey} (hl : s.leaders l = some ⟨k, .held⟩)
    (packet : Bytes) :
    Inv { (s.onChan l (·.send (some packet))).setLeader l (some ⟨k, .sent⟩) with
      published := Function.update s.published l (some packet) } := by
  have hlt := h.leader_lt hl
  constructor
  case entry =>
    intro k' l' hl'
    obtain ⟨stage, hld, hstage⟩ := h.entry k' l' hl'
    simp only [setLeader, onChan, Function.update_apply]
    split
    · next heq =>
        rw [heq, hl] at hld
        cases hld
        exact ⟨.sent, rfl, nofun⟩
    · exact ⟨stage, hld, hstage⟩
  case linked =>
    intro l' k' stage hld hstage
    simp only [setLeader, onChan, Function.update_apply] at hld ⊢
    split at hld
    · next heq =>
        cases hld
        rw [heq]
        exact h.linked l k .held hl nofun
    · exact h.linked l' k' stage hld hstage
  case senders =>
    intro l'
    refine (onChan_congr (s := s) (l := l) (f := (·.send (some packet))) Watch.senders
      (Watch.send_senders _ _) l').trans ?_
    simp only [setLeader, onChan, Function.update_apply]
    split
    · next heq =>
        rw [heq, h.senders, hl]
        rfl
    · exact h.senders l'
  case receivers =>
    intro l'
    exact (onChan_congr (s := s) (l := l) (f := (·.send (some packet))) Watch.receivers
      (Watch.send_receivers _ _) l').trans (h.receivers l')
  case value =>
    intro l'
    simp only [setLeader, onChan, Function.update_apply]
    split
    · have hpub := h.held l k hl
      rcases h.value l with hv | ⟨q, hq, -⟩
      · by_cases hr : (s.chans l).receivers = 0
        · rw [Watch.send_unheard _ hr]
          exact .inl hv
        · rw [Watch.send_heard _ hr]
          exact .inr ⟨packet, rfl, rfl, by simp [hv.2]⟩
      · rw [hpub] at hq
        cases hq
    · exact h.value l'
  case held =>
    intro l' k' hld
    simp only [setLeader, onChan, Function.update_apply] at hld ⊢
    split at hld
    · cases hld
    · next hne =>
        rw [if_neg hne]
        exact h.held l' k' hld
  case sent =>
    intro l' k' hld
    simp only [setLeader, onChan, Function.update_apply] at hld ⊢
    split
    · nofun
    · next hne =>
        rw [if_neg hne] at hld
        exact h.sent l' k' hld
  case fresh =>
    intro l' hl'
    have hl'' : s.nextFlight ≤ l' := hl'
    simp only [setLeader, onChan, Function.update_apply]
    rw [if_neg (by omega), if_neg (by omega)]
    exact h.fresh l' hl''
  case flight_lt => exact h.flight_lt

/-- A leader that still has its entry removes that one. -/
theorem removeEntry_linked (h : Inv s) {l : Nat} {k : CacheKey} {stage : LeaderStage}
    (hl : s.leaders l = some ⟨k, stage⟩) (hstage : stage ≠ .unlinked) :
    s.removeEntry k =
      { s.onChan l Watch.dropSender with entries := Function.update s.entries k none } := by
  rw [removeEntry, h.linked l k stage hl hstage]

/-- A leader gives up a sender, and all entries of its flight are gone. -/
theorem inv_dropSender (h : Inv s) {l : Nat} {ld : FlightLeader} {ld' : Option FlightLeader}
    {entries' : CacheKey → Option Nat} (hl : s.leaders l = some ld)
    (hcount : senderCount (some ld) = senderCount ld' + 1)
    (hdone : ∀ k stage, ld' = some ⟨k, stage⟩ → stage = .unlinked)
    (hentries : ∀ k l', entries' k = some l' ↔ l' ≠ l ∧ s.entries k = some l') :
    Inv { (s.onChan l Watch.dropSender).setLeader l ld' with entries := entries' } := by
  have hlt := h.leader_lt hl
  constructor
  case entry =>
    intro k' l' hk'
    obtain ⟨hne, hk⟩ := (hentries k' l').mp hk'
    simp only [setLeader, onChan, Function.update_apply]
    rw [if_neg hne]
    exact h.entry k' l' hk
  case linked =>
    intro l' k' stage hld hstage
    simp only [setLeader, onChan, Function.update_apply] at hld
    split at hld
    · exact absurd (hdone k' stage hld) hstage
    · next hne => exact (hentries k' l').mpr ⟨hne, h.linked l' k' stage hld hstage⟩
  case senders =>
    intro l'
    simp only [setLeader, onChan, Function.update_apply]
    split
    · rw [Watch.dropSender_senders, h.senders, hl, hcount, Nat.add_sub_cancel]
    · exact h.senders l'
  case receivers =>
    intro l'
    exact (onChan_congr (s := s) Watch.receivers rfl l').trans (h.receivers l')
  case value =>
    intro l'
    simp only [setLeader, onChan, Function.update_apply]
    split
    · next heq =>
        rw [heq]
        exact h.value l
    · exact h.value l'
  case held =>
    intro l' k' hld
    simp only [setLeader, onChan, Function.update_apply] at hld
    split at hld
    · exact nomatch hdone k' _ hld
    · exact h.held l' k' hld
  case sent =>
    intro l' k' hld
    simp only [setLeader, onChan, Function.update_apply] at hld
    split at hld
    · exact nomatch hdone k' _ hld
    · exact h.sent l' k' hld
  case fresh =>
    intro l' hl'
    have hl'' : s.nextFlight ≤ l' := hl'
    simp only [setLeader, onChan, Function.update_apply]
    rw [if_neg (by omega)]
    exact h.fresh l' hl''
  case flight_lt => exact h.flight_lt

theorem inv_unlink (h : Inv s) {l : Nat} {k : CacheKey} {stage : LeaderStage}
    (hl : s.leaders l = some ⟨k, stage⟩) (hstage : stage ≠ .unlinked) :
    Inv ((s.removeEntry k).setLeader l (some ⟨k, .unlinked⟩)) := by
  have hlink := h.linked l k stage hl hstage
  rw [removeEntry_linked h hl hstage]
  refine inv_dropSender h hl ?_ (fun _ _ heq => by cases heq; rfl) ?_
  · cases stage with
    | held | sent => rfl
    | unlinked => exact absurd rfl hstage
  · intro k' l'
    show Function.update s.entries k none k' = some l' ↔ _
    rw [Function.update_apply]
    split
    · next heq =>
        rw [heq, hlink]
        simp only [reduceCtorEq, Option.some.injEq, false_iff, not_and]
        exact fun hne heq' => hne heq'.symm
    · next hne =>
        refine ⟨fun hk' => ⟨?_, hk'⟩, fun hk' => hk'.2⟩
        rintro rfl
        obtain ⟨stage', hld, -⟩ := h.entry k' _ hk'
        rw [hl] at hld
        cases hld
        exact hne rfl

theorem inv_close (h : Inv s) {l : Nat} {k : CacheKey} (hl : s.leaders l = some ⟨k, .unlinked⟩) :
    Inv ((s.onChan l Watch.dropSender).setLeader l none) := by
  refine inv_dropSender h hl rfl nofun ?_
  intro k' l'
  refine ⟨fun hk' => ⟨?_, hk'⟩, fun hk' => hk'.2⟩
  rintro rfl
  obtain ⟨stage', hld, hstage'⟩ := h.entry k' _ hk'
  rw [hl] at hld
  cases hld
  exact hstage' rfl

/-- Replacing a follower by one of the same flight that is as alive. -/
theorem inv_setFollower (h : Inv s) {f : Nat} {x y : FlightFollower}
    (hf : s.followers[f]? = some x) (hflight : y.flight = x.flight) (hlive : y.live = x.live) :
    Inv (s.setFollower f y) where
  entry := h.entry
  linked := h.linked
  senders := h.senders
  receivers l := (h.receivers l).trans (listening_setFollower hf hflight hlive l).symm
  value := h.value
  held := h.held
  sent := h.sent
  fresh := h.fresh
  flight_lt z hz := by
    rcases List.mem_or_eq_of_mem_set hz with hz | rfl
    · exact h.flight_lt z hz
    · rw [hflight]
      exact h.flight_lt x (List.mem_of_getElem? hf)

theorem inv_endFollower (h : Inv s) {f : Nat} {x : FlightFollower} (hf : s.followers[f]? = some x)
    (hlive : x.live = true) {stage : FollowerStage}
    (hstage : ({ x with stage := stage } : FlightFollower).live = false) :
    Inv (s.endFollower f x stage) where
  entry := h.entry
  linked := h.linked
  senders l := (onChan_congr (s := s) Watch.senders rfl l).trans (h.senders l)
  receivers l := by
    rw [listening_endFollower hf hlive hstage, ← h.receivers]
    simp only [endFollower, setFollower, onChan, Function.update_apply]
    split
    · next heq => rw [heq, if_pos rfl, Watch.dropReceiver_receivers]
    · next hne => rw [if_neg (Ne.symm hne), Nat.sub_zero]
  value l := by
    simp only [endFollower, setFollower, onChan, Function.update_apply]
    split
    · next heq =>
        rw [heq]
        exact h.value x.flight
    · exact h.value l
  held := h.held
  sent := h.sent
  fresh := h.fresh
  flight_lt z hz := by
    rcases List.mem_or_eq_of_mem_set hz with hz | rfl
    · exact h.flight_lt z hz
    · exact h.flight_lt x (List.mem_of_getElem? hf)

theorem inv_step {s' : InFlightQueries} {a : Act} (h : Inv s) (hs : s.step a = some s') :
    Inv s' := by
  cases step_move hs with
  | lead hk => exact inv_lead h hk
  | follow hk => exact inv_follow h hk
  | send hl => exact inv_send h hl _
  | unlink hl hstage => exact inv_unlink h hl hstage
  | close hl => exact inv_close h hl
  | take hf _ => exact inv_endFollower h hf rfl rfl
  | sleep hf _ => exact inv_setFollower h hf rfl rfl
  | wake hf _ => exact inv_setFollower h hf rfl rfl
  | giveUp hf _ => exact inv_endFollower h hf rfl rfl
  | cancel hf hlive => exact inv_endFollower h hf hlive rfl

theorem inv_reach (h : machine.Reach s) : Inv s := by
  refine Machine.ReachBy.invariant inv_new ?_ h
  intro s a s' hi _ hs
  exact inv_step hi hs

/-! ## What followers return -/

@[simp] theorem removeEntry_followers (s : InFlightQueries) (k : CacheKey) :
    (s.removeEntry k).followers = s.followers := by
  rw [removeEntry]
  split <;> rfl

@[simp] theorem removeEntry_published (s : InFlightQueries) (k : CacheKey) :
    (s.removeEntry k).published = s.published := by
  rw [removeEntry]
  split <;> rfl

@[simp] theorem removeEntry_leaders (s : InFlightQueries) (k : CacheKey) :
    (s.removeEntry k).leaders = s.leaders := by
  rw [removeEntry]
  split <;> rfl

@[simp] theorem removeEntry_nextFlight (s : InFlightQueries) (k : CacheKey) :
    (s.removeEntry k).nextFlight = s.nextFlight := by
  rw [removeEntry]
  split <;> rfl

/-- A follower that has returned a packet has the one its leader published. -/
def TookPublished (s : InFlightQueries) : Prop :=
  ∀ x ∈ s.followers, ∀ packet, x.stage = .done (some packet) → s.published x.flight = some packet

theorem TookPublished.setFollower {s' : InFlightQueries} {f : Nat} {y : FlightFollower}
    (h : TookPublished s) (hfollowers : s'.followers = s.followers.set f y)
    (hpublished : s'.published = s.published)
    (hy : ∀ packet, y.stage = .done (some packet) → s.published y.flight = some packet) :
    TookPublished s' := by
  intro x hx packet hp
  rw [hfollowers] at hx
  rw [hpublished]
  rcases List.mem_or_eq_of_mem_set hx with hx | rfl
  · exact h x hx packet hp
  · exact hy packet hp

theorem tookPublished_step {s' : InFlightQueries} {a : Act} (hi : Inv s) (h : TookPublished s)
    (hs : s.step a = some s') : TookPublished s' := by
  cases step_move hs with
  | lead hk =>
      rw [join, hk]
      exact h
  | follow hk =>
      intro x hx packet hp
      rcases List.mem_append.mp hx with hx | hx
      · exact h x hx packet hp
      · rw [List.mem_singleton.mp hx] at hp
        cases hp
  | @send l k packet hl =>
      intro x hx p hp
      have hx' : x ∈ s.followers := hx
      have hold := h x hx' p hp
      -- The leader had not published, so this is another flight.
      have hne : x.flight ≠ l := by
        intro heq
        rw [heq, hi.held l k hl] at hold
        cases hold
      show Function.update s.published l (some packet) x.flight = some p
      rw [Function.update_of_ne hne, hold]
  | unlink hl hstage =>
      intro x hx p hp
      simp only [setLeader, removeEntry_followers, removeEntry_published] at hx ⊢
      exact h x hx p hp
  | close hl => exact h
  | @take f l seen packet hf hv =>
      refine h.setFollower rfl rfl fun p hp => ?_
      cases hp
      exact hi.published_of_value hv
  | sleep | wake | giveUp | cancel =>
      refine h.setFollower rfl rfl fun p hp => ?_
      cases hp

theorem tookPublished_reach (h : machine.Reach s) : TookPublished s := by
  have hboth : Inv s ∧ TookPublished s := by
    refine Machine.ReachBy.invariant (P := fun s => Inv s ∧ TookPublished s) ?_ ?_ h
    · exact ⟨inv_new, fun x hx => nomatch hx⟩
    · intro s a s' hi _ hs
      exact ⟨inv_step hi.1 hs, tookPublished_step hi.1 hi.2 hs⟩
  exact hboth.2

theorem published_publishSend {s' : InFlightQueries} {l : Nat} {packet : Bytes}
    (hs : s.step (.publishSend l packet) = some s') :
    s'.published = Function.update s.published l (some packet) := by
  simp only [step, publishSend] at hs
  split at hs
  · cases hs
    rfl
  · cases hs

/-- Only the send of `publish` changes what is published. -/
theorem published_step {s' : InFlightQueries} {a : Act} (hs : s.step a = some s')
    (ha : ∀ l packet, a ≠ .publishSend l packet) : s'.published = s.published := by
  cases step_move hs with
  | lead hk =>
      rw [join, hk]
  | send hl => exact absurd rfl (ha _ _)
  | unlink hl hstage => exact removeEntry_published s _
  | follow hk => rfl
  | close hl => rfl
  | take hf hv => rfl
  | sleep hf hv => rfl
  | wake hf hc => rfl
  | giveUp hf hc => rfl
  | cancel hf hlive => rfl

/-! ## Leaders that hold on -/

/-- The leader that lets go by a step: it sends, or it is dropped. -/
def Act.releases : Act → Option Nat
  | .publishSend l _ | .dropRemove l => some l
  | .join _ | .publishRemove _ | .dropFields _ | .borrow _ | .changed _ | .cancel _ => none

/-- A leader holds on until it sends or is dropped. -/
theorem held_step {s' : InFlightQueries} {a : Act} (hi : Inv s) {l : Nat} {k : CacheKey}
    (hl : s.leaders l = some ⟨k, .held⟩) (hs : s.step a = some s') (ha : a.releases ≠ some l) :
    s'.leaders l = some ⟨k, .held⟩ := by
  have hset : ∀ {l' : Nat} {ld : Option FlightLeader}, l' ≠ l →
      Function.update s.leaders l' ld l = some ⟨k, .held⟩ := by
    intro l' ld hne
    rw [Function.update_of_ne (Ne.symm hne)]
    exact hl
  cases a with
  | join key =>
      cases hs
      unfold join
      split
      · exact hl
      · exact hset (Nat.ne_of_gt (hi.leader_lt hl))
  | publishSend l' packet =>
      simp only [step, publishSend] at hs
      split at hs
      · cases hs
        exact hset fun heq => ha (congrArg some heq)
      · cases hs
  | dropRemove l' =>
      simp only [step, dropRemove] at hs
      split at hs
      · cases hs
        simp only [setLeader, removeEntry_leaders]
        exact hset fun heq => ha (congrArg some heq)
      · cases hs
  | publishRemove l' =>
      simp only [step, publishRemove] at hs
      split at hs
      next hsent =>
        cases hs
        simp only [setLeader, removeEntry_leaders]
        refine hset fun heq => ?_
        rw [heq, hl] at hsent
        cases hsent
      · cases hs
  | dropFields l' =>
      simp only [step, dropFields] at hs
      split at hs
      next hgone =>
        cases hs
        refine hset fun heq => ?_
        rw [heq, hl] at hgone
        cases hgone
      · cases hs
  | borrow f =>
      simp only [step, borrow] at hs
      split at hs
      · split at hs
        · cases hs
          exact hl
        · cases hs
          exact hl
      · cases hs
  | changed f =>
      simp only [step, changed] at hs
      split at hs
      · split at hs
        · cases hs
          exact hl
        · cases hs
          exact hl
        · cases hs
      · cases hs
  | cancel f =>
      simp only [step, cancel] at hs
      split at hs
      · split at hs
        · cases hs
          exact hl
        · cases hs
      · cases hs

/-- A leader that holds on can publish and end. -/
theorem publish_run {l : Nat} {k : CacheKey} (hl : s.leaders l = some ⟨k, .held⟩)
    (packet : Bytes) : ∃ s1 s2 s3, s.step (.publishSend l packet) = some s1 ∧
      s1.step (.publishRemove l) = some s2 ∧ s2.step (.dropFields l) = some s3 ∧
      s3.leaders l = none := by
  let s1 : InFlightQueries :=
    { (s.onChan l (·.send (some packet))).setLeader l (some ⟨k, .sent⟩) with
      published := Function.update s.published l (some packet) }
  let s2 := (s1.removeEntry k).setLeader l (some ⟨k, .unlinked⟩)
  let s3 := (s2.onChan l Watch.dropSender).setLeader l none
  have hl1 : s1.leaders l = some ⟨k, .sent⟩ := Function.update_self ..
  have hl2 : s2.leaders l = some ⟨k, .unlinked⟩ := Function.update_self ..
  refine ⟨s1, s2, s3, ?_, ?_, ?_, Function.update_self ..⟩
  · simp only [step, publishSend, hl]
    rfl
  · simp only [step, publishRemove, hl1]
    rfl
  · simp only [step, dropFields, hl2]
    rfl

end InFlightQueries

end DnsRelay
