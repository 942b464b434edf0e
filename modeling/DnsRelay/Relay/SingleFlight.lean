import DnsRelay.Relay.InFlightInvariant

/-!
# What single flight delivers

A leader keeps no receiver of its own, so its send is lost when no follower has
joined yet.  A follower that joins between that send and the removal of the
entry waits for an answer that is gone.  `JoinHeard` excludes this one join.
`published_reaches_followers` shows that nothing else goes wrong, and that
every join it excludes can lose an answer.
-/

namespace DnsRelay

open Lib

namespace InFlightQueries

variable {s : InFlightQueries}

/-! ## What followers get -/

/-- The joins that lose nothing.  A caller does not join a leader that has
already sent to a channel without receivers. -/
def JoinHeard (s : InFlightQueries) : Act → Prop
  | .join k => ∀ l, s.entries k = some l → s.leaders l = some ⟨k, .sent⟩ → (s.chans l).value ≠ none
  | _ => True

def waitSteps (f : Nat) : FollowerStage → List Act
  | .borrow => [.borrow f]
  | .changed => [.changed f, .borrow f]
  | .done _ | .cancelled => []

/-- What a leader has published is what each of its followers got, and what
each waiting one gets by its own next steps. -/
def Delivered (s : InFlightQueries) : Prop :=
  ∀ f x packet, s.followers[f]? = some x → s.published x.flight = some packet →
    (∀ r, x.stage = .done r → r = some packet) ∧
    (x.live = true → ∃ s' x', machine.run s (waitSteps f x.stage) = some s' ∧
      s'.followers[f]? = some x' ∧ x'.stage = .done (some packet))

/-- The channel of a flight has the published answer, if there is one. -/
def Stored (s : InFlightQueries) (l : Nat) : Prop :=
  ∀ packet, s.published l = some packet → (s.chans l).value = some packet

/-- What holds of a follower in runs that lose nothing. -/
def FollowerOk (s : InFlightQueries) (x : FlightFollower) : Prop :=
  match x.stage with
  | .borrow => s.Stored x.flight
  | .changed => x.seen = 0 ∧ s.Stored x.flight
  | .done (some packet) => s.published x.flight = some packet
  | .done none => s.published x.flight = none ∧ s.leaders x.flight = none
  | .cancelled => True

/-- Only the flight of a follower matters to it. -/
theorem FollowerOk.congr {s' : InFlightQueries} {x : FlightFollower} (h : FollowerOk s x)
    (hpub : s'.published x.flight = s.published x.flight)
    (hvalue : (s'.chans x.flight).value = (s.chans x.flight).value)
    (hleader : s.leaders x.flight = none → s'.leaders x.flight = none) : FollowerOk s' x := by
  unfold FollowerOk Stored at h ⊢
  rw [hpub, hvalue]
  split at h
  · exact h
  · exact h
  · exact h
  · exact ⟨h.1, hleader h.2⟩
  · trivial

/-- A follower of a leader that holds on has not returned. -/
theorem FollowerOk.not_done {x : FlightFollower} {k : CacheKey} (h : FollowerOk s x) (hi : Inv s)
    (hl : s.leaders x.flight = some ⟨k, .held⟩) (r : Option Bytes) : x.stage ≠ .done r := by
  intro hstage
  have hpub := hi.held x.flight k hl
  unfold FollowerOk at h
  rw [hstage] at h
  cases r with
  | some packet =>
      simp only [hpub] at h
      cases h
  | none =>
      rw [hl] at h
      cases h.2

theorem followerOk_setFollower {s' : InFlightQueries} {f : Nat} {y : FlightFollower}
    (hfollowers : s'.followers = s.followers.set f y)
    (hold : ∀ x ∈ s.followers, FollowerOk s' x) (hnew : FollowerOk s' y) :
    ∀ x ∈ s'.followers, FollowerOk s' x := by
  intro x hx
  rw [hfollowers] at hx
  rcases List.mem_or_eq_of_mem_set hx with hx | rfl
  · exact hold x hx
  · exact hnew

theorem endFollower_value (f : Nat) (x : FlightFollower) (stage : FollowerStage) (l : Nat) :
    ((s.endFollower f x stage).chans l).value = (s.chans l).value :=
  onChan_congr (s := s) Watch.value rfl l

/-- A caller that joins in time is in order. -/
theorem followersOk_follow (hi : Inv s) (h : ∀ x ∈ s.followers, FollowerOk s x) {k : CacheKey}
    {l : Nat} (hk : s.entries k = some l) (hheard : JoinHeard s (.join k)) :
    ∀ x ∈ s.followers ++ [⟨l, (s.chans l).version, .borrow⟩],
      FollowerOk { s.onChan l Watch.subscribe with
        followers := s.followers ++ [⟨l, (s.chans l).version, .borrow⟩] } x := by
  have hold : ∀ x, FollowerOk s x → FollowerOk { s.onChan l Watch.subscribe with
      followers := s.followers ++ [⟨l, (s.chans l).version, .borrow⟩] } x :=
    fun x hx => hx.congr rfl (onChan_congr (s := s) Watch.value rfl x.flight) id
  intro x hx
  rcases List.mem_append.mp hx with hx | hx
  · exact hold x (h x hx)
  · rw [List.mem_singleton.mp hx]
    apply hold
    -- the flight has published nothing or its channel has the answer
    intro packet hpub
    obtain ⟨stage, hl, hstage⟩ := hi.entry k l hk
    cases stage with
    | held =>
        rw [hi.held l k hl] at hpub
        cases hpub
    | unlinked => exact absurd rfl hstage
    | sent =>
        rcases hi.value l with ⟨hnone, -⟩ | ⟨q, hq, hv, -⟩
        · exact absurd hnone (hheard l hk hl)
        · rw [hv, ← hq, hpub]

/-- A send leaves the followers in order, since those who listen hear it. -/
theorem followersOk_send (hi : Inv s) (h : ∀ x ∈ s.followers, FollowerOk s x) {l : Nat}
    {k : CacheKey} (hl : s.leaders l = some ⟨k, .held⟩) (packet : Bytes) :
    ∀ x ∈ s.followers,
      FollowerOk { (s.onChan l (·.send (some packet))).setLeader l (some ⟨k, .sent⟩) with
        published := Function.update s.published l (some packet) } x := by
  intro x hx
  have hok := h x hx
  by_cases hxl : x.flight = l
  · subst hxl
    -- a listener makes the send heard
    have hstored : x.live = true → ({ (s.onChan x.flight (·.send (some packet))).setLeader
        x.flight (some ⟨k, .sent⟩) with
        published := Function.update s.published x.flight (some packet) } :
          InFlightQueries).Stored x.flight := by
      intro hlive q hq
      have hr : (s.chans x.flight).receivers ≠ 0 := by
        rw [hi.receivers, listening]
        have : 0 < s.followers.countP fun y => y.flight == x.flight && y.live :=
          List.countP_pos_iff.mpr ⟨x, hx, by simp [hlive]⟩
        omega
      simp only [Function.update_self] at hq
      simp only [setLeader, onChan, Function.update_self, Watch.send_heard _ hr]
      exact hq
    have hnd := hok.not_done hi hl
    unfold FollowerOk at hok ⊢
    cases hstage : x.stage with
    | borrow => exact hstored (by rw [FlightFollower.live, hstage])
    | changed =>
        rw [hstage] at hok
        exact ⟨hok.1, hstored (by rw [FlightFollower.live, hstage])⟩
    | done r => exact absurd hstage (hnd r)
    | cancelled => trivial
  · refine hok.congr ?_ ?_ ?_
    · exact Function.update_of_ne hxl ..
    · simp only [setLeader, onChan, Function.update_of_ne hxl]
    · simp only [setLeader, onChan, Function.update_of_ne hxl, imp_self]

/-- A follower that is refused has a leader that is gone without publishing. -/
theorem unpublished_of_closed (hi : Inv s) {l seen : Nat} (hok : seen = 0 ∧ s.Stored l)
    (hc : (s.chans l).changed seen = .closed) : s.published l = none ∧ s.leaders l = none := by
  obtain ⟨hseen, hstored⟩ := hok
  obtain ⟨hversion, hsenders⟩ := Watch.changed_closed hc
  constructor
  · cases hpub : s.published l with
    | none => rfl
    | some packet =>
        have hv := hstored packet hpub
        rcases hi.value l with ⟨hnone, -⟩ | ⟨q, -, -, hone⟩
        · rw [hnone] at hv
          cases hv
        · omega
  · rw [hi.senders] at hsenders
    cases hl : s.leaders l with
    | none => rfl
    | some ld =>
        rw [hl] at hsenders
        obtain ⟨k, stage⟩ := ld
        cases stage <;> cases hsenders

/-- One step keeps all followers in order. -/
theorem followersOk_step {s' : InFlightQueries} {a : Act} (hi : Inv s)
    (h : ∀ x ∈ s.followers, FollowerOk s x) (hheard : JoinHeard s a) (hs : s.step a = some s') :
    ∀ x ∈ s'.followers, FollowerOk s' x := by
  cases step_move hs with
  | @lead k hk =>
      intro x hx
      rw [join, hk] at hx ⊢
      have hne : x.flight ≠ s.nextFlight := Nat.ne_of_lt (hi.flight_lt x hx)
      refine (h x hx).congr rfl ?_ ?_
      · simp only [Function.update_apply, if_neg hne]
      · simp only [Function.update_apply, if_neg hne, imp_self]
  | @follow k l hk =>
      exact followersOk_follow hi h hk hheard
  | @send l k packet hl =>
      exact followersOk_send hi h hl packet
  | unlink hl hstage =>
      intro x hx
      rw [removeEntry_linked hi hl hstage] at hx ⊢
      refine (h x hx).congr rfl (onChan_congr (s := s) Watch.value rfl x.flight) ?_
      intro hnone
      simp only [setLeader, onChan, Function.update_apply]
      split
      · next heq =>
          rw [heq, hl] at hnone
          cases hnone
      · exact hnone
  | close hl =>
      intro x hx
      refine (h x hx).congr rfl (onChan_congr (s := s) Watch.value rfl x.flight) ?_
      intro hnone
      simp only [setLeader, onChan, Function.update_apply]
      split
      · rfl
      · exact hnone
  | @take f l seen packet hf hv =>
      refine followerOk_setFollower rfl (fun x hx => (h x hx).congr rfl
        (endFollower_value f _ _ x.flight) id) ?_
      exact hi.published_of_value hv
  | @sleep f l seen hf hv =>
      refine followerOk_setFollower rfl (fun x hx => (h x hx).congr rfl rfl id) ?_
      have hok := h _ (List.mem_of_getElem? hf)
      rcases hi.value l with ⟨-, hversion⟩ | ⟨q, hq, hv', -⟩
      · exact ⟨hversion, hok⟩
      · rw [hv] at hv'
        cases hv'
  | wake hf hc =>
      refine followerOk_setFollower rfl (fun x hx => (h x hx).congr rfl rfl id) ?_
      have hok := h _ (List.mem_of_getElem? hf)
      exact hok.2
  | @giveUp f l seen hf hc =>
      refine followerOk_setFollower rfl (fun x hx => (h x hx).congr rfl
        (endFollower_value f _ _ x.flight) id) ?_
      exact unpublished_of_closed hi (h _ (List.mem_of_getElem? hf)) hc
  | cancel hf hlive =>
      exact followerOk_setFollower rfl (fun x hx => (h x hx).congr rfl
        (endFollower_value _ _ _ x.flight) id) trivial

/-- In runs that lose nothing all followers are in order. -/
theorem followersOk_reach (h : machine.ReachBy JoinHeard s) :
    Inv s ∧ ∀ x ∈ s.followers, FollowerOk s x := by
  refine Machine.ReachBy.invariant (P := fun s => Inv s ∧ ∀ x ∈ s.followers, FollowerOk s x)
    ⟨inv_new, fun _ hx => absurd hx List.not_mem_nil⟩ ?_ h
  intro s a s' hi hheard hs
  exact ⟨inv_step hi.1 hs, followersOk_step hi.1 hi.2 hheard hs⟩

/-- A follower that looks at a channel with an answer returns it. -/
theorem borrow_stored {f l seen : Nat} {packet : Bytes}
    (hf : s.followers[f]? = some ⟨l, seen, .borrow⟩) (hv : (s.chans l).value = some packet) :
    ∃ s' x', s.step (.borrow f) = some s' ∧ s'.followers[f]? = some x' ∧
      x'.stage = .done (some packet) := by
  obtain ⟨hlt, -⟩ := List.getElem?_eq_some_iff.mp hf
  refine ⟨_, ⟨l, seen, .done (some packet)⟩, by simp only [step, borrow, hf, hv]; rfl, ?_, rfl⟩
  simp only [endFollower, setFollower, onChan, List.getElem?_set_self hlt]

theorem delivered_of_followersOk (hi : Inv s) (h : ∀ x ∈ s.followers, FollowerOk s x) :
    Delivered s := by
  intro f x packet hf hpub
  have hok := h x (List.mem_of_getElem? hf)
  obtain ⟨l, seen, stage⟩ := x
  unfold FollowerOk at hok
  cases stage with
  | borrow =>
      refine ⟨fun r hr => (by cases hr), fun _ => ?_⟩
      obtain ⟨s', x', hs, hx', hdone⟩ := borrow_stored hf (hok packet hpub)
      exact ⟨s', x', by simp [waitSteps, Machine.run, machine, hs], hx', hdone⟩
  | changed =>
      refine ⟨fun r hr => (by cases hr), fun _ => ?_⟩
      obtain ⟨hseen, hstored⟩ := hok
      have hv := hstored packet hpub
      have hone : (s.chans l).version = 1 := by
        rcases hi.value l with ⟨hnone, -⟩ | ⟨q, -, -, hone⟩
        · rw [hnone] at hv
          cases hv
        · exact hone
      have hready : (s.chans l).changed seen = .ready := by
        apply Watch.changed_of_ne
        simp only at hseen
        omega
      have hwake : s.step (.changed f) =
          some (s.setFollower f ⟨l, (s.chans l).version, .borrow⟩) := by
        simp only [step, changed, hf, hready]
      have hf' : (s.setFollower f ⟨l, (s.chans l).version, .borrow⟩).followers[f]? =
          some ⟨l, (s.chans l).version, .borrow⟩ := by
        obtain ⟨hlt, -⟩ := List.getElem?_eq_some_iff.mp hf
        simp only [setFollower, List.getElem?_set_self hlt]
      obtain ⟨s', x', hs, hx', hdone⟩ := borrow_stored hf' hv
      exact ⟨s', x', by simp [waitSteps, Machine.run, machine, hwake, hs], hx', hdone⟩
  | done r =>
      refine ⟨?_, fun hlive => by cases hlive⟩
      rintro r' ⟨⟩
      cases r with
      | some q => exact hok.symm.trans hpub
      | none => cases hok.1.symm.trans hpub
  | cancelled => exact ⟨fun r hr => (by cases hr), fun hlive => by cases hlive⟩

/-- A follower of a flight without an answer gets nothing once the last
sender is gone. -/
theorem wait_closed {f l seen : Nat} (hf : s.followers[f]? = some ⟨l, seen, .borrow⟩)
    (hv : (s.chans l).value = none) (hsenders : (s.chans l).senders = 0) :
    machine.run s [.borrow f, .changed f] =
      some ((s.setFollower f ⟨l, (s.chans l).version, .changed⟩).endFollower f
        ⟨l, (s.chans l).version, .changed⟩ (.done none)) := by
  obtain ⟨hlt, -⟩ := List.getElem?_eq_some_iff.mp hf
  have hsleep : s.step (.borrow f) = some (s.setFollower f ⟨l, (s.chans l).version, .changed⟩) := by
    simp only [step, borrow, hf, hv]
  have hf' : (s.setFollower f ⟨l, (s.chans l).version, .changed⟩).followers[f]? =
      some ⟨l, (s.chans l).version, .changed⟩ := by
    simp only [setFollower, List.getElem?_set_self hlt]
  have hclosed : (s.chans l).changed (s.chans l).version = .closed := by
    rw [Watch.changed, if_neg (by simp), if_pos hsenders]
  have hgive : (s.setFollower f ⟨l, (s.chans l).version, .changed⟩).step (.changed f) =
      some ((s.setFollower f ⟨l, (s.chans l).version, .changed⟩).endFollower f
        ⟨l, (s.chans l).version, .changed⟩ (.done none)) := by
    simp only [step, changed, hf']
    rw [show (s.setFollower f _).chans = s.chans from rfl, hclosed]
  simp only [Machine.run, machine, hsleep, hgive, Option.bind_some]

/-- A caller that joins a leader whose send was lost can wait in vain. -/
theorem lost_of_unheard_join (hi : Inv s) {k : CacheKey} {l : Nat} (hk : s.entries k = some l)
    (hl : s.leaders l = some ⟨k, .sent⟩) (hv : (s.chans l).value = none) :
    ∃ as s', machine.run s (.join k :: as) = some s' ∧ ¬Delivered s' := by
  obtain ⟨packet, hpub⟩ := Option.ne_none_iff_exists'.mp (hi.sent l k hl)
  -- the new follower listens to a channel that will not be written again
  let s1 : InFlightQueries := { s.onChan l Watch.subscribe with
    followers := s.followers ++ [⟨l, (s.chans l).version, .borrow⟩] }
  have hs1 : s.step (.join k) = some s1 := by simp only [step, join, hk]; rfl
  have hi1 : Inv s1 := inv_step hi hs1
  have hl1 : s1.leaders l = some ⟨k, .sent⟩ := hl
  -- the leader removes its entry and goes
  let s2 := (s1.removeEntry k).setLeader l (some ⟨k, .unlinked⟩)
  have hs2 : s1.step (.publishRemove l) = some s2 := by simp only [step, publishRemove, hl1]; rfl
  have hi2 : Inv s2 := inv_step hi1 hs2
  have hl2 : s2.leaders l = some ⟨k, .unlinked⟩ := Function.update_self ..
  let s3 := (s2.onChan l Watch.dropSender).setLeader l none
  have hs3 : s2.step (.dropFields l) = some s3 := by simp only [step, dropFields, hl2]; rfl
  have hi3 : Inv s3 := inv_step hi2 hs3
  have hl3 : s3.leaders l = none := Function.update_self ..
  have hsenders : (s3.chans l).senders = 0 := by
    rw [hi3.senders, hl3]
    rfl
  have hs2' : s2 = ({ s1.onChan l Watch.dropSender with
      entries := Function.update s1.entries k none } : InFlightQueries).setLeader l
        (some ⟨k, .unlinked⟩) := by
    simp only [s2, removeEntry_linked hi1 hl1 (by decide)]
  have hv3 : (s3.chans l).value = none := by
    have h3 : (s3.chans l).value = (s2.chans l).value := onChan_congr (s := s2) Watch.value rfl l
    have h2 : (s2.chans l).value = (s1.chans l).value := by
      rw [hs2']
      exact onChan_congr (s := s1) Watch.value rfl l
    have h1 : (s1.chans l).value = (s.chans l).value := onChan_congr (s := s) Watch.value rfl l
    rw [h3, h2, h1, hv]
  have hf3 : s3.followers[s.followers.length]? = some ⟨l, (s.chans l).version, .borrow⟩ := by
    have h3 : s3.followers = s1.followers := by
      show s2.followers = s1.followers
      rw [hs2']
      rfl
    rw [h3]
    exact List.getElem?_concat_length
  have hpub3 : s3.published l = some packet := by
    show s2.published l = some packet
    rw [hs2']
    exact hpub
  have hrun : machine.run s [.join k, .publishRemove l, .dropFields l,
      .borrow s.followers.length, .changed s.followers.length] =
      machine.run s3 [.borrow s.followers.length, .changed s.followers.length] := by
    simp only [Machine.run, machine, hs1, hs2, hs3, Option.bind_some]
  refine ⟨_, _, hrun.trans (wait_closed hf3 hv3 hsenders), ?_⟩
  intro hdel
  obtain ⟨hlt, -⟩ := List.getElem?_eq_some_iff.mp hf3
  have hget := hdel s.followers.length ⟨l, (s3.chans l).version, .done none⟩ packet
    (by simp only [endFollower, setFollower, onChan, List.set_set, List.getElem?_set_self hlt])
    hpub3
  cases hget.1 none rfl

/-- In every run whose joins are all heard, what a leader publishes reaches
every follower.  A join that is not heard can lose the answer. -/
theorem published_reaches_followers (s : InFlightQueries) :
    (machine.ReachBy JoinHeard s → Delivered s) ∧
      ∀ a, machine.Reach s → ¬JoinHeard s a →
        ∃ as s', machine.run s (a :: as) = some s' ∧ ¬Delivered s' := by
  constructor
  · intro h
    obtain ⟨hi, hok⟩ := followersOk_reach h
    exact delivered_of_followersOk hi hok
  · intro a h hunheard
    cases a with
    | join k =>
        simp only [JoinHeard, not_forall, not_not] at hunheard
        obtain ⟨l, hk, hl, hv⟩ := hunheard
        exact lost_of_unheard_join (inv_reach h) hk hl hv
    | _ => exact absurd trivial hunheard

/-- The key of a query for the address of `a`. -/
def sampleKey : CacheKey := ⟨['a'], 1, 1, 1, false, none⟩

theorem published_reaches_early_follower :
    ∃ s, machine.run machine.init [.join sampleKey, .join sampleKey, .publishSend 0 [1]] = some s ∧
      s.published 0 = some [1] ∧ s.followers = [⟨0, 0, .borrow⟩] ∧ Delivered s := by
  have h1 : machine.ReachBy JoinHeard (new.join sampleKey).1 :=
    .step (.join sampleKey) .init (fun _ hk _ => nomatch hk) rfl
  have h2 : machine.ReachBy JoinHeard ((new.join sampleKey).1.join sampleKey).1 := by
    refine .step (.join sampleKey) h1 ?_ rfl
    intro l hk hl
    cases hk
    cases hl
  exact ⟨_, rfl, rfl, rfl, (published_reaches_followers _).1
    (.step (.publishSend 0 [1]) h2 trivial rfl)⟩

/-- A leader publishes before anyone follows.  A caller joins before the entry
is removed, and waits. -/
def lateRun : List Act :=
  [.join sampleKey, .publishSend 0 [1], .join sampleKey, .publishRemove 0, .dropFields 0,
    .borrow 0, .changed 0]

/-- The late caller gets nothing, though its leader has published. -/
theorem late_follower_loses_answer :
    ∃ s, machine.run machine.init lateRun = some s ∧ machine.Reach s ∧
      s.published 0 = some [1] ∧ s.followers = [⟨0, 0, .done none⟩] ∧ ¬Delivered s := by
  refine ⟨_, rfl, @Machine.reach_of_run _ _ machine _ lateRun rfl, rfl, rfl, ?_⟩
  intro hdel
  have hget := hdel 0 ⟨0, 0, .done none⟩ [1] rfl rfl
  cases hget.1 none rfl

end InFlightQueries

end DnsRelay
