import DnsRelay.Relay.UdpDispatcher

/-!
# Delivery of UDP replies

`Inv` says how the map, the receiver task and the channels of the calls are
related.  A call is in at most one of three places: in the map, in the hands of
the receiver task, or answered.  The moves keep it, so a call only ends with a
reply that carries its identifier and comes from its upstream, and no datagram
and no call is used twice.

The second part is about the entries.  The guard of a call removes whatever the
map holds under its identifier.  When the counter has gone around while the
guard of an answered call was still there, that is the entry of another call.
-/

namespace DnsRelay

open Lib

namespace UdpDispatcher

/-! ## The invariant -/

/-- The datagram is a reply to the call, as far as the dispatcher checks. -/
def Answers (d : Datagram) (call : UdpCall) : Prop :=
  2 ≤ d.packet.length ∧ packetId d.packet = call.id ∧ d.source = call.upstream

/-- How the parts of the dispatcher are related. -/
structure Inv (s : UdpDispatcher) : Prop where
  fresh : ∀ i, s.nextCall ≤ i → s.calls i = none
  entry : ∀ id e, s.pending id = some e → ∃ call, s.calls e.call = some call ∧ call.id = id ∧
    call.upstream = e.upstream ∧ call.guarded = true ∧ call.slot = none
  /-- What the receiver task has taken answers a call that has no entry any
  more. -/
  taken : ∀ e d, s.receiver = some (e, d) → d.number < s.nextDatagram ∧
    ∃ call, s.calls e.call = some call ∧ Answers d call ∧ call.slot = none ∧
      ∀ e', s.pending call.id = some e' → e'.call ≠ e.call
  slot : ∀ i call d, s.calls i = some call → call.slot = some d →
    Answers d call ∧ d.number < s.nextDatagram
  slot_taken : ∀ i call d e d', s.calls i = some call → call.slot = some d →
    s.receiver = some (e, d') → d.number ≠ d'.number
  slot_inj : ∀ i j call call' d d', s.calls i = some call → s.calls j = some call' →
    call.slot = some d → call'.slot = some d' → d.number = d'.number → i = j
  sent : ∀ i call, s.calls i = some call → call.stage = .waiting →
    call.sent = some (queryFor call.id call.payload)
  completed : ∀ c ∈ s.completions, ∃ call, s.calls c.call = some call ∧
    call.slot = some c.reply ∧ call.listening = false ∧
    call.sent = some (queryFor call.id call.payload)
  nodup : (s.completions.map Completion.call).Nodup

variable {s s' : UdpDispatcher}

theorem inv_new : Inv new where
  fresh _ _ := rfl
  entry _ _ h := nomatch h
  taken _ _ h := nomatch h
  slot _ _ _ h := nomatch h
  slot_taken _ _ _ _ _ h := nomatch h
  slot_inj _ _ _ _ _ _ h := nomatch h
  sent _ _ h := nomatch h
  completed _ h := absurd h List.not_mem_nil
  nodup := List.nodup_nil

theorem calls_setCall (s : UdpDispatcher) (i j : Nat) (call : UdpCall) :
    (s.setCall i call).calls j = if j = i then some call else s.calls j :=
  Function.update_apply s.calls i (some call) j

theorem calls_setCall_self (s : UdpDispatcher) (i : Nat) (call : UdpCall) :
    (s.setCall i call).calls i = some call := Function.update_self ..

theorem pending_remove {id id' : UInt16} {e : PendingUdp}
    (h : (s.remove id).pending id' = some e) : id' ≠ id ∧ s.pending id' = some e := by
  simp only [remove, Function.update_apply] at h
  split at h
  · cases h
  next hne => exact ⟨hne, h⟩

theorem Inv.remove (hi : Inv s) (id : UInt16) : Inv (s.remove id) :=
  { hi with
    entry := fun id' e h => hi.entry id' e (pending_remove h).2
    taken := fun e d h => by
      obtain ⟨hlt, call, hc, hans, hslot, hother⟩ := hi.taken e d h
      exact ⟨hlt, call, hc, hans, hslot, fun e' h' => hother e' (pending_remove h').2⟩ }

/-- The parts of a call that others rely on. -/
structure Kept (call call' : UdpCall) : Prop where
  id : call'.id = call.id
  upstream : call'.upstream = call.upstream
  slot : call'.slot = call.slot

theorem Answers.kept {d : Datagram} {call call' : UdpCall} (h : Answers d call)
    (hk : Kept call call') : Answers d call' :=
  ⟨h.1, h.2.1.trans hk.id.symm, h.2.2.trans hk.upstream.symm⟩

/-- What is found after `setCall` was there before, up to what is not kept. -/
theorem of_setCall {i j : Nat} {call call' found : UdpCall} (hc : s.calls i = some call)
    (hk : Kept call call') (h : (s.setCall i call').calls j = some found) :
    ∃ old, s.calls j = some old ∧ Kept old found ∧ (j = i ∧ found = call' ∨ found = old) := by
  rw [calls_setCall] at h
  split at h
  next hj =>
      cases h
      exact ⟨call, hj ▸ hc, hk, .inl ⟨hj, rfl⟩⟩
  next => exact ⟨found, h, ⟨rfl, rfl, rfl⟩, .inr rfl⟩

/-- What was there is found after `setCall`, up to what is not kept. -/
theorem to_setCall {i j : Nat} {call call' old : UdpCall} (hc : s.calls i = some call)
    (hk : Kept call call') (h : s.calls j = some old) :
    ∃ found, (s.setCall i call').calls j = some found ∧ Kept old found ∧
      (j = i ∧ found = call' ∨ j ≠ i ∧ found = old) := by
  by_cases hj : j = i
  · subst hj
    rw [hc] at h
    cases h
    exact ⟨call', calls_setCall_self .., hk, .inl ⟨rfl, rfl⟩⟩
  · exact ⟨old, by rw [calls_setCall, if_neg hj, h], ⟨rfl, rfl, rfl⟩, .inr ⟨hj, rfl⟩⟩

/-- A call that changes was there before. -/
theorem Inv.fresh_setCall (hi : Inv s) {i : Nat} {call : UdpCall} (hc : s.calls i = some call)
    (call' : UdpCall) {j : Nat} (hj : s.nextCall ≤ j) : (s.setCall i call').calls j = none := by
  have hji : j ≠ i := by
    rintro rfl
    rw [hi.fresh j hj] at hc
    cases hc
  rw [calls_setCall, if_neg hji]
  exact hi.fresh j hj

/-- A call may change while its identifier, its upstream and its channel
stay. -/
theorem Inv.setCall (hi : Inv s) {i : Nat} {call call' : UdpCall} (hc : s.calls i = some call)
    (hk : Kept call call')
    (hguard : ∀ id e, s.pending id = some e → e.call = i → call'.guarded = true)
    (hsent : call'.stage = .waiting → call'.sent = some (queryFor call'.id call'.payload))
    (hdone : ∀ c ∈ s.completions, c.call = i → call'.listening = false ∧
      call'.sent = some (queryFor call'.id call'.payload)) :
    Inv (s.setCall i call') where
  fresh _ hj := hi.fresh_setCall hc call' hj
  entry id e he := by
    obtain ⟨old, hold, hoid, houp, hog, hos⟩ := hi.entry id e he
    obtain ⟨found, hf, hkept, hcase⟩ := to_setCall hc hk hold
    refine ⟨found, hf, hkept.id.trans hoid, hkept.upstream.trans houp, ?_, hkept.slot.trans hos⟩
    rcases hcase with ⟨hj, rfl⟩ | ⟨-, rfl⟩
    · exact hguard id e he hj
    · exact hog
  taken e d hr := by
    obtain ⟨hlt, old, hold, hans, hos, hother⟩ := hi.taken e d hr
    obtain ⟨found, hf, hkept, -⟩ := to_setCall hc hk hold
    refine ⟨hlt, found, hf, hans.kept hkept, hkept.slot.trans hos, ?_⟩
    rw [hkept.id]
    exact hother
  slot j found d hf hd := by
    obtain ⟨old, hold, hkept, -⟩ := of_setCall hc hk hf
    obtain ⟨hans, hlt⟩ := hi.slot j old d hold (hkept.slot ▸ hd)
    exact ⟨hans.kept hkept, hlt⟩
  slot_taken j found d e d' hf hd hr := by
    obtain ⟨old, hold, hkept, -⟩ := of_setCall hc hk hf
    exact hi.slot_taken j old d e d' hold (hkept.slot ▸ hd) hr
  slot_inj j k found found' d d' hf hf' hd hd' hnum := by
    obtain ⟨old, hold, hkept, -⟩ := of_setCall hc hk hf
    obtain ⟨old', hold', hkept', -⟩ := of_setCall hc hk hf'
    exact hi.slot_inj j k old old' d d' hold hold' (hkept.slot ▸ hd) (hkept'.slot ▸ hd') hnum
  sent j found hf hw := by
    obtain ⟨old, hold, -, ⟨-, rfl⟩ | rfl⟩ := of_setCall hc hk hf
    · exact hsent hw
    · exact hi.sent j found hold hw
  completed c hmem := by
    obtain ⟨old, hold, hos, hol, hosent⟩ := hi.completed c hmem
    obtain ⟨found, hf, hkept, hcase⟩ := to_setCall hc hk hold
    refine ⟨found, hf, hkept.slot.trans hos, ?_⟩
    rcases hcase with ⟨hj, rfl⟩ | ⟨-, rfl⟩
    · exact hdone c hmem hj
    · exact ⟨hol, hosent⟩
  nodup := hi.nodup

/-- A call that listens has not ended with a reply. -/
theorem Inv.not_completed (hi : Inv s) {i : Nat} {call : UdpCall} (hc : s.calls i = some call)
    (hl : call.listening = true) : ∀ c ∈ s.completions, c.call ≠ i := by
  rintro c hmem rfl
  obtain ⟨old, hold, -, hol, -⟩ := hi.completed c hmem
  rw [hc] at hold
  cases hold
  rw [hl] at hol
  cases hol

/-! ## The moves keep it -/

/-- A free identifier is found from the counter on. -/
theorem allocate_free {pending : UInt16 → Option PendingUdp} {n : Nat} {next id next' : UInt16}
    (h : allocate pending n next = some (id, next')) : pending id = none := by
  induction n generalizing next with
  | zero => cases h
  | succ n ih =>
      rw [allocate] at h
      split at h
      next => exact ih h
      next hfree =>
          cases h
          simpa using hfree

theorem inv_register (hi : Inv s) {upstream : SocketAddr} {payload : Bytes} {id next : UInt16} :
    Inv { s with
      pending := Function.update s.pending id (some ⟨upstream, s.nextCall⟩)
      nextId := next
      calls := Function.update s.calls s.nextCall
        (some ⟨id, upstream, payload, none, none, .sending⟩)
      nextCall := s.nextCall + 1 } := by
  have hnone : s.calls s.nextCall = none := hi.fresh _ (Nat.le_refl _)
  have hne : ∀ {j call}, s.calls j = some call → j ≠ s.nextCall := by
    rintro j call hj rfl
    rw [hnone] at hj
    cases hj
  have hold : ∀ {j call}, s.calls j = some call → Function.update s.calls s.nextCall
      (some ⟨id, upstream, payload, none, none, .sending⟩) j = some call := fun hj => by
    rw [Function.update_of_ne (hne hj), hj]
  -- A channel that holds something is not that of the new call.
  have hslot : ∀ {j call d}, Function.update s.calls s.nextCall
      (some ⟨id, upstream, payload, none, none, .sending⟩) j = some call → call.slot = some d →
      s.calls j = some call := by
    intro j call d hj hd
    rw [Function.update_apply] at hj
    split at hj
    · cases hj
      cases hd
    · exact hj
  refine { hi with
    fresh := fun j hj => ?_
    entry := fun id' e he => ?_
    taken := fun e d hr => ?_
    slot := fun j call d hj hd => hi.slot j call d (hslot hj hd) hd
    slot_taken := fun j call d e d' hj hd => hi.slot_taken j call d e d' (hslot hj hd) hd
    slot_inj := fun j k call call' d d' hj hk hd hd' =>
      hi.slot_inj j k call call' d d' (hslot hj hd) (hslot hk hd') hd hd'
    sent := fun j call hj hw => ?_
    completed := fun c hmem => ?_ }
  · have hlt : s.nextCall < j := hj
    show Function.update s.calls s.nextCall _ j = none
    rw [Function.update_of_ne (Nat.ne_of_gt hlt)]
    exact hi.fresh j (Nat.le_of_lt hlt)
  · simp only [Function.update_apply] at he
    split at he
    next hid =>
        cases he
        exact ⟨_, Function.update_self .., hid.symm, rfl, rfl, rfl⟩
    next =>
        obtain ⟨call, hc, hrest⟩ := hi.entry id' e he
        exact ⟨call, hold hc, hrest⟩
  · obtain ⟨hlt, call, hc, hans, hs, hother⟩ := hi.taken e d hr
    refine ⟨hlt, call, hold hc, hans, hs, fun e' he' => ?_⟩
    simp only [Function.update_apply] at he'
    split at he'
    · cases he'
      exact (hne hc).symm
    · exact hother e' he'
  · simp only [Function.update_apply] at hj
    split at hj
    · cases hj
      cases hw
    · exact hi.sent j call hj hw
  · obtain ⟨call, hc, hrest⟩ := hi.completed c hmem
    exact ⟨call, hold hc, hrest⟩

theorem inv_advance (hi : Inv s) {i : Nat} {call call' : UdpCall} (hc : s.calls i = some call)
    (ha : Advances call call') : Inv (s.setCall i call') :=
  hi.setCall hc ⟨ha.id, ha.upstream, ha.slot⟩ (fun _ _ _ _ => ha.guarded) ha.sent
    fun c hmem heq => absurd heq (hi.not_completed hc ha.listening c hmem)

theorem inv_ignore (hi : Inv s) : Inv { s with nextDatagram := s.nextDatagram + 1 } :=
  { hi with
    taken := fun e d hr => by
      obtain ⟨hlt, hrest⟩ := hi.taken e d hr
      exact ⟨Nat.lt_succ_of_lt hlt, hrest⟩
    slot := fun i call d hc hd => by
      obtain ⟨hans, hlt⟩ := hi.slot i call d hc hd
      exact ⟨hans, Nat.lt_succ_of_lt hlt⟩ }

theorem inv_take (hi : Inv s) {packet : Bytes} {entry : PendingUdp} (hlen : 2 ≤ packet.length)
    (hp : s.pending (packetId packet) = some entry) :
    Inv ({ s with
      nextDatagram := s.nextDatagram + 1
      receiver := some (entry, ⟨s.nextDatagram, packet, entry.upstream⟩) }.remove
        (packetId packet)) := by
  have hi' := inv_ignore (hi.remove (packetId packet))
  refine { hi' with
    taken := fun e d hr => ?_
    slot_taken := fun i call d e d' hc hd hr => ?_ }
  · cases hr
    obtain ⟨call, hc, hid, hup, -, hslot⟩ := hi.entry _ _ hp
    refine ⟨Nat.lt_succ_self _, call, hc, ⟨hlen, hid.symm, hup.symm⟩, hslot, fun e' he' => ?_⟩
    exact absurd hid (pending_remove he').1
  · cases hr
    exact Nat.ne_of_lt (hi.slot i call d hc hd).2

theorem inv_lose (hi : Inv s) : Inv { s with receiver := none } :=
  { hi with
    taken := fun _ _ hr => nomatch hr
    slot_taken := fun _ _ _ _ _ _ _ hr => nomatch hr }

theorem inv_hand (hi : Inv s) {entry : PendingUdp} {d : Datagram} {call : UdpCall}
    (hr : s.receiver = some (entry, d)) (hc : s.calls entry.call = some call) :
    Inv ({ s with receiver := none }.setCall entry.call { call with slot := some d }) := by
  obtain ⟨hlt, call', hc', hans, hslot, hother⟩ := hi.taken entry d hr
  rw [hc] at hc'
  cases hc'
  have hcases : ∀ {j found}, ({ s with receiver := none }.setCall entry.call
      { call with slot := some d }).calls j = some found →
      j = entry.call ∧ found = { call with slot := some d } ∨
        j ≠ entry.call ∧ s.calls j = some found := by
    intro j found h
    rw [calls_setCall] at h
    split at h
    next hj => exact .inl ⟨hj, (Option.some.inj h).symm⟩
    next hj => exact .inr ⟨hj, h⟩
  have hold : ∀ {j found}, s.calls j = some found → j ≠ entry.call →
      ({ s with receiver := none }.setCall entry.call { call with slot := some d }).calls j =
        some found := fun h hne => by
    rw [calls_setCall, if_neg hne]
    exact h
  refine {
    fresh := fun j hj => hi.fresh_setCall hc _ hj
    entry := fun id e he => ?_
    taken := fun _ _ hr => nomatch hr
    slot := fun j found d' hf hd => ?_
    slot_taken := fun _ _ _ _ _ _ _ hr => nomatch hr
    slot_inj := fun j k found found' d1 d2 hf hf' hd hd' hnum => ?_
    sent := fun j found hf hw => ?_
    completed := fun c hmem => ?_
    nodup := hi.nodup }
  · -- The call has no entry any more.
    obtain ⟨found, hf, hid, hrest⟩ := hi.entry id e he
    have hne : e.call ≠ entry.call := by
      intro heq
      rw [heq, hc] at hf
      cases hf
      rw [← hid] at he
      exact hother e he heq
    exact ⟨found, hold hf hne, hid, hrest⟩
  · rcases hcases hf with ⟨-, rfl⟩ | ⟨-, hf⟩
    · cases hd
      exact ⟨hans, hlt⟩
    · exact hi.slot j found d' hf hd
  · rcases hcases hf with ⟨rfl, rfl⟩ | ⟨-, hf⟩
    · rcases hcases hf' with ⟨rfl, rfl⟩ | ⟨-, hf'⟩
      · rfl
      · cases hd
        exact absurd hnum.symm (hi.slot_taken k found' d2 entry d hf' hd' hr)
    · rcases hcases hf' with ⟨rfl, rfl⟩ | ⟨-, hf'⟩
      · cases hd'
        exact absurd hnum (hi.slot_taken j found d1 entry d hf hd hr)
      · exact hi.slot_inj j k found found' d1 d2 hf hf' hd hd' hnum
  · rcases hcases hf with ⟨rfl, rfl⟩ | ⟨-, hf⟩
    · exact hi.sent entry.call call hc hw
    · exact hi.sent j found hf hw
  · obtain ⟨found, hf, hs, hrest⟩ := hi.completed c hmem
    have hne : c.call ≠ entry.call := by
      intro heq
      rw [heq, hc] at hf
      cases hf
      rw [hslot] at hs
      cases hs
    exact ⟨found, hold hf hne, hs, hrest⟩

theorem inv_receive (hi : Inv s) {i : Nat} {call : UdpCall} {d : Datagram}
    (hc : s.calls i = some call) (hd : call.slot = some d) (hw : call.stage = .waiting) :
    Inv ((s.record i d).setCall i { call with stage := .returned }) := by
  have hl : call.listening = true := by rw [UdpCall.listening, hw]
  have hnew := hi.not_completed hc hl
  have hkept : Kept call { call with stage := .returned } := ⟨rfl, rfl, rfl⟩
  have hi' := hi.setCall hc hkept (fun _ _ _ _ => rfl) (fun hwait => by cases hwait)
    fun c hmem heq => absurd heq (hnew c hmem)
  refine { hi' with
    completed := fun c hmem => ?_
    nodup := ?_ }
  · rcases List.mem_append.mp hmem with hmem | hmem
    · exact hi'.completed c hmem
    · cases List.mem_singleton.mp hmem
      exact ⟨{ call with stage := .returned }, calls_setCall_self .., hd, rfl,
        hi.sent i call hc hw⟩
  · show ((s.completions ++ [(⟨i, d⟩ : Completion)]).map Completion.call).Nodup
    rw [List.map_append, List.nodup_append]
    refine ⟨hi.nodup, List.nodup_singleton i, fun j hj k hk => ?_⟩
    obtain ⟨c, hmem, rfl⟩ := List.mem_map.mp hj
    rw [List.mem_singleton.mp hk]
    exact hnew c hmem

theorem inv_close (hi : Inv s) {i : Nat} {call : UdpCall} (hc : s.calls i = some call) :
    Inv ((s.remove call.id).setCall i { call with stage := .closed }) := by
  refine (hi.remove call.id).setCall hc ⟨rfl, rfl, rfl⟩ (fun id e he heq => ?_) nofun
    fun c hmem heq => ?_
  · -- The entry of this call is the one that was removed.
    obtain ⟨hne, he⟩ := pending_remove he
    obtain ⟨found, hf, hid, -⟩ := hi.entry id e he
    rw [heq, hc] at hf
    cases hf
    exact absurd hid.symm hne
  · obtain ⟨found, hf, -, -, hsent⟩ := hi.completed c hmem
    rw [heq, hc] at hf
    cases hf
    exact ⟨rfl, hsent⟩

theorem inv_step (hi : Inv s) {a : Act} (h : step s a = some s') : Inv s' := by
  cases step_move h with
  | register => exact inv_register hi
  | advance hc ha => exact inv_advance hi hc ha
  | ignore => exact inv_ignore hi
  | take hlen hp => exact inv_take hi hlen hp
  | lose => exact inv_lose hi
  | hand hr hc => exact inv_hand hi hr hc
  | receive hc hd hw => exact inv_receive hi hc hd hw
  | close hc => exact inv_close hi hc

theorem inv_reach (h : machine.Reach s) : Inv s :=
  Machine.ReachBy.invariant (P := Inv) inv_new (fun _ _ _ hi _ hs => inv_step hi hs) h

/-! ## Delivery -/

theorem take_of_packetId {packet : Bytes} {id : UInt16} (hlen : 2 ≤ packet.length)
    (h : packetId packet = id) : packet.take 2 = toBe16 id.toNat := by
  obtain ⟨hi, lo, rest, rfl⟩ : ∃ hi lo rest, packet = hi :: lo :: rest := by
    cases packet with
    | nil => cases hlen
    | cons hi packet =>
        cases packet with
        | nil => cases hlen with | step hlen => cases hlen
        | cons lo rest => exact ⟨hi, lo, rest, rfl⟩
  have hhi := hi.toNat_lt
  have hlo := lo.toNat_lt
  have hread : u16At (hi :: lo :: rest) 0 = be16 hi lo := rfl
  have hn : id.toNat = be16 hi lo := by
    rw [← h, packetId, hread, UInt16.toNat_ofNat', be16]
    omega
  rw [hn, toBe16_be16]
  rfl

theorem take_queryFor (id : UInt16) (payload : Bytes) :
    (queryFor id payload).take 2 = toBe16 id.toNat := rfl

theorem completions_numbers (hi : Inv s) : (s.completions.map fun c => c.reply.number).Nodup := by
  have hinj := List.inj_on_of_nodup_map hi.nodup
  refine List.Nodup.map_on (fun c hc c' hc' hnum => ?_) hi.nodup.of_map
  obtain ⟨call, hcall, hslot, -⟩ := hi.completed c hc
  obtain ⟨call', hcall', hslot', -⟩ := hi.completed c' hc'
  exact hinj hc hc' (hi.slot_inj _ _ call call' _ _ hcall hcall' hslot hslot' hnum)

/-- Whatever the network sends and whenever calls are dropped, a call ends only
with a reply to its own query from its own upstream, no datagram ends two calls
and no call ends twice, and every entry belongs to a call with a guard. -/
theorem udp_delivery_safe {s : UdpDispatcher} (h : machine.Reach s) :
    (∀ c ∈ s.completions, ∃ call query, s.calls c.call = some call ∧ call.sent = some query ∧
      query.take 2 = toBe16 call.id.toNat ∧ c.reply.packet.take 2 = query.take 2 ∧
      c.reply.source = call.upstream) ∧
      (s.completions.map Completion.call).Nodup ∧
      (s.completions.map fun c => c.reply.number).Nodup ∧
      (∀ id e, s.pending id = some e → ∃ call, s.calls e.call = some call ∧ call.id = id ∧
        call.guarded = true) ∧
      ((∀ i call, s.calls i = some call → call.guarded = false) → ∀ id, s.pending id = none) := by
  have hi := inv_reach h
  refine ⟨fun c hc => ?_, hi.nodup, completions_numbers hi, fun id e he => ?_, fun hclosed id => ?_⟩
  · obtain ⟨call, hcall, hslot, -, hsent⟩ := hi.completed c hc
    obtain ⟨⟨hlen, hid, hsource⟩, -⟩ := hi.slot _ call _ hcall hslot
    refine ⟨call, _, hcall, hsent, take_queryFor call.id call.payload, ?_, hsource⟩
    rw [take_queryFor, take_of_packetId hlen hid]
  · obtain ⟨call, hcall, hid, -, hguard, -⟩ := hi.entry id e he
    exact ⟨call, hcall, hid, hguard⟩
  · cases he : s.pending id with
    | none => rfl
    | some e =>
        obtain ⟨call, hcall, -, -, hguard, -⟩ := hi.entry id e he
        rw [hclosed _ call hcall] at hguard
        cases hguard

def sampleUpstream : SocketAddr := .v4 ⟨8, 8, 8, 8⟩ 53

def answeredRun : List Act :=
  [.register sampleUpstream [9, 9, 1, 0], .send 0, .dispatch [0, 0, 129, 128] (.v4 ⟨9, 9, 9, 9⟩ 53),
    .dispatch [0, 0, 129, 128] sampleUpstream, .deliver, .receive 0]

theorem udp_delivery_safe_answered :
    ∃ s, machine.Reach s ∧ s.completions = [⟨0, 1, [0, 0, 129, 128], sampleUpstream⟩] ∧
      (∀ c ∈ s.completions, ∃ call query, s.calls c.call = some call ∧ call.sent = some query ∧
        query.take 2 = toBe16 call.id.toNat ∧ c.reply.packet.take 2 = query.take 2 ∧
        c.reply.source = call.upstream) := by
  have hreach := @Machine.reach_of_run _ _ machine _ answeredRun rfl
  exact ⟨_, hreach, rfl, (udp_delivery_safe hreach).1⟩

/-! ## Entries and guards -/

/-- A registration does not hand out the identifier of a call whose guard is
still there: the map holds that identifier, or counting up from the counter
comes to a free one before. -/
def IdFree (s : UdpDispatcher) : Act → Prop
  | .register _ _ => ∀ i call, s.calls i = some call → call.guarded = true →
      s.pending call.id = none →
        ∃ k, k < (call.id - s.nextId).toNat ∧ s.pending (s.nextId + UInt16.ofNat k) = none
  | _ => True

/-- No two guards have the same identifier. -/
def GuardsDiffer (s : UdpDispatcher) : Prop :=
  ∀ i j call call', s.calls i = some call → s.calls j = some call' → call.guarded = true →
    call'.guarded = true → call.id = call'.id → i = j

/-- Everything before the identifier that is taken is in the map. -/
theorem allocate_first {pending : UInt16 → Option PendingUdp} {n : Nat} {next id next' : UInt16}
    (h : allocate pending n next = some (id, next')) {k : Nat} (hk : k < (id - next).toNat) :
    pending (next + UInt16.ofNat k) ≠ none := by
  induction n generalizing next k with
  | zero => cases h
  | succ n ih =>
      have hfree := allocate_free h
      rw [allocate] at h
      split at h
      next htaken =>
          cases k with
          | zero => simpa using Option.isSome_iff_ne_none.mp htaken
          | succ k =>
              have hne : id ≠ next := by
                rintro rfl
                rw [hfree] at htaken
                cases htaken
              have hk' : k < (id - (next + 1)).toNat := by
                have h1 := id.toNat_lt
                have h2 := next.toNat_lt
                have h3 : id.toNat ≠ next.toNat := fun heq => hne (UInt16.toNat_inj.mp heq)
                have h4 : (next + 1).toNat = (next.toNat + 1) % 65536 := UInt16.toNat_add next 1
                rw [UInt16.toNat_sub] at hk ⊢
                omega
              have hstep := ih h hk'
              have heq : next + 1 + UInt16.ofNat k = next + UInt16.ofNat (k + 1) := by
                rw [UInt16.ofNat_add, UInt16.add_assoc]
                congr 1
                exact UInt16.add_comm _ _
              rwa [heq] at hstep
      next =>
          cases h
          simp at hk

theorem guarded_of_listening {call : UdpCall} (h : call.listening = true) :
    call.guarded = true := by
  cases hs : call.stage <;> simp_all [UdpCall.listening, UdpCall.guarded]

/-- Replacing a call by one that has a guard only if it had one, under the same
identifier, makes no two guards alike. -/
theorem GuardsDiffer.setCall (hg : GuardsDiffer s) {i : Nat} {call call' : UdpCall}
    (hc : s.calls i = some call) (hid : call'.id = call.id)
    (hguard : call'.guarded = true → call.guarded = true) : GuardsDiffer (s.setCall i call') := by
  have hback : ∀ {j found}, (s.setCall i call').calls j = some found → found.guarded = true →
      ∃ old, s.calls j = some old ∧ old.guarded = true ∧ old.id = found.id := by
    intro j found h hf
    rw [calls_setCall] at h
    split at h
    next hj =>
        cases h
        exact ⟨call, hj ▸ hc, hguard hf, hid.symm⟩
    next => exact ⟨found, h, hf, rfl⟩
  intro j k found found' hf hf' hgf hgf' heq
  obtain ⟨old, hold, hog, hoid⟩ := hback hf hgf
  obtain ⟨old', hold', hog', hoid'⟩ := hback hf' hgf'
  exact hg j k old old' hold hold' hog hog' (by rw [hoid, hoid', heq])

theorem guardsDiffer_register (hg : GuardsDiffer s) {upstream : SocketAddr} {payload : Bytes}
    {id next : UInt16} (halloc : allocate s.pending 65536 s.nextId = some (id, next))
    (hfree : IdFree s (.register upstream payload)) :
    GuardsDiffer { s with
      pending := Function.update s.pending id (some ⟨upstream, s.nextCall⟩)
      nextId := next
      calls := Function.update s.calls s.nextCall
        (some ⟨id, upstream, payload, none, none, .sending⟩)
      nextCall := s.nextCall + 1 } := by
  -- The identifier that is taken is no guard's.
  have hnew : ∀ i call, s.calls i = some call → call.guarded = true → call.id ≠ id := by
    rintro i call hc hguard rfl
    obtain ⟨k, hk, hnone⟩ := hfree i call hc hguard (allocate_free halloc)
    exact allocate_first halloc hk hnone
  intro j k call call' hj hk hgj hgk heq
  simp only [Function.update_apply] at hj hk
  split at hj
  next hjn =>
      cases hj
      split at hk
      next hkn => exact hjn.trans hkn.symm
      next => exact absurd heq.symm (hnew k call' hk hgk)
  next =>
      split at hk
      next =>
          cases hk
          exact absurd heq (hnew j call hj hgj)
      next => exact hg j k call call' hj hk hgj hgk heq

theorem guardsDiffer_step (hg : GuardsDiffer s) {a : Act} (hok : IdFree s a)
    (h : step s a = some s') : GuardsDiffer s' := by
  cases step_move h with
  | register halloc => exact guardsDiffer_register hg halloc hok
  | advance hc ha => exact hg.setCall hc ha.id fun _ => guarded_of_listening ha.listening
  | ignore => exact hg
  | take => exact hg
  | lose => exact hg
  | @hand entry d call hr hc =>
      have hidle : GuardsDiffer { s with receiver := none } := hg
      exact hidle.setCall hc rfl id
  | @receive i call d hc hd hw =>
      have hrecord : GuardsDiffer (s.record i d) := hg
      exact hrecord.setCall hc rfl fun _ => by rw [UdpCall.guarded, hw]; rfl
  | @close i call hc hguard =>
      have hremoved : GuardsDiffer (s.remove call.id) := hg
      exact hremoved.setCall hc rfl fun _ => hguard

/-- The ways in which an entry may leave the map: a datagram under its identifier
from its own upstream, or the drop of its own guard. -/
def Ends (id : UInt16) (e : PendingUdp) (a : Act) : Prop :=
  (∃ packet, a = .dispatch packet e.upstream ∧ 2 ≤ packet.length ∧ packetId packet = id) ∨
    a = .dropGuard e.call

theorem entry_kept_step {s s' : UdpDispatcher} {a : Act} (h : machine.ReachBy IdFree s)
    {id : UInt16} {e : PendingUdp} (he : s.pending id = some e) (hs : step s a = some s') :
    s'.pending id = some e ∨ Ends id e a := by
  have hi := inv_reach h.reach
  have hnew : GuardsDiffer new := fun _ _ _ _ h => nomatch h
  have hg : GuardsDiffer s := Machine.ReachBy.invariant (P := GuardsDiffer) hnew
    (fun _ _ _ hg hok hs => guardsDiffer_step hg hok hs) h
  obtain ⟨own, hown, hid, -, hguard, -⟩ := hi.entry id e he
  cases step_move hs with
  | @register upstream payload id' next halloc =>
      have hne : id ≠ id' := by
        rintro rfl
        rw [allocate_free halloc] at he
        cases he
      exact .inl (by simpa only [Function.update_of_ne hne] using he)
  | advance => exact .inl he
  | ignore => exact .inl he
  | @take packet entry hlen hp =>
      by_cases hid' : packetId packet = id
      · rw [hid', he] at hp
        cases hp
        exact .inr (.inl ⟨packet, rfl, hlen, hid'⟩)
      · refine .inl ?_
        show Function.update s.pending (packetId packet) none id = some e
        rw [Function.update_of_ne (Ne.symm hid'), he]
  | lose => exact .inl he
  | hand => exact .inl he
  | receive => exact .inl he
  | @close i call hc hclosed =>
      by_cases hid' : call.id = id
      · have hsame : i = e.call := hg i e.call call own hc hown hclosed hguard (hid'.trans hid.symm)
        exact .inr (.inr (by rw [hsame]))
      · refine .inl ?_
        show Function.update s.pending call.id none id = some e
        rw [Function.update_of_ne (Ne.symm hid'), he]

/-- In a run that never hands out the identifier of a call whose guard is still
there, an entry stays until a datagram under its identifier comes from the
upstream of its call or the guard of its call is dropped. -/
theorem entry_kept_while_ids_differ {s s' : UdpDispatcher} {as : List Act}
    (h : machine.ReachBy IdFree s) (hrun : machine.RunBy IdFree s as s') {id : UInt16}
    {e : PendingUdp} (he : s.pending id = some e) :
    (∃ call, s.calls e.call = some call ∧ call.id = id ∧ call.upstream = e.upstream) ∧
      (s'.pending id = some e ∨
        (∃ packet, .dispatch packet e.upstream ∈ as ∧ 2 ≤ packet.length ∧ packetId packet = id) ∨
        .dropGuard e.call ∈ as) := by
  obtain ⟨call, hcall, hid, hup, -⟩ := (inv_reach h.reach).entry id e he
  refine ⟨⟨call, hcall, hid, hup⟩, ?_⟩
  have hstep : ∀ s a s', machine.ReachBy IdFree s → s.pending id = some e →
      machine.step s a = some s' → s'.pending id = some e ∨ Ends id e a :=
    fun _ _ _ h he hs => entry_kept_step h he hs
  rcases hrun.unless (P := fun s => s.pending id = some e) hstep h he with hkept | ⟨a, ha, hend⟩
  · exact .inl hkept
  · rcases hend with ⟨packet, rfl, hlen, hpid⟩ | rfl
    · exact .inr (.inl ⟨packet, ha, hlen, hpid⟩)
    · exact .inr (.inr ha)

theorem entry_kept_while_ids_differ_cancel :
    ∃ s s' e, machine.ReachBy IdFree s ∧ s.pending 0 = some e ∧
      machine.RunBy IdFree s [.cancel 0, .dispatch [0, 0] (.v4 ⟨9, 9, 9, 9⟩ 53)] s' ∧
      (s'.pending 0 = some e ∨
        (∃ packet, .dispatch packet e.upstream ∈
            [Act.cancel 0, .dispatch [0, 0] (.v4 ⟨9, 9, 9, 9⟩ 53)] ∧
          2 ≤ packet.length ∧ packetId packet = 0) ∨
        .dropGuard e.call ∈ [Act.cancel 0, .dispatch [0, 0] (.v4 ⟨9, 9, 9, 9⟩ 53)]) := by
  have hreach : machine.ReachBy IdFree _ :=
    .step (.register sampleUpstream [9, 9, 1, 0]) .init (fun _ _ h => nomatch h) rfl
  refine ⟨_, _, _, hreach, rfl, .cons trivial rfl (.cons trivial rfl .nil), ?_⟩
  refine (entry_kept_while_ids_differ hreach ?_ rfl).2
  exact .cons trivial rfl (.cons trivial rfl .nil)

theorem reach_step {a : Act} (h : machine.Reach s) (hs : step s a = some s') : machine.Reach s' :=
  h.next a hs

theorem step_register (upstream : SocketAddr) (payload : Bytes)
    (hfree : s.pending s.nextId = none) :
    step s (.register upstream payload) = some { s with
      pending := Function.update s.pending s.nextId (some ⟨upstream, s.nextCall⟩)
      nextId := s.nextId + 1
      calls := Function.update s.calls s.nextCall
        (some ⟨s.nextId, upstream, payload, none, none, .sending⟩)
      nextCall := s.nextCall + 1 } := by
  have halloc : allocate s.pending 65536 s.nextId = some (s.nextId, s.nextId + 1) := by
    rw [allocate, hfree]
    rfl
  rw [step, register, halloc]

theorem step_send {i : Nat} {call : UdpCall} (hc : s.calls i = some call)
    (hs : call.stage = .sending) (hlen : 2 ≤ call.payload.length) :
    step s (.send i) = some (s.setCall i { call with
      stage := .waiting
      sent := some (queryFor call.id call.payload) }) := by
  simp only [step, hc, hs, if_true, if_neg (Nat.not_lt.mpr hlen)]

theorem step_take {packet : Bytes} {entry : PendingUdp} (hr : s.receiver = none)
    (hlen : 2 ≤ packet.length) (hp : s.pending (packetId packet) = some entry) :
    step s (.dispatch packet entry.upstream) = some ({ s with
      nextDatagram := s.nextDatagram + 1
      receiver := some (entry, ⟨s.nextDatagram, packet, entry.upstream⟩) }.remove
        (packetId packet)) := by
  simp only [step, hr, Option.isSome_none, Bool.false_eq_true, if_false, dispatchReply,
    if_neg (Nat.not_lt.mpr hlen), hp, if_true]

theorem step_hand {entry : PendingUdp} {d : Datagram} {call : UdpCall}
    (hr : s.receiver = some (entry, d)) (hc : s.calls entry.call = some call)
    (hl : call.listening = true) :
    step s .deliver =
      some ({ s with receiver := none }.setCall entry.call { call with slot := some d }) := by
  simp only [step, hr, deliver, hc, hl, if_true]

theorem step_cancel {i : Nat} {call : UdpCall} (hc : s.calls i = some call)
    (hl : call.listening = true) :
    step s (.cancel i) = some (s.setCall i { call with stage := .cancelled }) := by
  simp only [step, hc, hl, if_true]

theorem step_receive {i : Nat} {call : UdpCall} {d : Datagram} (hc : s.calls i = some call)
    (hd : call.slot = some d) (hw : call.stage = .waiting) :
    step s (.receive i) = some ((s.record i d).setCall i { call with stage := .returned }) := by
  simp only [step, hc, hd, hw, if_true]

theorem step_dropGuard {i : Nat} {call : UdpCall} (hc : s.calls i = some call)
    (hl : call.listening = false) (hg : call.guarded = true) :
    step s (.dropGuard i) = some ((s.setCall i { call with stage := .closed }).remove call.id) := by
  simp only [step, hc, hl, hg, Bool.not_false, Bool.and_self, if_true]

/-- With an empty map, a call that ends at once only moves the counter. -/
theorem reach_idleCall (hreach : machine.Reach s) (hpending : ∀ id, s.pending id = none)
    (hcalls : 0 < s.nextCall) :
    ∃ s', machine.Reach s' ∧ (∀ id, s'.pending id = none) ∧ s'.nextId = s.nextId + 1 ∧
      s'.calls 0 = s.calls 0 ∧ 0 < s'.nextCall := by
  have h1 := reach_step hreach (step_register sampleUpstream [9, 9, 1, 0] (hpending s.nextId))
  have h2 := reach_step h1 (step_cancel (Function.update_self ..) rfl)
  have h3 := reach_step h2 (step_dropGuard (Function.update_self ..) rfl rfl)
  refine ⟨_, h3, fun id => ?_, rfl, ?_, Nat.succ_pos _⟩
  · simp only [remove, setCall, Function.update_apply, hpending]
    split
    · rfl
    · rfl
  · have hne : 0 ≠ s.nextCall := Nat.ne_of_lt hcalls
    simp only [remove, setCall, Function.update_of_ne hne]

/-- The counter can be moved on without a trace. -/
theorem reach_idleCalls (hreach : machine.Reach s) (hpending : ∀ id, s.pending id = none)
    (hcalls : 0 < s.nextCall) (n : Nat) :
    ∃ s', machine.Reach s' ∧ (∀ id, s'.pending id = none) ∧
      s'.nextId = s.nextId + UInt16.ofNat n ∧ s'.calls 0 = s.calls 0 ∧ 0 < s'.nextCall := by
  induction n with
  | zero => exact ⟨s, hreach, hpending, by simp, rfl, hcalls⟩
  | succ n ih =>
      obtain ⟨s1, h1, hp1, hid1, hc1, hn1⟩ := ih
      obtain ⟨s2, h2, hp2, hid2, hc2, hn2⟩ := reach_idleCall h1 hp1 hn1
      refine ⟨s2, h2, hp2, ?_, hc2.trans hc1, hn2⟩
      rw [hid2, hid1, UInt16.add_assoc, UInt16.ofNat_add]
      rfl

def answeredCall : UdpCall where
  id := 0
  upstream := sampleUpstream
  payload := [9, 9, 1, 0]
  sent := some [0, 0, 1, 0]
  slot := some ⟨0, [0, 0, 129, 128], sampleUpstream⟩
  stage := .waiting

theorem reach_answeredCall : ∃ s, machine.Reach s ∧ (∀ id, s.pending id = none) ∧ s.nextId = 1 ∧
    s.calls 0 = some answeredCall ∧ 0 < s.nextCall := by
  have h0 : machine.Reach new := .init
  have h1 := reach_step h0 (step_register sampleUpstream [9, 9, 1, 0] rfl)
  have h2 := reach_step h1 (step_send (Function.update_self ..) rfl (by decide))
  have h3 := reach_step h2 (@step_take _ [0, 0, 129, 128] ⟨sampleUpstream, 0⟩ rfl (by decide) rfl)
  have h4 := reach_step h3 (step_hand rfl rfl rfl)
  refine ⟨_, h4, fun id => ?_, rfl, rfl, Nat.one_pos⟩
  -- The one entry there was is taken out by the reply.
  have hid : packetId [0, 0, 129, 128] = new.nextId := by decide
  simp only [remove, setCall, hid, Function.update_idem]
  exact congrFun (Function.update_eq_self new.nextId new.pending) id

/-- Once the counter has gone around, the guard of an answered call removes the
entry of another one. -/
theorem late_guard_removes_other_entry :
    ∃ s s' e, machine.Reach s ∧ s.pending 0 = some e ∧ e.call ≠ 0 ∧
      step s (.dropGuard 0) = some s' ∧ s'.pending 0 = none := by
  obtain ⟨s0, h0, hp0, hid0, hc0, hn0⟩ := reach_answeredCall
  obtain ⟨s1, h1, hp1, hid1, hc1, hn1⟩ := reach_idleCalls h0 hp0 hn0 65535
  have hwrapped : s1.nextId = 0 := by
    rw [hid1, hid0]
    rfl
  have hne : 0 ≠ s1.nextCall := Nat.ne_of_lt hn1
  -- Another call gets the identifier of the first, which then wakes up.
  have h2 := reach_step h1 (step_register sampleUpstream [9, 9, 1, 0] (hp1 s1.nextId))
  have hc2 : Function.update s1.calls s1.nextCall
      (some ⟨s1.nextId, sampleUpstream, [9, 9, 1, 0], none, none, .sending⟩) 0 =
      some answeredCall := by
    rw [Function.update_of_ne hne, hc1, hc0]
  have h3 := reach_step h2 (step_receive hc2 rfl rfl)
  refine ⟨_, _, ⟨sampleUpstream, s1.nextCall⟩, h3, ?_, hne.symm,
    step_dropGuard (calls_setCall_self ..) rfl rfl, ?_⟩
  · show Function.update s1.pending s1.nextId _ 0 = _
    rw [hwrapped, Function.update_self]
  · simp only [remove, answeredCall, Function.update_self]

end UdpDispatcher

end DnsRelay
