import DnsRelay.Relay.AdmissionSafety
import DnsRelay.Relay.ReplyHeader

/-!
# The server with its handler

`Admission` decides which datagrams get a task and `Handler` what a task
replies.  `Service` runs both.  A task enters the handler once, with its query
and the rules it was spawned with, and ends with what its call returns.  The
counters of `MetricWrapper` are raised where the handler raises them.

The two machines keep their own rules, so what is proved of each holds of the
whole.  Together they say what a peer can see on the wire.
-/

namespace DnsRelay

open Lib

/-- The counters. -/
abbrev Counters := Counter → UInt64

/-- `incr_metric`. -/
def incrMetric (counters : Option Counters) (field : Option Counter) : Option Counters :=
  match counters, field with
  | some m, some field => some (Function.update m field (m field + 1))
  | counters, _ => counters

namespace Handler

section Counted

variable (U : CaseTable) (S : UnstableSort) {M : EvictingMap CacheKey CacheEntry}

def counted (secureOnly : Bool) (s : Handler M) : Act → Option Counter
  | .query q =>
      match openQuery U s.relayPicker q with
      | .done (some ⟨_, .drop⟩) => some .dropCount
      | .done (some ⟨_, .redirect⟩) => some .redirectCount
      | _ => none
  | .lookup i now =>
      match s.calls[i]? with
      | some ⟨_, .keyed k⟩ =>
          (cacheLookup M s.cache now k.key).2.map fun _ => .cachedCount
      | _ => none
  | .resolve i _ healthy preferDoh net =>
      match s.calls[i]? with
      | some ⟨q, .resolving _ k⟩ =>
          (resolveTransport S k.domain q.payload k.effectiveSubnet preferDoh
            ⟨healthy, secureOnly⟩ s.relayPicker.isSome net).map fun result =>
              match result with
              | .ok _ => .resolvedCount
              | .error .resolveTimeout => .timeoutCount
              | .error _ => .failedCount
      | _ => none
  | _ => none

end Counted

variable {U : CaseTable} {S : UnstableSort} {M : EvictingMap CacheKey CacheEntry}
  {secureOnly : Bool} {s s' : Handler M}

def Act.entering : Act → Nat
  | .query _ => 1
  | _ => 0

end Handler

/-! ## The whole server -/

/-- The server, its handler and its counters. -/
structure Service (Key : Type) (M : EvictingMap CacheKey CacheEntry) where
  server : Admission Key
  handler : Handler M
  /-- The task of each call of the handler. -/
  entered : List Nat
  counters : Option Counters

def Admission.Act.ends : Admission.Act → Bool
  | .finish _ _ _ => true
  | .tick _ | .reload _ | .receive _ _ | .dispatch _ | .dequeue | .launch => false

def QueryTask.query {Key : Type} (t : QueryTask Key) : Query :=
  ⟨t.payload, t.arrival.srcAddr, t.ruleTrie⟩

def Stage.returned? : Stage → Option (Option Bytes)
  | .done r => some (r.map Reply.packet)
  | .cancelled => some none
  | .keyed _ | .missed _ | .following _ | .resolving _ _ | .publishing _ _ | .sent _ _ => none

namespace Service

section Steps

variable {Key : Type} {M : EvictingMap CacheKey CacheEntry} (A : ChaCha20Poly1305 Key)
  (keys : List Key) (U : CaseTable) (S : UnstableSort) (secureOnly : Bool)

inductive Act where
  | serve (a : Admission.Act)
  | enter (i : Nat)
  | handle (a : Handler.Act)
  | finish (c : Nat) (draw : Draw)

def handled (s : Service Key M) (a : Handler.Act) : Option (Service Key M) :=
  (s.handler.step U S secureOnly a).map fun handler =>
    { s with
      handler := handler
      counters := incrMetric s.counters (s.handler.counted U S secureOnly a) }

def step (s : Service Key M) : Act → Option (Service Key M)
  | .serve a =>
      if a.ends then none
      else (s.server.step A keys a).map fun server => { s with server := server }
  | .enter i =>
      match s.server.tasks[i]? with
      | none => none
      | some t =>
          if t.running ∧ i ∉ s.entered then
            { s with entered := s.entered ++ [i] }.handled U S secureOnly (.query t.query)
          else none
  | .handle a => if a.entering = 0 then s.handled U S secureOnly a else none
  | .finish c draw =>
      match s.handler.calls[c]?, s.entered[c]? with
      | some call, some i =>
          call.stage.returned?.bind fun resp =>
            (s.server.step A keys (.finish i resp draw)).map fun server =>
              { s with server := server }
      | _, _ => none

/-- The server with any clients, any network and any clock. -/
def machine (M : EvictingMap CacheKey CacheEntry) (metrics : Bool) (ruleTrie : DomainTrie)
    (relayPicker : Option RelayPicker) : Machine (Service Key M) Act where
  init := ⟨.new metrics ruleTrie, .new M relayPicker, [], if metrics then some fun _ => 0 else none⟩
  step := step A keys U S secureOnly

end Steps

/-! ## What a step can do -/

variable {Key : Type} {M : EvictingMap CacheKey CacheEntry} {A : ChaCha20Poly1305 Key}
  {keys : List Key} {U : CaseTable} {S : UnstableSort} {secureOnly : Bool}
  {s s' : Service Key M}

/-- The steps by their effect, with what each one finds. -/
inductive Move (A : ChaCha20Poly1305 Key) (keys : List Key) (U : CaseTable) (S : UnstableSort)
    (secureOnly : Bool) (s : Service Key M) : Act → Service Key M → Prop where
  | serve {a : Admission.Act} {server : Admission Key} (goesOn : a.ends = false)
      (served : s.server.step A keys a = some server) :
      Move A keys U S secureOnly s (.serve a) { s with server := server }
  | enter {i : Nat} {t : QueryTask Key} {handler : Handler M}
      (found : s.server.tasks[i]? = some t) (fresh : i ∉ s.entered)
      (entered : s.handler.step U S secureOnly (.query t.query) = some handler) :
      Move A keys U S secureOnly s (.enter i)
        ⟨s.server, handler, s.entered ++ [i],
          incrMetric s.counters (s.handler.counted U S secureOnly (.query t.query))⟩
  | handle {a : Handler.Act} {handler : Handler M} (goesOn : a.entering = 0)
      (moved : s.handler.step U S secureOnly a = some handler) :
      Move A keys U S secureOnly s (.handle a)
        ⟨s.server, handler, s.entered, incrMetric s.counters (s.handler.counted U S secureOnly a)⟩
  | finish {c i : Nat} {draw : Draw} {call : Call} {resp : Option Bytes} {server : Admission Key}
      (found : s.handler.calls[c]? = some call) (task : s.entered[c]? = some i)
      (returned : call.stage.returned? = some resp)
      (ended : s.server.step A keys (.finish i resp draw) = some server) :
      Move A keys U S secureOnly s (.finish c draw) { s with server := server }

/-- Every step is one of the moves. -/
theorem step_move {a : Act} (h : step A keys U S secureOnly s a = some s') :
    Move A keys U S secureOnly s a s' := by
  cases a with
  | serve a =>
      simp only [step] at h
      split at h
      · cases h
      · next hgoes =>
          obtain ⟨server, hserver, rfl⟩ := Option.map_eq_some_iff.mp h
          exact .serve (Bool.eq_false_iff.mpr hgoes) hserver
  | enter i =>
      simp only [step] at h
      split at h
      · cases h
      · next t found =>
          split at h
          · next hfresh =>
              obtain ⟨handler, hstep, rfl⟩ := Option.map_eq_some_iff.mp h
              exact .enter found hfresh.2 hstep
          · cases h
  | handle a =>
      simp only [step] at h
      split at h
      · next hgoes =>
          obtain ⟨handler, hstep, rfl⟩ := Option.map_eq_some_iff.mp h
          exact .handle hgoes hstep
      · cases h
  | finish c draw =>
      simp only [step] at h
      split at h
      · next call i found task =>
          obtain ⟨resp, hreturned, hresp⟩ := Option.bind_eq_some_iff.mp h
          obtain ⟨server, hended, rfl⟩ := Option.map_eq_some_iff.mp hresp
          exact .finish found task hreturned hended
      · cases h

/-! ## The two machines -/

/-- What is proved of the server holds of the whole. -/
theorem Move.server_reach {metrics : Bool} {ruleTrie : DomainTrie} {a : Act}
    (h : Move A keys U S secureOnly s a s')
    (hs : (Admission.machine A keys metrics ruleTrie).Reach s.server) :
    (Admission.machine A keys metrics ruleTrie).Reach s'.server := by
  cases h with
  | serve goesOn served => exact hs.next _ served
  | enter _ _ _ => exact hs
  | handle _ _ => exact hs
  | finish _ _ _ ended => exact hs.next (.finish _ _ _) ended

/-- So does what is proved of the handler. -/
theorem Move.handler_reach {relayPicker : Option RelayPicker} {a : Act}
    (h : Move A keys U S secureOnly s a s')
    (hs : (Handler.machine U S M secureOnly relayPicker).Reach s.handler) :
    (Handler.machine U S M secureOnly relayPicker).Reach s'.handler := by
  cases h with
  | serve _ _ => exact hs
  | enter _ _ entered => exact hs.next (.query _) entered
  | handle _ moved => exact hs.next _ moved
  | finish _ _ _ _ => exact hs

/-- A task is kept as it is, but that it may end. -/
theorem task_kept {server server' : Admission Key} {a : Admission.Act}
    (h : server.step A keys a = some server') {i : Nat} {t : QueryTask Key}
    (found : server.tasks[i]? = some t) :
    ∃ running, server'.tasks[i]? = some { t with running := running } := by
  have hsame : ∀ tasks : List (QueryTask Key), ∃ running,
      (server.tasks ++ tasks)[i]? = some { t with running := running } := by
    intro tasks
    have hlt := (List.getElem?_eq_some_iff.mp found).1
    exact ⟨t.running, (List.getElem?_append_left hlt).trans found⟩
  cases Admission.step_move h with
  | tick | reload | receive _ _ | queue _ _ | refuse _ _ | expire _ _ _ | hold _ _ =>
      exact ⟨t.running, found⟩
  | start _ _ _ => exact hsame _
  | launch _ => exact hsame _
  | @finish resp draw before after t' hfound running =>
      rw [hfound] at found
      rcases Nat.lt_trichotomy i before.length with hlt | heq | hgt
      · rw [List.getElem?_append_left hlt] at found
        exact ⟨t.running, (List.getElem?_append_left hlt).trans found⟩
      · rw [heq, List.getElem?_append_right (Nat.le_refl _), Nat.sub_self] at found
        obtain rfl := Option.some.inj found
        refine ⟨false, ?_⟩
        rw [heq, List.getElem?_append_right (Nat.le_refl _), Nat.sub_self]
        rfl
      · have hcons : ∀ x : QueryTask Key, (before ++ x :: after)[i]? =
            after[i - before.length - 1]? := by
          intro x
          rw [List.getElem?_append_right (Nat.le_of_lt hgt),
            List.getElem?_cons, if_neg (Nat.sub_ne_zero_of_lt hgt)]
        rw [hcons] at found
        exact ⟨t.running, (hcons _).trans found⟩

theorem queries_step {handler handler' : Handler M} {a : Handler.Act} (ha : a.entering = 0)
    (h : handler.step U S secureOnly a = some handler') : handler'.queries = handler.queries := by
  cases Handler.step_move h with
  | query => cases ha
  | lookup found => exact Handler.queries_setStage found _
  | join found => exact Handler.queries_setStage found _
  | respond found _ _ => exact Handler.queries_setStage found _
  | giveUp found _ _ _ => exact Handler.queries_setStage found _
  | send found _ => exact Handler.queries_setStage found _
  | finish found _ => exact Handler.queries_setStage found _
  | answer found _ => exact Handler.queries_setStage found _
  | cancel found _ _ => exact Handler.queries_setStage found _
  | flight _ _ | rediscover | discover _ | clear => rfl

/-- The calls of the handler are for the tasks that entered it, one each. -/
structure Linked (s : Service Key M) : Prop where
  tasks : List.Forall₂ (fun i q => ∃ t, s.server.tasks[i]? = some t ∧ t.query = q) s.entered
    s.handler.queries
  distinct : s.entered.Nodup

theorem Linked.served {server : Admission Key} (hs : Linked s) {a : Admission.Act}
    (h : s.server.step A keys a = some server) : Linked { s with server := server } := by
  refine ⟨hs.tasks.imp ?_, hs.distinct⟩
  rintro i q ⟨t, found, rfl⟩
  obtain ⟨running, hkept⟩ := task_kept h found
  exact ⟨_, hkept, rfl⟩

theorem Move.linked {a : Act} (h : Move A keys U S secureOnly s a s') (hs : Linked s) :
    Linked s' := by
  cases h with
  | serve _ served => exact hs.served served
  | @enter i t handler found fresh entered =>
      refine ⟨?_, List.nodup_append.mpr ⟨hs.distinct, List.nodup_singleton i, ?_⟩⟩
      · cases entered
        show List.Forall₂ _ (s.entered ++ [i]) (Handler.queries _)
        rw [Handler.queries, List.map_append]
        exact List.rel_append hs.tasks (.cons ⟨t, found, rfl⟩ .nil)
      · intro j hj k hk
        rw [List.mem_singleton.mp hk]
        exact fun heq => fresh (heq ▸ hj)
  | handle goesOn moved =>
      refine ⟨?_, hs.distinct⟩
      show List.Forall₂ _ s.entered (Handler.queries _)
      rw [queries_step goesOn moved]
      exact hs.tasks
  | finish _ _ _ ended => exact hs.served ended

/-! ## On the wire -/

/-- The packet is a response to the query: it has a header with the response
bit and the identifier of the query. -/
def Responds (query packet : Bytes) : Prop :=
  12 ≤ packet.length ∧ packet.take 2 = query.take 2 ∧ byteAt packet 2 &&& 0x80 ≠ 0

/-- What a call returns responds to its query. -/
theorem returned_responds {relayPicker : Option RelayPicker} {handler : Handler M}
    (h : (Handler.machine U S M secureOnly relayPicker).Reach handler) {call : Call}
    (hcall : call ∈ handler.calls) {packet : Bytes}
    (hreturned : call.stage.returned? = some (some packet)) :
    Responds call.query.payload packet := by
  obtain ⟨hi, hstamps⟩ := Handler.stamps_reach h
  have hok := hi.calls call hcall
  have hstamp := hstamps.calls call hcall
  cases hstage : call.stage with
  | done r =>
      rw [hstage] at hreturned
      obtain ⟨reply, rfl, rfl⟩ := Option.map_eq_some_iff.mp (Option.some.inj hreturned)
      rw [Handler.StageOk, hstage] at hok
      rw [Handler.Stamped, hstage] at hstamp
      obtain ⟨h12, hbit⟩ := Handler.Explained.responseHeader hok
      exact ⟨h12, hstamp, hbit⟩
  | cancelled =>
      rw [hstage] at hreturned
      cases hreturned
  | keyed | missed | following | resolving | publishing | sent =>
      rw [hstage] at hreturned
      cases hreturned

/-- The reply was made for a task, from a packet that responds to its query. -/
def Sound (A : ChaCha20Poly1305 Key) (server : Admission Key) (r : Sent) : Prop :=
  ∃ (i : Nat) (t : QueryTask Key) (resp : Bytes) (draw : Draw), server.tasks[i]? = some t ∧
    Responds t.payload resp ∧ r = Admission.reply A t resp draw

theorem Sound.served {server server' : Admission Key} {a : Admission.Act} {r : Sent}
    (hr : Sound A server r) (h : server.step A keys a = some server') : Sound A server' r := by
  obtain ⟨i, t, resp, draw, found, hresp, rfl⟩ := hr
  obtain ⟨running, hkept⟩ := task_kept h found
  exact ⟨i, _, resp, draw, hkept, hresp, rfl⟩

/-- Only the end of a task sends. -/
theorem sent_of_not_ends {server server' : Admission Key} {a : Admission.Act}
    (h : server.step A keys a = some server') (ha : a.ends = false) :
    server'.sent = server.sent := by
  cases Admission.step_move h with
  | finish _ _ => cases ha
  | tick | reload | receive _ _ | start _ _ _ | queue _ _ | refuse _ _ | expire _ _ _ | hold _ _
  | launch _ => rfl

/-- The end of a task sends what it was given. -/
theorem sent_of_finish {server server' : Admission Key} {i : Nat} {resp : Option Bytes}
    {draw : Draw} (h : server.step A keys (.finish i resp draw) = some server') :
    ∃ t, server.tasks[i]? = some t ∧
      server'.sent = server.sent ++ (resp.map (Admission.reply A t · draw)).toList := by
  rw [Admission.step] at h
  split at h
  · cases h
  · next t found =>
      split at h
      · cases h
        exact ⟨t, found, rfl⟩
      · cases h

theorem Linked.query_eq (hs : Linked s) {c i : Nat} {call : Call} {t : QueryTask Key}
    (found : s.handler.calls[c]? = some call) (task : s.entered[c]? = some i)
    (htask : s.server.tasks[i]? = some t) : t.query = call.query := by
  have hquery : s.handler.queries[c]? = some call.query := by
    rw [Handler.queries, List.getElem?_map, found]
    rfl
  obtain ⟨hc, rfl⟩ := List.getElem?_eq_some_iff.mp task
  obtain ⟨hc', hcall⟩ := List.getElem?_eq_some_iff.mp hquery
  obtain ⟨t', htask', hq⟩ := hs.tasks.get hc hc'
  rw [List.get_eq_getElem, htask] at htask'
  obtain rfl := Option.some.inj htask'
  rw [hq, List.get_eq_getElem, hcall]

theorem Move.sound {relayPicker : Option RelayPicker} {a : Act}
    (h : Move A keys U S secureOnly s a s') (hlinked : Linked s)
    (hreach : (Handler.machine U S M secureOnly relayPicker).Reach s.handler)
    (hs : ∀ r ∈ s.server.sent, Sound A s.server r) :
    ∀ r ∈ s'.server.sent, Sound A s'.server r := by
  cases h with
  | enter _ _ _ => exact hs
  | handle _ _ => exact hs
  | serve goesOn served =>
      intro r hr
      rw [sent_of_not_ends served goesOn] at hr
      exact (hs r hr).served served
  | @finish c i draw call resp server found task returned ended =>
      intro r hr
      obtain ⟨t, htask, hsent⟩ := sent_of_finish ended
      rw [hsent] at hr
      rcases List.mem_append.mp hr with hr | hr
      · exact (hs r hr).served ended
      · cases resp with
        | none => exact absurd hr List.not_mem_nil
        | some packet =>
            have hresponds := returned_responds hreach (List.mem_of_getElem? found) returned
            rw [← hlinked.query_eq found task htask] at hresponds
            have hnew : Sound A s.server r :=
              ⟨i, t, packet, draw, htask, hresponds, List.mem_singleton.mp hr⟩
            exact hnew.served ended

def Act.received : Act → List Arrival
  | .serve a => a.received
  | .enter _ | .handle _ | .finish _ _ => []

def receivedBy (as : List Act) : List Arrival := as.flatMap Act.received

theorem receivedBy_cons (a : Act) (as : List Act) :
    receivedBy (a :: as) = a.received ++ receivedBy as :=
  List.flatMap_cons

/-- A query for a dropped name is received, handled and answered. -/
def sampleActs : List Act :=
  [.serve (.receive .plain [(addressQuery [1, 0x61, 0], Admission.samplePeer)]),
    .serve (.dispatch .plain), .enter 0, .finish 0 shortDraw]

def sampleMachine : Machine (Service Bool (.recent CacheKey CacheEntry (cacheCapacity - 1))) Act :=
  machine markedCipher [true] .ascii .insertion true _ true
    (DomainTrie.new.insertDrop .ascii "a".toList) none

theorem sample_runs : ∃ s, sampleMachine.run sampleMachine.init sampleActs = some s ∧
    s.server.sent.length = 1 := by
  have hrun : (sampleMachine.run sampleMachine.init sampleActs).any
      (fun s => s.server.sent.length = 1) = true := by decide +kernel
  obtain ⟨s, hs, hsent⟩ := (Option.any_eq_true _ _).mp hrun
  exact ⟨s, hs, of_decide_eq_true hsent⟩

section Runs

variable {metrics : Bool} {ruleTrie : DomainTrie} {relayPicker : Option RelayPicker}

/-- A run of the whole is a run of the server, with the same datagrams. -/
theorem run_server {as : List Act}
    (h : (machine A keys U S secureOnly M metrics ruleTrie relayPicker).run s as = some s') :
    ∃ served, (Admission.machine A keys metrics ruleTrie).run s.server served = some s'.server ∧
      Admission.receivedBy served = receivedBy as := by
  induction as generalizing s with
  | nil =>
      cases h
      exact ⟨[], rfl, rfl⟩
  | cons a as ih =>
      obtain ⟨s1, hs, hr⟩ := Option.bind_eq_some_iff.mp h
      obtain ⟨served, hrun, hsame⟩ := ih hr
      rw [receivedBy_cons]
      cases step_move hs with
      | @serve a server goesOn hserved =>
          refine ⟨a :: served, Machine.run_cons hserved hrun, ?_⟩
          rw [Admission.receivedBy_cons, hsame, Act.received]
      | enter _ _ _ => exact ⟨served, hrun, hsame⟩
      | handle _ _ => exact ⟨served, hrun, hsame⟩
      | @finish c i draw call resp server found task returned ended =>
          exact ⟨.finish i resp draw :: served, Machine.run_cons ended hrun, hsame⟩

/-- What holds of the whole in every state. -/
structure Inv (A : ChaCha20Poly1305 Key) (keys : List Key) (U : CaseTable) (S : UnstableSort)
    (secureOnly metrics : Bool) (ruleTrie : DomainTrie) (relayPicker : Option RelayPicker)
    (s : Service Key M) : Prop where
  server : (Admission.machine A keys metrics ruleTrie).Reach s.server
  handler : (Handler.machine U S M secureOnly relayPicker).Reach s.handler
  linked : Linked s
  sound : ∀ r ∈ s.server.sent, Sound A s.server r

theorem reach_inv
    (h : (machine A keys U S secureOnly M metrics ruleTrie relayPicker).Reach s) :
    Inv A keys U S secureOnly metrics ruleTrie relayPicker s := by
  refine Machine.ReachBy.invariant
    (P := Inv A keys U S secureOnly metrics ruleTrie relayPicker) ?_ ?_ h
  · exact ⟨.init, .init, ⟨.nil, List.nodup_nil⟩, fun r hr => absurd hr List.not_mem_nil⟩
  · intro s a s' hi _ hs
    have hmove := step_move hs
    exact ⟨hmove.server_reach hi.server, hmove.handler_reach hi.handler, hmove.linked hi.linked,
      hmove.sound hi.linked hi.handler hi.sound⟩

theorem arrival_received {as : List Act}
    (h : (machine A keys U S secureOnly M metrics ruleTrie relayPicker).run
      (machine A keys U S secureOnly M metrics ruleTrie relayPicker).init as = some s)
    {t : QueryTask Key} (ht : t ∈ s.server.tasks) : t.arrival ∈ receivedBy as := by
  obtain ⟨served, hrun, hsame⟩ := run_server h
  have hmem : t.arrival ∈ s.server.whereabouts :=
    Multiset.mem_add.mpr (.inl (Multiset.mem_add.mpr (.inr (List.mem_map_of_mem ht))))
  rw [Admission.run_new_whereabouts hrun, hsame] at hmem
  exact hmem

/-- What a peer can see.  Every datagram the server sends goes to a peer, on the
socket, from which it has received a query with the same identifier.  It is a
response with a whole header.  On the second socket it is encrypted under the
key that opened the query. -/
theorem wire_replies_respond {as : List Act}
    (h : (machine A keys U S secureOnly M metrics ruleTrie relayPicker).run
      (machine A keys U S secureOnly M metrics ruleTrie relayPicker).init as = some s) :
    ∀ r ∈ s.server.sent, ∃ d ∈ receivedBy as, d.origin = r.origin ∧
      (d.listener = .plain → Responds d.payload r.datagram) ∧
      (d.listener = .obfs → ∃ key query resp draw, findKey A keys d.payload = some (key, query) ∧
        Responds query resp ∧ r.datagram = ObfsKey.encode A key resp draw) := by
  intro r hr
  have hi := reach_inv (Machine.reach_of_run h)
  obtain ⟨i, t, resp, draw, found, hresp, rfl⟩ := hi.sound r hr
  have ht := List.mem_of_getElem? found
  have hgenuine := (Admission.reach_labelled hi.server).tasks t ht
  refine ⟨t.arrival, arrival_received h ht, rfl, fun hplain => ?_, fun hobfs => ?_⟩
  · obtain ⟨hkey, hpayload⟩ := hgenuine.plain hplain
    rw [Admission.reply, hkey, ← hpayload]
    exact hresp
  · obtain ⟨key, hkey, hfind⟩ := hgenuine.obfs hobfs
    refine ⟨key, t.payload, resp, draw, hfind, hresp, ?_⟩
    rw [Admission.reply, hkey]

theorem wire_replies_respond_sample : ∃ s,
    sampleMachine.run sampleMachine.init sampleActs = some s ∧ s.server.sent.length = 1 ∧
      ∀ r ∈ s.server.sent, ∃ d ∈ receivedBy sampleActs, d.origin = r.origin ∧
        (d.listener = .plain → Responds d.payload r.datagram) := by
  obtain ⟨s, hs, hsent⟩ := sample_runs
  refine ⟨s, hs, hsent, fun r hr => ?_⟩
  obtain ⟨d, hd, horigin, hplain, -⟩ := wire_replies_respond hs r hr
  exact ⟨d, hd, horigin, hplain⟩

end Runs

end Service

end DnsRelay
