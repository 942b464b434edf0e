import DnsRelay.Lib.Result
import DnsRelay.Proxy.ObfsHop
import DnsRelay.Relay.ReplyHeader
import DnsRelay.Shared.Ageing

/-!
# The proxy

The proxy answers a query from its rules, from its cache, or with the first
reply that one of its targets gives.  The targets are tried one after the
other, in their configured order or from a starting point that moves with each
query.

What happens on the way to a target is an argument.  Each attempt has a draw
for the padding and a reaction of the network to the datagram that is sent.

When every target has failed the handler makes a SERVFAIL and drops it, so
nothing is sent.  And a reply of less than two bytes is passed on without the
identifier of the query.  In all other cases a query with a cache key is
answered once (`proxy_answers_once_iff`).
-/

namespace DnsRelay.Proxy

open Lib

/-! ## Targets -/

inductive TransportMode where
  | plain
  | udpObfs
deriving DecidableEq, Repr

structure ResolvedTarget (Key : Type) where
  name : Str
  mode : TransportMode
  addr : SocketAddr
  key : Option Key
  /-- The obfuscated mode has a key, as `resolve_targets` sees to. -/
  keyed : mode = .udpObfs → key.isSome = true

inductive ProxyStrategy where
  | ordered
  | roundRobin
deriving DecidableEq, Repr

structure TargetPicker (Key : Type) where
  targets : List (ResolvedTarget Key)
  strategy : ProxyStrategy
  cursor : UInt64
  /-- `TargetPicker::new` wants a target. -/
  nonempty : targets ≠ []

/-- `TargetPicker::try_order`, and the picker afterwards. -/
def TargetPicker.tryOrder {Key : Type} (picker : TargetPicker Key) :
    List (ResolvedTarget Key) × TargetPicker Key :=
  match picker.strategy with
  | .ordered => (picker.targets, picker)
  | .roundRobin =>
      let start := picker.cursor.toNat % picker.targets.length
      (picker.targets.drop start ++ picker.targets.take start,
        { picker with cursor := picker.cursor + 1 })

/-! ## Attempts -/

/-- What becomes of a datagram that is sent to a target. -/
inductive Reception where
  | io (text : Str)
  | timeout
  | datagram (bytes : Bytes)
deriving DecidableEq, Repr

structure Attempt where
  /-- What `encode` draws. -/
  draw : Draw
  reception : Bytes → Reception

structure Env where
  attempts : Nat → Attempt
  display : SocketAddr → Str
  lookupAt : Nat
  storeAt : Nat

def receive : Reception → Except Error Bytes
  | .io text => .error (.io text)
  | .timeout => .error .resolveTimeout
  | .datagram bytes => .ok (recv proxyPayloadBufSize bytes)

/-- `send_plain`. -/
def sendPlain (query : Bytes) (attempt : Attempt) : Except Error Bytes :=
  receive (attempt.reception query)

section Attempts

variable {Key : Type} (A : ChaCha20Poly1305 Key)

def errorOfHop : SendError → Error
  | .resolveTimeout => .resolveTimeout
  | .invalidResolver message => .invalidResolver message

/-- `send_obfs`.  It is the hop to a relay, over a socket that may fail. -/
def sendObfs (addrText : Str) (key : Key) (query : Bytes) (attempt : Attempt) :
    Except Error Bytes :=
  let hop (relay : Bytes → Option Bytes) : Except Error Bytes :=
    (DnsRelay.sendObfs A addrText key query attempt.draw relay).mapError errorOfHop
  match attempt.reception (ObfsKey.encode A key query attempt.draw) with
  | .io text => .error (.io text)
  | .timeout => hop fun _ => none
  | .datagram bytes => hop fun _ => some bytes

/-- One round of `forward_query`. -/
def send (env : Env) (query : Bytes) (i : Nat) (target : ResolvedTarget Key) :
    Except Error Bytes :=
  match h : target.mode with
  | .plain => sendPlain query (env.attempts i)
  | .udpObfs =>
      sendObfs A (env.display target.addr) (target.key.get (target.keyed h)) query
        (env.attempts i)

/-- The loop of `forward_query`. -/
def forwardLoop (env : Env) (query : Bytes) :
    List (ResolvedTarget Key) → Nat → Error → Except Error Bytes
  | [], _, lastErr => .error lastErr
  | target :: rest, i, _ =>
      match send A env query i target with
      | .ok reply => .ok reply
      | .error err => forwardLoop env query rest (i + 1) err

/-- `forward_query`, and the picker afterwards. -/
def forwardQuery (env : Env) (picker : TargetPicker Key) (query : Bytes) :
    TargetPicker Key × Except Error Bytes :=
  let (order, picker) := picker.tryOrder
  (picker, forwardLoop A env query order 0 .noHealthyResolvers)

end Attempts

/-! ## The handler -/

/-- What a call of `handle_query` leaves behind. -/
structure Handled (M : EvictingMap CacheKey CacheEntry) (Key : Type) where
  sent : List Bytes
  counted : List Counter
  cache : M.State
  picker : TargetPicker Key

section Handler

variable (U : CaseTable) (M : EvictingMap CacheKey CacheEntry) {Key : Type}
  (A : ChaCha20Poly1305 Key)

/-- `handle_query`. -/
def handleQuery (ruleTrie : DomainTrie) (env : Env) (cache : M.State) (picker : TargetPicker Key)
    (payload : Bytes) : Handled M Key :=
  if payload.length < 12 then ⟨[], [], cache, picker⟩
  else
    match parseDomain U payload 12 with
    | none => ⟨[], [], cache, picker⟩
    | some (domain, qnameEnd) =>
        match checkRules U domain ruleTrie with
        | .drop =>
            match craftNxdomainResponse payload with
            | some resp => ⟨[resp], [.dropCount], cache, picker⟩
            | none => ⟨[], [], cache, picker⟩
        | .redirect ips =>
            match craftRedirectResponse payload qnameEnd ips with
            | some resp => ⟨[resp], [.redirectCount], cache, picker⟩
            | none => ⟨[], [], cache, picker⟩
        | .none =>
            match cacheKeyFromQueryForSubnet U payload none with
            | none => ⟨[], [], cache, picker⟩
            | some cacheKey =>
                let reqTxid := (byteAt payload 0, byteAt payload 1)
                match cacheLookup M cache env.lookupAt cacheKey with
                | (cache, some cached) =>
                    ⟨[withTxid cached reqTxid], [.cachedCount], cache, picker⟩
                | (cache, none) =>
                    match forwardQuery A env picker payload with
                    | (picker, .ok replyBuf) =>
                        ⟨[withTxid replyBuf reqTxid], [.resolvedCount],
                          cacheStore M cache env.storeAt cacheKey replyBuf, picker⟩
                    | (picker, .error _) =>
                        -- The SERVFAIL that is made here goes nowhere.
                        let _ := craftServfailResponse payload
                        ⟨[], [.failedCount], cache, picker⟩

/-! ## The fallback chain -/

variable {A} {env : Env} {picker : TargetPicker Key} {payload : Bytes}

variable (A env picker payload) in
/-- The results of all targets, in the order in which they are tried. -/
def results : List (Except Error Bytes) :=
  picker.tryOrder.1.mapIdx (send A env payload)

theorem forwardLoop_eq (order : List (ResolvedTarget Key)) (i : Nat) (lastErr : Error) :
    forwardLoop A env payload order i lastErr =
      firstOk (order.mapIdx fun k => send A env payload (i + k)) lastErr := by
  induction order generalizing i lastErr with
  | nil => rfl
  | cons target rest ih =>
      have hshift : (fun k => @send Key A env payload (i + 1 + k)) =
          fun k => send A env payload (i + (k + 1)) := by
        funext k
        rw [Nat.add_assoc, Nat.add_comm 1]
      rw [forwardLoop, List.mapIdx_cons, Nat.add_zero]
      cases hsend : send A env payload i target with
      | ok reply => rfl
      | error err =>
          simp only
          rw [ih, hshift]
          rfl

/-- The chain ends with the first reply. -/
theorem forwardQuery_eq : forwardQuery A env picker payload =
    (picker.tryOrder.2, firstOk (results A env picker payload) .noHealthyResolvers) := by
  simp only [forwardQuery, forwardLoop_eq, results, Nat.zero_add]

/-! ## Answers -/

theorem craftRedirectResponse_of_valid {qnameEnd : Nat} {ips : List Str}
    (h12 : 12 ≤ payload.length) (hend : qnameEnd + 4 ≤ payload.length)
    (hvalid : ∃ ip ∈ ips, (parseIpv4Addr ip).isSome = true) :
    ∃ packet, craftRedirectResponse payload qnameEnd ips = some packet := by
  have hne : (ips.filterMap parseIpv4Addr).isEmpty = false := by
    obtain ⟨ip, hmem, hip⟩ := hvalid
    obtain ⟨addr, haddr⟩ := Option.isSome_iff_exists.mp hip
    exact List.isEmpty_eq_false_iff_exists_mem.mpr
      ⟨addr, List.mem_filterMap.mpr ⟨ip, hmem, haddr⟩⟩
  rw [craftRedirectResponse, if_neg (by omega)]
  simp only [hne]
  exact ⟨_, rfl⟩

/-- A datagram under the identifier of the query. -/
theorem take_withTxid_iff {packet : Bytes} (h12 : 12 ≤ payload.length) :
    (withTxid packet (byteAt payload 0, byteAt payload 1)).take 2 = payload.take 2 ↔
      2 ≤ packet.length := by
  have htake : payload.take 2 = [byteAt payload 0, byteAt payload 1] := by
    match payload, h12 with
    | _ :: _ :: _, _ => rfl
  constructor
  · intro h
    have hlen : min 2 packet.length = 2 := by
      simpa [htake] using congrArg List.length h
    omega
  · intro h
    rw [take_withTxid h, htake]

section Keyed

variable {U} {M} {ruleTrie : DomainTrie} {cache : M.State} {key : CacheKey}

variable (env cache picker) in
/-- A query with a key is answered by a rule, from the cache, by a target, or
not at all. -/
theorem handleQuery_cases
    (hredirect : ∀ domain ips, checkRules U domain ruleTrie = .redirect ips →
      ∃ ip ∈ ips, (parseIpv4Addr ip).isSome = true)
    (hkey : cacheKeyFromQueryForSubnet U payload none = some key) :
    let sent := (handleQuery U M A ruleTrie env cache picker payload).sent
    let reqTxid := (byteAt payload 0, byteAt payload 1)
    (checkRules U key.name ruleTrie ≠ .none ∧
        ∃ packet, sent = [packet] ∧ packet.take 2 = payload.take 2) ∨
      checkRules U key.name ruleTrie = .none ∧
        ((∃ cached, (cacheLookup M cache env.lookupAt key).2 = some cached ∧
            sent = [withTxid cached reqTxid]) ∨
          (cacheLookup M cache env.lookupAt key).2 = none ∧
            sent = match firstOk (results A env picker payload) .noHealthyResolvers with
              | .ok reply => [withTxid reply reqTxid]
              | .error _ => []) := by
  intro sent reqTxid
  obtain ⟨h12, -, qnameEnd, hdomain, hend⟩ := cacheKey_eq_some hkey
  have hsent : sent = (handleQuery U M A ruleTrie env cache picker payload).sent := rfl
  rw [handleQuery, if_neg (by omega), hdomain] at hsent
  simp only at hsent
  cases hrule : checkRules U key.name ruleTrie with
  | drop =>
      have hcraft : craftNxdomainResponse payload =
          some (overwrite payload 2 [0x81, 0x80 + 3]) := if_neg (by omega)
      rw [hrule, hcraft] at hsent
      exact .inl ⟨by simp, _, hsent, (craftReply_header hcraft).2⟩
  | redirect ips =>
      obtain ⟨packet, hcraft⟩ := craftRedirectResponse_of_valid h12 hend (hredirect _ ips hrule)
      rw [hrule] at hsent
      simp only [hcraft] at hsent
      exact .inl ⟨by simp, packet, hsent, (craftRedirectResponse_header hcraft).2⟩
  | none =>
      refine .inr ⟨rfl, ?_⟩
      rw [hrule, hkey] at hsent
      simp only [forwardQuery_eq] at hsent
      cases hlookup : cacheLookup M cache env.lookupAt key with
      | mk cache' found =>
          rw [hlookup] at hsent
          cases found with
          | some cached => exact .inl ⟨cached, rfl, hsent⟩
          | none =>
              refine .inr ⟨rfl, hsent.trans ?_⟩
              cases firstOk (results A env picker payload) Error.noHealthyResolvers with
              | ok reply => rfl
              | error e => rfl

/-- What the cache gives is a whole packet. -/
theorem length_of_cacheLookup {now : Nat} {cached : Bytes}
    (h : (cacheLookup M cache now key).2 = some cached) : 12 ≤ cached.length := by
  obtain ⟨entry, -, -, haged⟩ := cacheLookup_eq_some.mp h
  have hage := ageResponseTtls_of_agedPacket haged
  rw [length_aged hage]
  exact length_of_aged hage

/-- The part of the targets: their first reply is passed on, if there is one. -/
theorem answered_by_target (h12 : 12 ≤ payload.length) :
    let sent := match firstOk (results A env picker payload) .noHealthyResolvers with
      | .ok reply => [withTxid reply (byteAt payload 0, byteAt payload 1)]
      | .error _ => []
    let failed := Failed (results A env picker payload)
    sent.length ≤ 1 ∧ (failed → sent = []) ∧
      ((∃ datagram, sent = [datagram] ∧ datagram.take 2 = payload.take 2 ∧
          (failed → craftServfailResponse payload = some datagram)) ↔
        ∃ failed reply rest, results A env picker payload = failed ++ .ok reply :: rest ∧
          Failed failed ∧ 2 ≤ reply.length) := by
  rcases firstOk_cases (results A env picker payload) .noHealthyResolvers with
    ⟨failed, reply, rest, hresults, hfailed, hok⟩ | ⟨hfailed, e, herror⟩
  · have hsome : ¬Failed (results A env picker payload) := by
      rw [hresults]
      exact not_failed
    simp only [hok]
    refine ⟨Nat.le_refl 1, fun h => absurd h hsome, ?_⟩
    constructor
    · rintro ⟨datagram, hdatagram, htxid, -⟩
      obtain rfl := (List.cons.inj hdatagram).1
      exact ⟨failed, reply, rest, hresults, hfailed, (take_withTxid_iff h12).mp htxid⟩
    · rintro ⟨failed', reply', rest', hresults', hfailed', hlong⟩
      have hok' := firstOk_append hfailed' reply' rest' Error.noHealthyResolvers
      rw [← hresults', hok] at hok'
      cases hok'
      exact ⟨_, rfl, (take_withTxid_iff h12).mpr hlong, fun h => absurd h hsome⟩
  · simp only [herror]
    refine ⟨Nat.zero_le 1, fun _ => trivial, ?_⟩
    constructor
    · rintro ⟨datagram, hdatagram, -⟩
      cases hdatagram
    · rintro ⟨failed', reply', rest', hresults', -⟩
      rw [hresults'] at hfailed
      exact absurd hfailed not_failed

variable (U M A) in
/-- Nothing answers the query: no rule, nothing in the cache, and no target. -/
def Unanswered (ruleTrie : DomainTrie) (env : Env) (cache : M.State) (picker : TargetPicker Key)
    (payload : Bytes) (key : CacheKey) : Prop :=
  checkRules U key.name ruleTrie = .none ∧
    (cacheLookup M cache env.lookupAt key).2 = none ∧ Failed (results A env picker payload)

/-- A query with a key gets one datagram with its identifier, and a SERVFAIL if
all targets fail, exactly when a rule, the cache or a target has an answer and
the answer of the target has room for the identifier.  Nothing is sent when all
targets fail. -/
theorem proxy_answers_once_iff
    (hredirect : ∀ domain ips, checkRules U domain ruleTrie = .redirect ips →
      ∃ ip ∈ ips, (parseIpv4Addr ip).isSome = true)
    (hkey : cacheKeyFromQueryForSubnet U payload none = some key) :
    let sent := (handleQuery U M A ruleTrie env cache picker payload).sent
    let unanswered := Unanswered U M A ruleTrie env cache picker payload key
    sent.length ≤ 1 ∧ (unanswered → sent = []) ∧
      ((∃ datagram, sent = [datagram] ∧ datagram.take 2 = payload.take 2 ∧
          (unanswered → craftServfailResponse payload = some datagram)) ↔
        checkRules U key.name ruleTrie ≠ .none ∨
          (∃ cached, (cacheLookup M cache env.lookupAt key).2 = some cached) ∨
          ∃ failed reply rest, results A env picker payload = failed ++ .ok reply :: rest ∧
            Failed failed ∧ 2 ≤ reply.length) := by
  intro sent unanswered
  have h12 := (cacheKey_eq_some hkey).1
  rcases @handleQuery_cases U M Key A env picker payload ruleTrie cache key hredirect hkey with
    ⟨hrule, packet, (hsent : sent = _), htxid⟩ |
    ⟨hrule, ⟨cached, hcached, (hsent : sent = _)⟩ | ⟨hmiss, (hsent : sent = _)⟩⟩
  · have hanswered : ¬unanswered := fun h => hrule h.1
    refine ⟨by rw [hsent]; exact Nat.le_refl 1, fun h => absurd h hanswered, ?_⟩
    exact ⟨fun _ => .inl hrule, fun _ => ⟨packet, hsent, htxid, fun h => absurd h hanswered⟩⟩
  · have hanswered : ¬unanswered := fun h => by
      have hnone := h.2.1
      rw [hcached] at hnone
      cases hnone
    have htxid := (take_withTxid_iff h12).mpr (le_trans (by decide) (length_of_cacheLookup hcached))
    refine ⟨by rw [hsent]; exact Nat.le_refl 1, fun h => absurd h hanswered, ?_⟩
    exact ⟨fun _ => .inr (.inl ⟨cached, hcached⟩),
      fun _ => ⟨_, hsent, htxid, fun h => absurd h hanswered⟩⟩
  · have hunanswered : unanswered ↔ Failed (results A env picker payload) :=
      ⟨fun h => h.2.2, fun h => ⟨hrule, hmiss, h⟩⟩
    have hnone : ¬∃ cached, (cacheLookup M cache env.lookupAt key).2 = some cached := by
      rw [hmiss]
      rintro ⟨cached, h⟩
      cases h
    rw [hunanswered, or_iff_right (not_not.mpr hrule), or_iff_right hnone, hsent]
    exact answered_by_target h12

end Keyed

end Handler

/-- Two plain targets, of which the second comes first now. -/
def twoTargets : TargetPicker Bool where
  targets := [⟨"a".toList, .plain, .v4 ⟨192, 0, 2, 1⟩ 53, none, fun h => by cases h⟩,
    ⟨"b".toList, .plain, .v4 ⟨192, 0, 2, 2⟩ 53, none, fun h => by cases h⟩]
  strategy := .roundRobin
  cursor := 1
  nonempty := List.cons_ne_nil _ _

/-- The first attempts time out, and the later ones get a reply. -/
def repliesAfter (timeouts : Nat) (reply : Bytes) : Env where
  attempts i := ⟨shortDraw, fun _ => if i < timeouts then .timeout else .datagram reply⟩
  display _ := []
  lookupAt := 0
  storeAt := 0

theorem checkRules_new (U : CaseTable) (domain : Str) :
    checkRules U domain .new = .none := by
  have hwalk : ∀ labels : List Str, Trie.firstSet .none DomainTrie.new.root labels = .none := by
    intro labels
    cases labels with
    | nil => rfl
    | cons label labels => rfl
  rw [checkRules, DomainTrie.lookup, hwalk]
  rfl

theorem proxy_answers_once_iff_second_target :
    let M := EvictingMap.recent CacheKey CacheEntry (cacheCapacity - 1)
    let payload := addressQuery [1, 0x61, 0]
    let env := repliesAfter 1 (addressResponse [9, 9, 9, 9])
    ∃ datagram, (handleQuery .ascii M markedCipher .new env M.empty twoTargets payload).sent =
      [datagram] ∧ datagram.take 2 = payload.take 2 := by
  intro M payload env
  have hredirect : ∀ domain ips, checkRules .ascii domain .new = .redirect ips →
      ∃ ip ∈ ips, (parseIpv4Addr ip).isSome = true := by
    intro domain ips h
    rw [checkRules_new] at h
    cases h
  have hkey : cacheKeyFromQueryForSubnet .ascii payload none =
      some ⟨['a'], 1, 1, 1, false, none⟩ := by decide
  have hresults : results markedCipher env twoTargets payload =
      [.error .resolveTimeout] ++ .ok (addressResponse [9, 9, 9, 9]) :: [] := rfl
  have honce := @proxy_answers_once_iff .ascii M Bool markedCipher env twoTargets payload .new
    M.empty _ hredirect hkey
  obtain ⟨datagram, hsent, htxid, -⟩ := honce.2.2.mpr (.inr (.inr ⟨_, _, _, hresults,
    (by simp [Failed]), by decide⟩))
  exact ⟨datagram, hsent, htxid⟩

/-- Both targets time out.  A SERVFAIL can be made, and nothing is sent.  And a
reply of one byte is passed on as it is. -/
theorem servfail_not_sent :
    let M := EvictingMap.recent CacheKey CacheEntry (cacheCapacity - 1)
    let payload := addressQuery [1, 0x61, 0]
    let handled := fun env => handleQuery .ascii M markedCipher .new env M.empty twoTargets payload
    (cacheKeyFromQueryForSubnet .ascii payload none).isSome = true ∧
      (craftServfailResponse payload).isSome = true ∧ (handled (repliesAfter 2 [])).sent = [] ∧
      (handled (repliesAfter 2 [])).counted = [.failedCount] ∧
      (handled (repliesAfter 0 [7])).sent = [[7]] := by
  decide

end DnsRelay.Proxy
