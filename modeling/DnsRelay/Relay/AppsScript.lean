import DnsRelay.Relay.Conf
import DnsRelay.Shared.Cache
import DnsRelay.Shared.EcsScope

/-!
# The relay behind Apps Script

A `GoogleChained` relay posts the encrypted query to a script, and the script
posts it on to the worker.  The script cannot read the query.  It caches the
worker's reply for five minutes under the tag that the client sends along, and
answers later posts with that tag from its cache.

The tag is a keyed hash of the name alone.  So a post for another type, class
or flag at the same name is answered with a reply to the first post.  The last
section says which two queries may share a tag.

The ciphers, the keyed hash and base64 are parameters.  The keyed hash counts
as injective for each key.
-/

namespace DnsRelay

open Lib

/-! ## Hex text -/

/-- A digit of `{:02x}`. -/
def hexDigit (n : Nat) : Char := "0123456789abcdef".toList.getD n '0'

/-- `hex_encode`. -/
def hexEncode (bytes : Bytes) : Str :=
  bytes.flatMap fun b => [hexDigit (b.toNat / 16), hexDigit (b.toNat % 16)]

theorem hexDigit_inj : ∀ m < 16, ∀ n < 16, hexDigit m = hexDigit n → m = n := by decide

theorem hexEncode_injective : Function.Injective hexEncode := by
  intro a
  induction a with
  | nil =>
      intro b h
      cases b with
      | nil => rfl
      | cons y b => cases h
  | cons x a ih =>
      intro b h
      cases b with
      | nil => cases h
      | cons y b =>
          simp only [hexEncode, List.flatMap_cons, List.cons_append, List.nil_append,
            List.cons.injEq] at h
          obtain ⟨hhigh, hlow, hrest⟩ := h
          have hx := x.toNat_lt
          have hy := y.toNat_lt
          have hhigh := hexDigit_inj _ (by omega) _ (by omega) hhigh
          have hlow := hexDigit_inj _ (by omega) _ (by omega) hlow
          rw [ih hrest, UInt8.toNat_inj.mp (by omega : x.toNat = y.toNat)]

/-! ## Encryption -/

/-- What the client, the script and the worker take from their libraries. -/
structure RelayCrypto where
  /-- `Key<Aes256Gcm>`. -/
  Key : Type
  encrypt : Key → Bytes → Bytes → Bytes
  decrypt : Key → Bytes → Bytes → Option Bytes
  hmac : Key → Bytes → Bytes
  encode : Bytes → Str
  decode : Str → Except Str Bytes
  decrypt_encrypt : ∀ key nonce message,
    decrypt key nonce (encrypt key nonce message) = some message
  decode_encode : ∀ bytes, decode (encode bytes) = .ok bytes
  encode_ne_nil : ∀ bytes, bytes ≠ [] → encode bytes ≠ []
  hmac_ne_nil : ∀ key message, hmac key message ≠ []
  hmac_injective : ∀ key, Function.Injective (hmac key)

variable (C : RelayCrypto)

/-- `encode_for_relay`, for the nonce that the random generator supplies. -/
def encodeForRelay (key : C.Key) (nonce : { bytes : Bytes // bytes.length = 12 })
    (dnsMessage : Bytes) : Bytes :=
  nonce.val ++ C.encrypt key nonce.val dnsMessage

/-- `decode_from_relay`. -/
def decodeFromRelay (key : C.Key) (packet : Bytes) : Option Bytes :=
  if packet.length < 12 then none else C.decrypt key (packet.take 12) (packet.drop 12)

/-- `cache_key_for_domain`. -/
def cacheKeyForDomain (key : C.Key) (domain : Str) : Str :=
  hexEncode (C.hmac key (utf8 (toAsciiLowercase domain)))

/-! ## The script -/

structure AppsScriptRequest where
  data : Str
  k : Str
deriving DecidableEq, Repr

structure AppsScriptResponse where
  data : Option Str
  error : Option Str
deriving DecidableEq, Repr

/-- What the worker replies to a post. -/
structure WorkerResponse where
  code : Nat
  content : Bytes
deriving DecidableEq, Repr

/-- The worker as the script sees it. -/
structure Worker where
  url : Str
  fetch : Bytes → Except Str WorkerResponse

structure ScriptEntry where
  value : Str
  expires : Nat
deriving DecidableEq, Repr

/-- The cache of `CacheService`. -/
abbrev ScriptCache := Str → Option ScriptEntry

/-- `CACHE_TTL_SECONDS` of the script. -/
def scriptTtlSeconds : Nat := 300

/-- `cache.get`. -/
def ScriptCache.get (cache : ScriptCache) (now : Nat) (k : Str) : Option Str :=
  match cache k with
  | none => none
  | some entry => if now < entry.expires then some entry.value else none

/-- `cache.put`. -/
def ScriptCache.put (cache : ScriptCache) (now : Nat) (k value : Str) (seconds : Nat) :
    ScriptCache :=
  Function.update cache k (some ⟨value, now + fromSecs seconds⟩)

/-- `jsonResponse` with an error. -/
def scriptError (text : Str) : AppsScriptResponse := ⟨none, some text⟩

/-- `jsonResponse` with a reply. -/
def scriptReply (data : Str) : AppsScriptResponse := ⟨some data, none⟩

/-- `doPost` after a cache miss. -/
def forwardPost (worker : Worker) (now : Nat) (cache : ScriptCache) (body : AppsScriptRequest) :
    ScriptCache × AppsScriptResponse :=
  if worker.url = [] then (cache, scriptError "worker url not configured".toList)
  else
    match C.decode body.data with
    | .error err => (cache, scriptError err)
    | .ok bytes =>
        match worker.fetch bytes with
        | .error err => (cache, scriptError err)
        | .ok response =>
            if response.code ≠ 200 then
              (cache, scriptError ("upstream error: ".toList ++ (toString response.code).toList))
            else
              let replyB64 := C.encode response.content
              (cache.put now body.k replyB64 scriptTtlSeconds, scriptReply replyB64)

/-- `doPost`.  Empty texts count as missing. -/
def doPost (worker : Worker) (now : Nat) (cache : ScriptCache) (body : AppsScriptRequest) :
    ScriptCache × AppsScriptResponse :=
  if body.k = [] ∨ body.data = [] then (cache, scriptError "bad request".toList)
  else
    match cache.get now body.k with
    | none | some [] => forwardPost C worker now cache body
    | some cached => (cache, scriptReply cached)

/-! ## The client -/

/-- A query on its way to the script. -/
structure RelayMessage where
  domain : Str
  query : Bytes
  nonce : { bytes : Bytes // bytes.length = 12 }
deriving DecidableEq, Repr

def requestFor (key : C.Key) (m : RelayMessage) : AppsScriptRequest where
  data := C.encode (encodeForRelay C key m.nonce m.query)
  k := cacheKeyForDomain C key m.domain

def readResponse (key : C.Key) (parsed : AppsScriptResponse) : Except Error Bytes :=
  match parsed.error with
  | some err => .error (.config ("apps script error: ".toList ++ err))
  | none =>
      match parsed.data with
      | none => .error (.config "apps script response missing data field".toList)
      | some dataB64 =>
          match C.decode dataB64 with
          | .error e =>
              .error (.config ("invalid base64 in apps script response: ".toList ++ e))
          | .ok encryptedReply =>
              match decodeFromRelay C key encryptedReply with
              | none => .error (.config "decrypt failed".toList)
              | some reply => .ok reply

/-- `resolve_via_relay_apps_script`, for what a post returns. -/
def resolveViaRelayAppsScript (key : C.Key)
    (post : AppsScriptRequest → Except Error AppsScriptResponse) (m : RelayMessage) :
    Except Error Bytes :=
  match post (requestFor C key m) with
  | .error e => .error e
  | .ok parsed => readResponse C key parsed

def resolveViaScript (key : C.Key) (worker : Worker) (now : Nat) (cache : ScriptCache)
    (m : RelayMessage) : Except Error Bytes :=
  resolveViaRelayAppsScript C key (fun body => .ok (doPost C worker now cache body).2) m

inductive ScriptAct where
  | post (worker : Worker) (now : Nat) (body : AppsScriptRequest)
  | evict (k : Str)

def scriptStep (cache : ScriptCache) : ScriptAct → ScriptCache
  | .post worker now body => (doPost C worker now cache body).1
  | .evict k => Function.update cache k none

def scriptRun (cache : ScriptCache) (acts : List ScriptAct) : ScriptCache :=
  acts.foldl (scriptStep C) cache

/-! ## How long a reply is kept -/

/-- The step is over by `t` and is no eviction of the key. -/
def ScriptAct.Keeps (k : Str) (t : Nat) : ScriptAct → Prop
  | .post _ now _ => now ≤ t
  | .evict k' => k' ≠ k

/-- The cache holds a reply under a key for longer than `t`. -/
def ScriptCache.Holds (cache : ScriptCache) (k value : Str) (t : Nat) : Prop :=
  ∃ expires, cache k = some ⟨value, expires⟩ ∧ t < expires

variable {C} {cache : ScriptCache} {k value : Str} {t : Nat}

theorem ScriptCache.Holds.get (h : cache.Holds k value t) {now : Nat} (hnow : now ≤ t) :
    cache.get now k = some value := by
  obtain ⟨expires, hk, ht⟩ := h
  rw [ScriptCache.get, hk]
  exact if_pos (Nat.lt_of_le_of_lt hnow ht)

/-- A post under another key leaves a key alone. -/
theorem forwardPost_other {worker : Worker} {now : Nat} {body : AppsScriptRequest}
    (hk : k ≠ body.k) : (forwardPost C worker now cache body).1 k = cache k := by
  unfold forwardPost
  split
  · rfl
  · split
    · rfl
    · split
      · rfl
      · split
        · rfl
        · exact Function.update_of_ne hk _ _

/-- While a reply is kept, posts under its key are answered with it. -/
theorem doPost_of_holds (h : cache.Holds k value t) (hvalue : value ≠ []) {worker : Worker}
    {now : Nat} (hnow : now ≤ t) {body : AppsScriptRequest} (hk : body.k = k) (hne : k ≠ [])
    (hdata : body.data ≠ []) : doPost C worker now cache body = (cache, scriptReply value) := by
  subst hk
  rw [doPost, if_neg (not_or.mpr ⟨hne, hdata⟩), h.get hnow]
  cases value with
  | nil => exact absurd rfl hvalue
  | cons c rest => rfl

theorem ScriptCache.Holds.step (h : cache.Holds k value t) (hvalue : value ≠ []) {a : ScriptAct}
    (ha : a.Keeps k t) : (scriptStep C cache a).Holds k value t := by
  cases a with
  | post worker now body =>
      by_cases hmissing : body.k = [] ∨ body.data = []
      · rwa [scriptStep, doPost, if_pos hmissing]
      · obtain ⟨hne, hdata⟩ := not_or.mp hmissing
        by_cases hk : body.k = k
        · rwa [scriptStep, doPost_of_holds h hvalue ha hk (hk ▸ hne) hdata]
        · obtain ⟨expires, hentry, ht⟩ := h
          refine ⟨expires, ?_, ht⟩
          rw [scriptStep, doPost, if_neg hmissing]
          split
          · rw [forwardPost_other (Ne.symm hk), hentry]
          · rw [forwardPost_other (Ne.symm hk), hentry]
          · exact hentry
  | evict k' =>
      obtain ⟨expires, hentry, ht⟩ := h
      exact ⟨expires, (Function.update_of_ne (Ne.symm ha) _ _).trans hentry, ht⟩

/-- A reply is kept through every run that ends in time and does not evict
it. -/
theorem ScriptCache.Holds.run (hvalue : value ≠ []) :
    ∀ {acts : List ScriptAct} {cache : ScriptCache}, cache.Holds k value t →
      (∀ a ∈ acts, a.Keeps k t) → (scriptRun C cache acts).Holds k value t := by
  intro acts
  induction acts with
  | nil => exact fun h _ => h
  | cons a acts ih =>
      intro cache h hacts
      have hfirst := h.step (C := C) hvalue (hacts a (List.mem_cons_self ..))
      exact ih hfirst fun b hb => hacts b (List.mem_cons_of_mem _ hb)

theorem requestFor_data_ne_nil (key : C.Key) (m : RelayMessage) :
    (requestFor C key m).data ≠ [] := by
  refine C.encode_ne_nil _ fun h => ?_
  have hlen := congrArg List.length h
  rw [encodeForRelay, List.length_append, m.nonce.property, List.length_nil] at hlen
  omega

theorem cacheKeyForDomain_ne_nil (key : C.Key) (domain : Str) :
    cacheKeyForDomain C key domain ≠ [] :=
  fun h => C.hmac_ne_nil key _ (hexEncode_injective h)

/-- The worker answers a post with a reply. -/
structure Worker.Answers (C : RelayCrypto) (worker : Worker) (key : C.Key) (m : RelayMessage)
    (content : Bytes) : Prop where
  url : worker.url ≠ []
  fetch : worker.fetch (encodeForRelay C key m.nonce m.query) = .ok ⟨200, content⟩
  content : content ≠ []

/-- A first post stores what the worker answers. -/
theorem doPost_of_miss {worker : Worker} {key : C.Key} {m : RelayMessage} {content : Bytes}
    {now : Nat} (h : worker.Answers C key m content)
    (hmiss : cache.get now (cacheKeyForDomain C key m.domain) = none) :
    doPost C worker now cache (requestFor C key m) =
      (cache.put now (cacheKeyForDomain C key m.domain) (C.encode content) scriptTtlSeconds,
        scriptReply (C.encode content)) := by
  have hpresent : ¬((requestFor C key m).k = [] ∨ (requestFor C key m).data = []) :=
    not_or.mpr ⟨cacheKeyForDomain_ne_nil key m.domain, requestFor_data_ne_nil key m⟩
  have hget : cache.get now (requestFor C key m).k = none := hmiss
  have hdata : C.decode (requestFor C key m).data =
    .ok (encodeForRelay C key m.nonce m.query) := C.decode_encode _
  rw [doPost, if_neg hpresent, hget]
  simp only [forwardPost]
  rw [if_neg h.url, hdata]
  simp only [h.fetch]
  rw [if_neg (by decide)]
  rfl

/-- For five minutes the second query is answered as the first one was,
whatever other clients post and whatever the worker has to say. -/
def AnsweredAlike (C : RelayCrypto) (key : C.Key) (m1 m2 : RelayMessage) : Prop :=
  ∀ (cache : ScriptCache) (worker worker' : Worker) (content : Bytes) (t1 t2 : Nat)
    (acts : List ScriptAct),
    cache.get t1 (cacheKeyForDomain C key m1.domain) = none →
    worker.Answers C key m1 content →
    t2 < t1 + fromSecs scriptTtlSeconds →
    (∀ a ∈ acts, a.Keeps (cacheKeyForDomain C key m1.domain) t2) →
    resolveViaScript C key worker' t2
        (scriptRun C (doPost C worker t1 cache (requestFor C key m1)).1 acts) m2 =
      resolveViaScript C key worker t1 cache m1

theorem answeredAlike_of_tag {key : C.Key} {m1 m2 : RelayMessage}
    (htag : cacheKeyForDomain C key m2.domain = cacheKeyForDomain C key m1.domain) :
    AnsweredAlike C key m1 m2 := by
  intro cache worker worker' content t1 t2 acts hmiss hanswers ht hacts
  have hvalue := C.encode_ne_nil content hanswers.content
  have hfirst := doPost_of_miss hanswers hmiss
  have hstored : (doPost C worker t1 cache (requestFor C key m1)).1.Holds
      (cacheKeyForDomain C key m1.domain) (C.encode content) t2 := by
    rw [hfirst]
    exact ⟨_, Function.update_self .., ht⟩
  have hkept := hstored.run (C := C) hvalue hacts
  simp only [resolveViaScript, resolveViaRelayAppsScript]
  rw [doPost_of_holds hkept hvalue (Nat.le_refl _) htag (cacheKeyForDomain_ne_nil key m1.domain)
    (requestFor_data_ne_nil key m2), hfirst]

/-! ## Which queries share a tag -/

/-- What a query asks besides its name. -/
structure QueryFields where
  qtype : Nat
  qclass : Nat
  checkingDisabled : Bool
  dnssecOk : Bool
  subnets : List EdnsOption
deriving DecidableEq, Repr

/-- The fields of a query whose first name ends at `qnameEnd`. -/
def queryFields (p : Bytes) (qnameEnd : Nat) : QueryFields where
  qtype := u16At p qnameEnd
  qclass := u16At p (qnameEnd + 2)
  checkingDisabled := byteAt p 3 &&& 0x10 != 0
  dnssecOk :=
    match findOptRecord p with
    | some opt => opt.flags &&& 0x8000 != 0
    | none => false
  subnets := clientSubnets p

/-- Tags are equal when the names are, up to ASCII case. -/
theorem cacheKeyForDomain_inj {key : C.Key} {d1 d2 : Str} :
    cacheKeyForDomain C key d1 = cacheKeyForDomain C key d2 ↔
      toAsciiLowercase d1 = toAsciiLowercase d2 := by
  constructor
  · exact fun h => utf8_injective (C.hmac_injective key (hexEncode_injective h))
  · intro h
    rw [cacheKeyForDomain, h, cacheKeyForDomain]

/-- A rendered name has no ASCII capital. -/
theorem toAsciiLowercase_renderName (U : CaseTable) (labels : List Str) :
    toAsciiLowercase (renderName U labels) = renderName U labels := by
  rw [toAsciiLowercase, renderName, map_intercalate, List.map_map]
  congr 1
  exact List.map_congr_left fun l _ => CaseTable.toAsciiLowercase_toLowercaseFrom l []

/-- A second query with the tag of the first one is answered with the reply to
the first.  Equal tags mean equal questions exactly when the texts of the names
differ, or the queries agree in all other fields and the names are plain or
have the same shape. -/
theorem tag_identifies_question_iff {U : CaseTable} (C : RelayCrypto) (key : C.Key)
    {m1 m2 : RelayMessage} {e1 e2 : Nat}
    (h1 : parseDomain U m1.query 12 = some (m1.domain, e1))
    (h2 : parseDomain U m2.query 12 = some (m2.domain, e2)) :
    (cacheKeyForDomain C key m2.domain = cacheKeyForDomain C key m1.domain →
      AnsweredAlike C key m1 m2) ∧
    ∃ hops1 hops2 labels1 labels2,
      NameAt m1.query 12 hops1 labels1 ∧ NameAt m2.query 12 hops2 labels2 ∧
      ((cacheKeyForDomain C key m2.domain = cacheKeyForDomain C key m1.domain →
          SameName labels1 labels2 ∧ queryFields m1.query e1 = queryFields m2.query e2) ↔
        m1.domain ≠ m2.domain ∨
          (queryFields m1.query e1 = queryFields m2.query e2 ∧
            ((PlainName labels1 ∧ PlainName labels2) ∨ SameNameShape labels1 labels2))) := by
  obtain ⟨hops1, t1, hname1, -, hr1⟩ := parseDomain_sound h1
  obtain ⟨hops2, t2, hname2, -, hr2⟩ := parseDomain_sound h2
  have htag : cacheKeyForDomain C key m2.domain = cacheKeyForDomain C key m1.domain ↔
      m1.domain = m2.domain := by
    rw [cacheKeyForDomain_inj, hr1, hr2, toAsciiLowercase_renderName, toAsciiLowercase_renderName]
    exact eq_comm
  refine ⟨answeredAlike_of_tag, hops1, hops2, t1.map utf8, t2.map utf8, hname1, hname2, ?_⟩
  rw [htag]
  by_cases hdomain : m1.domain = m2.domain
  · have hname := sameName_iff_of_render hname1.text_ne_nil hname2.text_ne_nil
      (hr1.symm.trans (hdomain.trans hr2))
    constructor
    · intro h
      obtain ⟨hsame, hfields⟩ := h hdomain
      exact .inr ⟨hfields, hname.mp hsame⟩
    · rintro (hne | ⟨hfields, hshape⟩)
      · exact absurd hdomain hne
      · exact fun _ => ⟨hname.mpr hshape, hfields⟩
  · exact iff_of_true (fun h => absurd h hdomain) (.inl hdomain)

def RelayCrypto.plain : RelayCrypto where
  Key := Unit
  encrypt _ _ message := message
  decrypt _ _ packet := some packet
  hmac _ message := 0 :: message
  encode bytes := bytes.map fun b => Char.ofNat b.toNat
  decode text := .ok (text.map fun c => UInt8.ofNat c.toNat)
  decrypt_encrypt _ _ _ := rfl
  decode_encode bytes := by
    rw [List.map_map]
    congr 1
    refine (List.map_congr_left fun b _ => ?_).trans (List.map_id' bytes)
    have hlt := b.toNat_lt
    have hvalid : b.toNat.isValidChar := .inl (by omega)
    have hchar : Char.ofNat b.toNat = Char.ofNatAux b.toNat hvalid := dif_pos hvalid
    rw [Function.comp_apply, hchar]
    exact UInt8.ofNat_toNat
  encode_ne_nil bytes h := by simpa using h
  hmac_ne_nil _ _ := List.cons_ne_nil _ _
  hmac_injective _ a b h := (List.cons.inj h).2

def messageFor (domain : Str) (query : Bytes) : RelayMessage where
  domain := domain
  query := query
  nonce := ⟨List.replicate 12 0, rfl⟩

theorem tag_identifies_question_iff_mixed_case :
    let m1 := messageFor ['a', 'b'] (addressQuery [2, 0x61, 0x42, 0])
    let m2 := messageFor ['a', 'b'] (addressQuery [2, 0x41, 0x62, 0])
    parseDomain .ascii m1.query 12 = some (m1.domain, 16) ∧
      parseDomain .ascii m2.query 12 = some (m2.domain, 16) ∧
      ∃ hops1 hops2 labels1 labels2,
        NameAt m1.query 12 hops1 labels1 ∧ NameAt m2.query 12 hops2 labels2 ∧
        ((cacheKeyForDomain .plain () m2.domain = cacheKeyForDomain .plain () m1.domain →
            SameName labels1 labels2 ∧ queryFields m1.query 16 = queryFields m2.query 16) ↔
          m1.domain ≠ m2.domain ∨
            (queryFields m1.query 16 = queryFields m2.query 16 ∧
              ((PlainName labels1 ∧ PlainName labels2) ∨ SameNameShape labels1 labels2))) :=
  ⟨by decide, by decide,
    (tag_identifies_question_iff (U := .ascii) .plain () (by decide) (by decide)).2⟩

/-- A query for the IPv6 address of a name has the tag of a query for its IPv4
address, and for five minutes gets the reply to that one. -/
theorem address_types_share_tag :
    let m1 := messageFor ['a'] (addressQuery [1, 0x61, 0])
    let m2 := messageFor ['a'] (queryHeader ++ [1, 0x61, 0] ++ [0, 28, 0, 1])
    (∀ U : CaseTable, parseDomain U m1.query 12 = some (m1.domain, 15) ∧
      parseDomain U m2.query 12 = some (m2.domain, 15)) ∧
    (∀ (C : RelayCrypto) (key : C.Key),
      cacheKeyForDomain C key m2.domain = cacheKeyForDomain C key m1.domain ∧
        AnsweredAlike C key m1 m2) ∧
    (queryFields m1.query 15).qtype = 1 ∧ (queryFields m2.query 15).qtype = 28 := by
  intro m1 m2
  have htype1 : u16At (addressQuery [1, 0x61, 0]) 15 = 1 := by decide
  have htype2 : u16At (queryHeader ++ [1, 0x61, 0] ++ [0, 28, 0, 1]) 15 = 28 := by decide
  refine ⟨fun U => ⟨?_, ?_⟩, fun C key => ⟨rfl, answeredAlike_of_tag rfl⟩, htype1, htype2⟩
  · have hascii : ∀ b ∈ m1.query, b.toNat < 128 := List.all_iff_forall_prop.mp (by decide)
    rw [parseDomain, parseDomainLoop_ascii U .ascii hascii]
    decide
  · have hascii : ∀ b ∈ m2.query, b.toNat < 128 := List.all_iff_forall_prop.mp (by decide)
    rw [parseDomain, parseDomainLoop_ascii U .ascii hascii]
    decide

end DnsRelay
