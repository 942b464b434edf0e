import DnsRelay.Lib.EvictingMap
import DnsRelay.Shared.CacheKey
import DnsRelay.Shared.Message

/-!
# The response cache

The cache maps keys to packets with three times: when the packet was stored,
until when it is fresh, and until when it may be served stale.  `cacheStore`
accepts what `responseCacheTtl` accepts.  `cacheLookup` serves a fresh packet
and `cacheLookupStale` one whose freshness has ended.

The map itself is an `EvictingMap`, so a key may be lost at any store of
another one.  A run is a list of operations with the time of each.
`find_cacheRun` traces what the map holds at the end of a run back to one store
of the run, and the main result reads off what the two lookups return.
-/

namespace DnsRelay

open Lib

/-! ## Times -/

/-- `Duration::from_secs`. -/
def fromSecs (n : Nat) : Nat := n * 1000000000

/-- `CACHE_CAPACITY`. -/
def cacheCapacity : Nat := 8192

/-- `CACHE_TTL_MIN`. -/
def cacheTtlMin : Nat := fromSecs 1

/-- `CACHE_TTL_MAX`. -/
def cacheTtlMax : Nat := fromSecs 3600

/-- `CACHE_STALE_TTL`. -/
def cacheStaleTtl : Nat := fromSecs 300

/-- `clamp_cache_ttl`. -/
def clampCacheTtl (ttlSecs : Nat) : Nat :=
  let ttl := fromSecs ttlSecs
  if ttl < cacheTtlMin then cacheTtlMin else if cacheTtlMax < ttl then cacheTtlMax else ttl

/-! ## Operations -/

structure CacheEntry where
  packet : Bytes
  insertedAt : Nat
  freshUntil : Nat
  staleUntil : Nat
deriving DecidableEq, Repr

/-- The entry of a packet that is stored at `now` with a clamped time to
live. -/
def newEntry (now ttl : Nat) (packet : Bytes) : CacheEntry where
  packet := withTxid packet (0, 0)
  insertedAt := now
  freshUntil := now + ttl
  staleUntil := now + ttl + cacheStaleTtl

def agedPacket (e : CacheEntry) (now : Nat) (stale : Bool) : Option Bytes :=
  match ageResponseTtls e.packet (now - e.insertedAt) stale with
  | (packet, true) => some packet
  | (_, false) => none

section Operations

variable (M : EvictingMap CacheKey CacheEntry)

/-- `cache_lookup`: the cache afterwards and the result. -/
def cacheLookup (cache : M.State) (now : Nat) (key : CacheKey) : M.State × Option Bytes :=
  (M.touch cache key,
    match M.find cache key with
    | none => none
    | some entry => if entry.freshUntil ≤ now then none else agedPacket entry now false)

/-- `cache_lookup_stale`: the cache afterwards and the result. -/
def cacheLookupStale (cache : M.State) (now : Nat) (key : CacheKey) : M.State × Option Bytes :=
  match M.find cache key with
  | none => (cache, none)
  | some entry =>
      if entry.staleUntil ≤ now then (M.pop cache key, none)
      else
        (M.touch cache key,
          if now < entry.freshUntil then none else agedPacket entry now true)

/-- `cache_store`. -/
def cacheStore (cache : M.State) (now : Nat) (key : CacheKey) (packet : Bytes) : M.State :=
  match responseCacheTtl packet with
  | none => cache
  | some ttl => M.put cache key (newEntry now (clampCacheTtl ttl) packet)

inductive CacheOp where
  /-- `cache_store`. -/
  | store (key : CacheKey) (packet : Bytes)
  /-- `cache_lookup`. -/
  | lookup (key : CacheKey)
  /-- `cache_lookup_stale`. -/
  | lookupStale (key : CacheKey)
  | clear
deriving DecidableEq, Repr

def cacheStep (cache : M.State) : Nat × CacheOp → M.State
  | (now, .store key packet) => cacheStore M cache now key packet
  | (now, .lookup key) => (cacheLookup M cache now key).1
  | (now, .lookupStale key) => (cacheLookupStale M cache now key).1
  | (_, .clear) => M.clear cache

def cacheRun (ops : List (Nat × CacheOp)) : M.State := ops.foldl (cacheStep M) M.empty

end Operations

/-! ## What a run leaves in the cache -/

/-- An operation that ends the life of the entry of a key: a store that is
accepted, or a clear. -/
def Replaces (key : CacheKey) : CacheOp → Prop
  | .store key' packet => key' = key ∧ responseCacheTtl packet ≠ none
  | .clear => True
  | .lookup _ | .lookupStale _ => False

section Runs

variable {M : EvictingMap CacheKey CacheEntry}

theorem cacheRun_append (ops : List (Nat × CacheOp)) (op : Nat × CacheOp) :
    cacheRun M (ops ++ [op]) = cacheStep M (cacheRun M ops) op := by
  rw [cacheRun, List.foldl_append]
  rfl

theorem find_cacheLookupStale {cache : M.State} {now : Nat} {key key' : CacheKey}
    {entry : CacheEntry} (h : M.find (cacheLookupStale M cache now key).1 key' = some entry) :
    M.find cache key' = some entry := by
  unfold cacheLookupStale at h
  cases hk : M.find cache key with
  | none => simpa only [hk] using h
  | some e =>
      simp only [hk] at h
      split at h
      · exact M.find_pop_back h
      · exact (M.find_touch ..).symm.trans h

/-- What is found after a step was just stored or was found before. -/
theorem find_cacheStep {cache : M.State} {op : Nat × CacheOp} {key : CacheKey}
    {entry : CacheEntry} (h : M.find (cacheStep M cache op) key = some entry) :
    (∃ now packet ttl, op = (now, .store key packet) ∧ responseCacheTtl packet = some ttl ∧
      entry = newEntry now (clampCacheTtl ttl) packet) ∨
    (¬Replaces key op.2 ∧ M.find cache key = some entry) := by
  obtain ⟨now, op⟩ := op
  cases op with
  | store key' packet =>
      simp only [cacheStep, cacheStore] at h
      cases httl : responseCacheTtl packet with
      | none =>
          simp only [httl] at h
          exact .inr ⟨fun hr => hr.2 httl, h⟩
      | some ttl =>
          simp only [httl] at h
          by_cases hk : key = key'
          · subst hk
            rw [M.find_put_self] at h
            exact .inl ⟨now, packet, ttl, rfl, httl, (Option.some.inj h).symm⟩
          · exact .inr ⟨fun hr => hk hr.1.symm, M.find_put_back hk h⟩
  | lookup key' => exact .inr ⟨id, (M.find_touch ..).symm.trans h⟩
  | lookupStale key' => exact .inr ⟨id, find_cacheLookupStale h⟩
  | clear => exact absurd ((M.find_clear ..).symm.trans h) nofun

/-- The last store of a run that was accepted for a key stored `packet` at
`t0`, and the entry was neither cleared nor evicted since. -/
def LastStored (M : EvictingMap CacheKey CacheEntry) (ops : List (Nat × CacheOp)) (key : CacheKey)
    (t0 : Nat) (packet : Bytes) : Prop :=
  ∃ before after, ops = before ++ (t0, .store key packet) :: after ∧
    (∀ op ∈ after, ¬Replaces key op.2) ∧
    ∀ mid, mid <+: after →
      M.find (cacheRun M (before ++ (t0, .store key packet) :: mid)) key ≠ none

/-- What is found after a run is what its last accepted store stored. -/
theorem find_cacheRun {ops : List (Nat × CacheOp)} {key : CacheKey} {entry : CacheEntry}
    (h : M.find (cacheRun M ops) key = some entry) :
    ∃ t0 packet ttl, LastStored M ops key t0 packet ∧ responseCacheTtl packet = some ttl ∧
      entry = newEntry t0 (clampCacheTtl ttl) packet := by
  induction ops using List.reverseRecOn with
  | nil => exact absurd ((M.find_empty key).symm.trans h) nofun
  | append_singleton ops op ih =>
      have hrun := h
      rw [cacheRun_append] at h
      cases find_cacheStep h with
      | inl hstored =>
          obtain ⟨now, packet, ttl, rfl, httl, hentry⟩ := hstored
          refine ⟨now, packet, ttl, ⟨ops, [], rfl, nofun, ?_⟩, httl, hentry⟩
          intro mid hmid
          rw [List.prefix_nil.mp hmid, hrun]
          nofun
      | inr hkept =>
          obtain ⟨hno, hfind⟩ := hkept
          obtain ⟨t0, packet, ttl, ⟨before, after, rfl, hafter, hpresent⟩, httl, hentry⟩ := ih hfind
          refine ⟨t0, packet, ttl, ⟨before, after ++ [op], by simp, ?_, ?_⟩, httl, hentry⟩
          · intro o ho
            cases List.mem_append.mp ho with
            | inl ho => exact hafter o ho
            | inr ho =>
                rw [List.mem_singleton.mp ho]
                exact hno
          · intro mid hmid
            cases List.prefix_concat_iff.mp hmid with
            | inl heq =>
                rw [heq, ← List.cons_append, ← List.append_assoc, hrun]
                nofun
            | inr hmid => exact hpresent mid hmid

end Runs

section Lookups

variable {M : EvictingMap CacheKey CacheEntry} {cache : M.State} {now : Nat} {key : CacheKey}
  {p : Bytes}

/-- When `cache_lookup` hits. -/
theorem cacheLookup_eq_some : (cacheLookup M cache now key).2 = some p ↔
    ∃ entry, M.find cache key = some entry ∧ now < entry.freshUntil ∧
      agedPacket entry now false = some p := by
  rw [cacheLookup]
  cases hfind : M.find cache key with
  | none => simp
  | some entry =>
      by_cases hfresh : entry.freshUntil ≤ now
      · simp [hfresh, Nat.not_lt.mpr hfresh]
      · simp [hfresh, Nat.lt_of_not_le hfresh]

/-- When `cache_lookup_stale` hits. -/
theorem cacheLookupStale_eq_some : (cacheLookupStale M cache now key).2 = some p ↔
    ∃ entry, M.find cache key = some entry ∧ entry.freshUntil ≤ now ∧ now < entry.staleUntil ∧
      agedPacket entry now true = some p := by
  rw [cacheLookupStale]
  cases hfind : M.find cache key with
  | none => simp
  | some entry =>
      by_cases hstale : entry.staleUntil ≤ now
      · simp [hstale, Nat.not_lt.mpr hstale]
      · by_cases hfresh : now < entry.freshUntil
        · simp [hstale, hfresh, Nat.not_le.mpr hfresh]
        · simp [hstale, hfresh, Nat.lt_of_not_le hstale, Nat.le_of_not_lt hfresh]

end Lookups

theorem ageResponseTtls_of_agedPacket {entry : CacheEntry} {now : Nat} {stale : Bool} {p : Bytes}
    (h : agedPacket entry now stale = some p) :
    ageResponseTtls entry.packet (now - entry.insertedAt) stale = (p, true) := by
  unfold agedPacket at h
  split at h
  · next packet hage =>
      obtain rfl := Option.some.inj h
      exact hage
  · cases h

/-! ## What is served -/

/-- `p` is `q` without its transaction identifier, with the time to live of
the answers and authority records lowered and every other byte as it was. -/
def Served (stale : Bool) (secs : Nat) (q p : Bytes) : Prop :=
  ∃ w : Walk q, p.length = q.length ∧ byteAt p 0 = 0 ∧ byteAt p 1 = 0 ∧
    (∀ rr ∈ w.rrs, rrTtl p rr = remainingTtl stale secs (rrTtl q rr)) ∧
    ∀ i, 2 ≤ i → OutsideTtls w.rrs i → byteAt p i = byteAt q i

/-- The walk over a packet does not see its transaction identifier. -/
theorem exists_walk_of_withTxid {q : Bytes} {txid : UInt8 × UInt8} (h12 : 12 ≤ q.length)
    (w : Walk (withTxid q txid)) : ∃ w' : Walk q, w'.rrs = w.rrs := by
  have hlen := withTxid_length q txid
  obtain ⟨w', hrrs, -⟩ := w.congr (q := q) (by omega) hlen.symm fun i hi _ => byteAt_withTxid hi
  exact ⟨w', hrrs⟩

/-- Every record of a walk has its fields behind the header. -/
theorem Walk.ttlOffset_ge {p : Bytes} (w : Walk p) {rr : Rr} (hr : rr ∈ w.rrs) :
    12 ≤ rr.ttlOffset := by
  have hoff := readQuestions_le w.questions
  have hb := w.chain.mem_bounds hr
  rw [Rr.ttlOffset]
  omega

/-- What `agedPacket` makes of the entry of a packet. -/
theorem served_of_agedPacket {t0 ttl now : Nat} {q p : Bytes} {stale : Bool}
    (h12 : 12 ≤ q.length) (h : agedPacket (newEntry t0 ttl q) now stale = some p) :
    Served stale (asSecs (now - t0)) q p := by
  have hage : ageResponseTtls (withTxid q (0, 0)) (now - t0) stale = (p, true) :=
    ageResponseTtls_of_agedPacket h
  obtain ⟨w, haged⟩ := ageResponseTtls_spec hage
  obtain ⟨w', hrrs⟩ := exists_walk_of_withTxid h12 w
  have hhead : ∀ i, i < 2 → byteAt p i = byteAt [0, 0] i := by
    intro i hi
    rw [haged.other i fun rr hr => .inl (by have := w.ttlOffset_ge hr; omega), withTxid,
      if_pos (by omega)]
    have hin : byteAt (overwrite q 0 [0, 0]) (0 + i) = byteAt [0, 0] i :=
      byteAt_overwrite_inside (by simp; omega) hi
    rwa [Nat.zero_add] at hin
  refine ⟨w', by rw [haged.length, withTxid_length], hhead 0 (by omega), hhead 1 (by omega), ?_, ?_⟩
  · intro rr hr
    rw [hrrs] at hr
    have hge := w.ttlOffset_ge hr
    rw [haged.ttl rr hr, rrTtl_congr (q := q) fun i h1 _ => byteAt_withTxid (by omega)]
  · intro i hi hout
    rw [hrrs] at hout
    rw [haged.other i hout, byteAt_withTxid hi]

/-- What `responseCacheTtl` demands of the header. -/
theorem cacheableHeader_of_ttl {q : Bytes} {ttl : Nat} (h : responseCacheTtl q = some ttl) :
    cacheableHeader q = true := by
  unfold responseCacheTtl at h
  split at h
  · cases h
  · next hc => simpa using hc

theorem length_of_cacheableHeader {q : Bytes} (h : cacheableHeader q = true) : 12 ≤ q.length := by
  simp only [cacheableHeader, Bool.and_eq_true, decide_eq_true_eq] at h
  exact h.1.1.1

/-- Stores of a run are not in the future. -/
theorem le_now_of_lastStored {M : EvictingMap CacheKey CacheEntry} {ops : List (Nat × CacheOp)}
    {now t0 : Nat} {key : CacheKey} {q : Bytes}
    (hclock : (ops.map Prod.fst ++ [now]).Pairwise (· ≤ ·)) (h : LastStored M ops key t0 q) :
    t0 ≤ now := by
  obtain ⟨before, after, rfl, -⟩ := h
  refine (List.pairwise_append.mp hclock).2.2 t0 ?_ now (List.mem_singleton.mpr rfl)
  simp

/-- Lookups return what the last accepted store stored, in its time and aged,
and the cache has only complete responses without an error other than a
missing name. -/
theorem cache_run_correct (M : EvictingMap CacheKey CacheEntry) (ops : List (Nat × CacheOp))
    (now : Nat) (hclock : (ops.map Prod.fst ++ [now]).Pairwise (· ≤ ·)) (key : CacheKey) :
    (∀ p, (cacheLookup M (cacheRun M ops) now key).2 = some p →
      ∃ t0 q ttl, LastStored M ops key t0 q ∧ responseCacheTtl q = some ttl ∧ t0 ≤ now ∧
        now < t0 + clampCacheTtl ttl ∧ Served false (asSecs (now - t0)) q p) ∧
    (∀ p, (cacheLookupStale M (cacheRun M ops) now key).2 = some p →
      ∃ t0 q ttl, LastStored M ops key t0 q ∧ responseCacheTtl q = some ttl ∧
        t0 + clampCacheTtl ttl ≤ now ∧ now < t0 + clampCacheTtl ttl + fromSecs 300 ∧
        Served true (asSecs (now - t0)) q p) ∧
    ∀ entry, M.find (cacheRun M ops) key = some entry →
      byteAt entry.packet 2 &&& 0x80 ≠ 0 ∧ byteAt entry.packet 2 &&& 0x02 = 0 ∧
        (byteAt entry.packet 3 &&& 0x0F = 0 ∨ byteAt entry.packet 3 &&& 0x0F = 3) := by
  refine ⟨?_, ?_, ?_⟩
  · intro p h
    obtain ⟨entry, hfind, hfresh, hp⟩ := cacheLookup_eq_some.mp h
    obtain ⟨t0, q, ttl, hstored, httl, rfl⟩ := find_cacheRun hfind
    have h12 := length_of_cacheableHeader (cacheableHeader_of_ttl httl)
    exact ⟨t0, q, ttl, hstored, httl, le_now_of_lastStored hclock hstored, hfresh,
      served_of_agedPacket h12 hp⟩
  · intro p h
    obtain ⟨entry, hfind, hfresh, hstale, hp⟩ := cacheLookupStale_eq_some.mp h
    obtain ⟨t0, q, ttl, hstored, httl, rfl⟩ := find_cacheRun hfind
    have h12 := length_of_cacheableHeader (cacheableHeader_of_ttl httl)
    exact ⟨t0, q, ttl, hstored, httl, hfresh, hstale, served_of_agedPacket h12 hp⟩
  · intro entry hfind
    obtain ⟨t0, q, ttl, -, httl, rfl⟩ := find_cacheRun hfind
    have hheader := cacheableHeader_of_ttl httl
    simp only [cacheableHeader, Bool.and_eq_true, Bool.or_eq_true, decide_eq_true_eq] at hheader
    obtain ⟨⟨⟨-, hqr⟩, htc⟩, hrcode⟩ := hheader
    simp only [newEntry]
    rw [byteAt_withTxid (by omega), byteAt_withTxid (by omega)]
    exact ⟨hqr, htc, hrcode⟩

/-- A response with one address and a minute to live. -/
def addressResponse (address : Bytes) : Bytes :=
  [0xAA, 0xBB, 0x81, 0x80, 0, 1, 0, 1, 0, 0, 0, 0] ++ [1, 0x61, 0] ++ [0, 1, 0, 1] ++
    [0xC0, 12, 0, 1, 0, 1, 0, 0, 0, 60, 0, 4] ++ address

theorem cache_run_correct_one_store :
    let M := EvictingMap.recent CacheKey CacheEntry (cacheCapacity - 1)
    let key : CacheKey := ⟨['a'], 1, 1, 1, false, none⟩
    let ops := [(0, CacheOp.store key (addressResponse [9, 9, 9, 9]))]
    ∃ p, (cacheLookup M (cacheRun M ops) (fromSecs 10) key).2 = some p ∧
      u32At p 25 = 50 ∧
      ∃ t0 q ttl, LastStored M ops key t0 q ∧ responseCacheTtl q = some ttl ∧ t0 ≤ fromSecs 10 ∧
        fromSecs 10 < t0 + clampCacheTtl ttl ∧ Served false (asSecs (fromSecs 10 - t0)) q p := by
  intro M key ops
  refine ⟨_, rfl, by decide, ?_⟩
  exact (cache_run_correct M ops (fromSecs 10) (by decide) key).1 _ rfl

end DnsRelay
