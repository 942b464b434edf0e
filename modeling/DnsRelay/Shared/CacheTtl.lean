import DnsRelay.Shared.ChainedCache

/-!
# The lifetime of a cached response

A response is stored for as long as its records allow.  `Granted` says what a
stored packet has: a header without an error, sections that can be walked, and
a lifetime that comes from the smallest time to live of the answers or, where
there is no answer, from the first start of authority record.

The choice between the two is made by the number of answers and not by the
response code.  A missing name that comes with answers, such as the aliases
that lead to it, is stored without a look at the authority section.
-/

namespace DnsRelay

open Lib

/-! ## What is stored -/

/-- A packet that `cache_store` leaves out. -/
def NeverStored (p : Bytes) : Prop :=
  ∀ (M : EvictingMap CacheKey CacheEntry) (cache : M.State) (now : Nat) (key : CacheKey),
    cacheStore M cache now key p = cache

/-- A packet that `cache_store` takes, with a lifetime in seconds. -/
def StoredFor (p : Bytes) (secs : Nat) : Prop :=
  ∀ (M : EvictingMap CacheKey CacheEntry) (cache : M.State) (now : Nat) (key : CacheKey),
    cacheStore M cache now key p = M.put cache key (newEntry now (fromSecs secs) p)

section Stored

variable {p : Bytes} {secs ttl : Nat}

theorem neverStored_of_ttl (h : responseCacheTtl p = none) : NeverStored p := by
  intro M cache now key
  rw [cacheStore, h]

/-- The clamp only lowers a lifetime that is not zero. -/
theorem clampCacheTtl_eq (h : 0 < ttl) : clampCacheTtl ttl = fromSecs (min ttl 3600) := by
  have hmin : ¬fromSecs ttl < cacheTtlMin := by
    rw [cacheTtlMin, fromSecs, fromSecs]
    omega
  have hmax : cacheTtlMax < fromSecs ttl ↔ 3600 < ttl := by
    rw [cacheTtlMax, fromSecs, fromSecs]
    omega
  simp only [clampCacheTtl, if_neg hmin, hmax]
  split
  · next hlong => rw [Nat.min_eq_right (Nat.le_of_lt hlong), cacheTtlMax]
  · next hshort => rw [Nat.min_eq_left (Nat.le_of_not_lt hshort)]

theorem storedFor_of_ttl (h : responseCacheTtl p = some ttl) (hpos : 0 < ttl) :
    StoredFor p (min ttl 3600) := by
  intro M cache now key
  simp only [cacheStore, h, clampCacheTtl_eq hpos]

/-- A packet that is stored has a time to live, as the entry in an empty cache
shows. -/
theorem responseCacheTtl_of_storedFor (h : StoredFor p secs) :
    ∃ ttl, responseCacheTtl p = some ttl ∧ clampCacheTtl ttl = fromSecs secs := by
  let M := EvictingMap.recent CacheKey CacheEntry 0
  let key : CacheKey := ⟨[], 1, 1, 1, false, none⟩
  have hfind := congrArg (fun cache => M.find cache key) (h M M.empty 0 key)
  simp only [M.find_put_self, cacheStore] at hfind
  cases httl : responseCacheTtl p with
  | none =>
      simp only [httl, M.find_empty] at hfind
      cases hfind
  | some ttl =>
      simp only [httl, M.find_put_self] at hfind
      have hentry := congrArg CacheEntry.freshUntil (Option.some.inj hfind)
      refine ⟨ttl, rfl, ?_⟩
      simpa [newEntry] using hentry

end Stored

/-! ## The sections -/

/-- The questions and answers of a packet that can be walked. -/
structure Answers (p : Bytes) where
  offset : Nat
  rrs : List Rr
  last : Nat
  questions : readQuestions p (qdcount p) 12 = some offset
  count : rrs.length = ancount p
  chain : RrsAt p offset rrs last

/-- A packet has one list of answers. -/
theorem Answers.unique {p : Bytes} (a b : Answers p) : a = b := by
  have hoff : a.offset = b.offset := Option.some.inj (a.questions.symm.trans b.questions)
  have hchain := b.chain
  rw [← hoff] at hchain
  obtain ⟨hrrs, hlast⟩ := a.chain.unique hchain (a.count.trans b.count.symm)
  cases a
  cases b
  cases hoff
  cases hrrs
  cases hlast
  rfl

/-- A start of authority record in the authority section, with the records in
front of it. -/
structure AuthoritySoa {p : Bytes} (a : Answers p) (before : List Rr) (soa : Rr)
    (minimum : Nat) : Prop where
  chain : ∃ last, RrsAt p a.last (before ++ [soa]) last
  count : before.length < nscount p
  rtype : soa.rtype = 6
  data : SoaData p soa minimum

/-! ## The loops -/

/-- The loop over the answers succeeds only on a chain of records. -/
theorem chain_of_answerTtlLoop {p : Bytes} {n pos acc : Nat} {r : Nat × Nat}
    (h : answerTtlLoop p n pos acc = some r) :
    ∃ rrs last, rrs.length = n ∧ RrsAt p pos rrs last := by
  induction n generalizing pos acc with
  | zero => exact ⟨[], pos, rfl, .nil⟩
  | succ n ih =>
      rw [answerTtlLoop] at h
      cases hrr : readRr p pos with
      | none => simp [hrr] at h
      | some rr =>
          simp only [hrr] at h
          split at h
          · cases h
          · obtain ⟨rrs, last, hn, hchain⟩ := ih h
            exact ⟨rr :: rrs, last, by simp [hn], .cons hrr hchain⟩

/-- The loop over the answers stops at a zero. -/
theorem pos_of_answerTtlLoop {p : Bytes} {pos last acc : Nat} {rrs : List Rr} {r : Nat × Nat}
    (hchain : RrsAt p pos rrs last) (h : answerTtlLoop p rrs.length pos acc = some r) :
    ∀ rr ∈ rrs, 0 < rrTtl p rr := by
  induction hchain generalizing acc with
  | nil => simp
  | @cons pos last rr rrs hrr _ ih =>
      rw [List.length_cons, answerTtlLoop, hrr] at h
      simp only at h
      split at h
      · cases h
      · next hzero =>
          rintro r (_ | ⟨_, hr⟩)
          · exact Nat.pos_of_ne_zero hzero
          · exact ih h r hr

/-- The search ends at the first start of authority record, which has to give a
time to live. -/
theorem first_of_negativeTtlLoop {p : Bytes} {n pos ttl : Nat}
    (h : negativeTtlLoop p n pos = some ttl) :
    ∃ before soa last, RrsAt p pos (before ++ [soa]) last ∧ before.length < n ∧
      (∀ rr ∈ before, rr.rtype ≠ 6) ∧ soa.rtype = 6 ∧ soaTtl p soa = some ttl := by
  induction n generalizing pos with
  | zero => cases h
  | succ n ih =>
      rw [negativeTtlLoop] at h
      cases hrr : readRr p pos with
      | none => simp [hrr] at h
      | some rr =>
          simp only [hrr] at h
          split at h
          · next hsoa => exact ⟨[], rr, rr.rdataEnd, .cons hrr .nil, by simp, by simp, hsoa, h⟩
          · next hother =>
              obtain ⟨before, soa, last, hchain, hn, hbefore, hsoa, httl⟩ := ih h
              refine ⟨rr :: before, soa, last, .cons hrr hchain, by simpa using hn, ?_, hsoa, httl⟩
              rintro r (_ | ⟨_, hr⟩)
              · exact hother
              · exact hbefore r hr

/-! ## What is granted -/

/-- What a packet that is stored for some seconds has. -/
structure Granted {p : Bytes} (a : Answers p) (secs : Nat) : Prop where
  length : 12 ≤ p.length
  response : byteAt p 2 &&& 0x80 ≠ 0
  complete : byteAt p 2 &&& 0x02 = 0
  rcode : byteAt p 3 &&& 0x0F = 0 ∨ byteAt p 3 &&& 0x0F = 3
  pos : 1 ≤ secs
  le : secs ≤ 3600
  positive : 0 < ancount p → (∀ rr ∈ a.rrs, secs ≤ rrTtl p rr) ∧
    ∃ rr ∈ a.rrs, (∀ other ∈ a.rrs, rrTtl p rr ≤ rrTtl p other) ∧ secs = min (rrTtl p rr) 3600
  /-- Without answers it is what the first start of authority record gives, or
  an hour. -/
  negative : ancount p = 0 → ∃ before soa minimum, AuthoritySoa a before soa minimum ∧
    (∀ rr ∈ before, rr.rtype ≠ 6) ∧ secs = min (min (rrTtl p soa) minimum) 3600

section Grant

variable {p : Bytes} {ttl secs : Nat}

/-- The answers of a packet with a time to live, and where it comes from. -/
theorem answers_of_responseCacheTtl (h : responseCacheTtl p = some ttl) :
    ∃ a : Answers p, (∀ rr ∈ a.rrs, 0 < rrTtl p rr) ∧
      (0 < ancount p → (∀ rr ∈ a.rrs, ttl ≤ rrTtl p rr) ∧ ∃ rr ∈ a.rrs, ttl = rrTtl p rr) ∧
      (ancount p = 0 → negativeTtlLoop p (nscount p) a.last = some ttl) := by
  unfold responseCacheTtl at h
  split at h
  · cases h
  · cases hq : readQuestions p (qdcount p) 12 with
    | none => simp [hq] at h
    | some offset =>
        simp only [hq] at h
        cases hloop : answerTtlLoop p (ancount p) offset u32Max with
        | none => simp [hloop] at h
        | some r =>
            obtain ⟨last, answerTtl⟩ := r
            simp only [hloop] at h
            obtain ⟨rrs, last', hn, hchain⟩ := chain_of_answerTtlLoop hloop
            rw [← hn] at hloop
            obtain ⟨rfl, -, hall, hattained⟩ := answerTtlLoop_chain hchain hloop
            refine ⟨⟨offset, rrs, last, hq, hn, hchain⟩, pos_of_answerTtlLoop hchain hloop, ?_, ?_⟩
            · intro hpos
              rw [if_pos hpos] at h
              split at h
              · next hmax =>
                  cases h
                  exact ⟨hall, hattained.resolve_left hmax⟩
              · cases h
            · intro hzero
              rwa [if_neg (by omega)] at h

theorem first_of_soa {a : Answers p} (h : negativeTtlLoop p (nscount p) a.last = some ttl) :
    0 < ttl ∧ ∃ before soa minimum, AuthoritySoa a before soa minimum ∧
      (∀ rr ∈ before, rr.rtype ≠ 6) ∧ ttl = min (rrTtl p soa) minimum := by
  obtain ⟨before, soa, last, hchain, hn, hbefore, hsoa, httl⟩ := first_of_negativeTtlLoop h
  have hpos : 0 < ttl := by
    rw [soaTtl_eq] at httl
    obtain ⟨minimum, -, hif⟩ := Option.bind_eq_some_iff.mp httl
    split at hif
    · next hpos => exact Option.some.inj hif ▸ hpos
    · cases hif
  obtain ⟨minimum, hmin, rfl⟩ := soaTtl_eq_some httl
  exact ⟨hpos, before, soa, minimum, ⟨⟨last, hchain⟩, hn, hsoa, soaMinimum_eq_some.mp hmin⟩,
    hbefore, rfl⟩

/-- A time to live is not zero, so it is not raised. -/
theorem responseCacheTtl_pos (h : responseCacheTtl p = some ttl) : 0 < ttl := by
  obtain ⟨a, hnonzero, hpositive, hnegative⟩ := answers_of_responseCacheTtl h
  cases Nat.eq_zero_or_pos (ancount p) with
  | inl hzero => exact (first_of_soa (hnegative hzero)).1
  | inr hpos =>
      obtain ⟨-, rr, hr, rfl⟩ := hpositive hpos
      exact hnonzero rr hr

theorem granted_of_storedFor (h : StoredFor p secs) : ∃ a : Answers p, Granted a secs := by
  obtain ⟨ttl, httl, hclamp⟩ := responseCacheTtl_of_storedFor h
  have hpos := responseCacheTtl_pos httl
  have hsecs : secs = min ttl 3600 := by
    rw [clampCacheTtl_eq hpos, fromSecs, fromSecs] at hclamp
    omega
  have hheader := cacheableHeader_of_ttl httl
  simp only [cacheableHeader, Bool.and_eq_true, Bool.or_eq_true, decide_eq_true_eq] at hheader
  obtain ⟨⟨⟨h12, hqr⟩, htc⟩, hrcode⟩ := hheader
  have hbounds : 1 ≤ secs ∧ secs ≤ 3600 := by omega
  obtain ⟨a, -, hpositive, hnegative⟩ := answers_of_responseCacheTtl httl
  refine ⟨a, h12, hqr, htc, hrcode, hbounds.1, hbounds.2, ?_, ?_⟩
  · intro han
    obtain ⟨hall, rr, hr, rfl⟩ := hpositive han
    exact ⟨fun other ho => hsecs ▸ (Nat.min_le_left _ _).trans (hall other ho), rr, hr, hall, hsecs⟩
  · intro hzero
    obtain ⟨-, before, soa, minimum, hsoa, hbefore, rfl⟩ := first_of_soa (hnegative hzero)
    exact ⟨before, soa, minimum, hsoa, hbefore, hsecs⟩

/-- Records that can be walked at the front of the answers are answers. -/
theorem Answers.mem_of_front (a : Answers p) {offset last : Nat} {rrs : List Rr}
    (hquestions : readQuestions p (qdcount p) 12 = some offset) (hcount : rrs.length ≤ ancount p)
    (hchain : RrsAt p offset rrs last) {rr : Rr} (hr : rr ∈ rrs) : rr ∈ a.rrs := by
  obtain rfl := Option.some.inj (a.questions.symm.trans hquestions)
  have hall := a.chain
  rw [← List.take_append_drop rrs.length a.rrs] at hall
  obtain ⟨mid, hfront, -⟩ := hall.split
  have hlen : rrs.length = (a.rrs.take rrs.length).length := by
    rw [List.length_take, a.count, Nat.min_eq_left hcount]
  rw [(hchain.unique hfront hlen).1] at hr
  exact List.mem_of_mem_take hr

/-- A packet is left out or stored. -/
theorem neverStored_or_storedFor (p : Bytes) : NeverStored p ∨ ∃ secs, StoredFor p secs := by
  cases httl : responseCacheTtl p with
  | none => exact .inl (neverStored_of_ttl httl)
  | some ttl => exact .inr ⟨min ttl 3600, storedFor_of_ttl httl (responseCacheTtl_pos httl)⟩

end Grant

/-- A packet that nothing can be granted to is left out. -/
theorem neverStored_of_not_granted {p : Bytes}
    (h : ∀ (a : Answers p) (secs : Nat), ¬Granted a secs) : NeverStored p := by
  refine (neverStored_or_storedFor p).resolve_right ?_
  rintro ⟨secs, hstored⟩
  obtain ⟨a, hgranted⟩ := granted_of_storedFor hstored
  exact h a secs hgranted

/-- A packet is stored for no longer than its records grant.  One with a time to
live of zero among its answers is left out, and so is one with neither answers
nor a start of authority record. -/
theorem cache_store_within_grant (p : Bytes) :
    (NeverStored p ∨ ∃ secs, StoredFor p secs) ∧
    (∀ secs, StoredFor p secs → ∃ a : Answers p, Granted a secs) ∧
    (∀ offset rrs last, readQuestions p (qdcount p) 12 = some offset → rrs.length ≤ ancount p →
      RrsAt p offset rrs last → (∃ rr ∈ rrs, rrTtl p rr = 0) → NeverStored p) ∧
    (ancount p = 0 →
      (¬∃ (a : Answers p) (before : List Rr) (soa : Rr) (minimum : Nat),
        AuthoritySoa a before soa minimum ∧ ∀ rr ∈ before, rr.rtype ≠ 6) → NeverStored p) := by
  refine ⟨neverStored_or_storedFor p, fun _ => granted_of_storedFor, ?_, ?_⟩
  · rintro offset rrs last hquestions hcount hchain ⟨rr, hr, hzero⟩
    refine neverStored_of_not_granted fun a secs hgranted => ?_
    have hpos := hgranted.pos
    have han : 0 < ancount p := Nat.lt_of_lt_of_le (List.length_pos_of_mem hr) hcount
    have hle := (hgranted.positive han).1 rr (a.mem_of_front hquestions hcount hchain hr)
    omega
  · intro hzero hnone
    refine neverStored_of_not_granted fun a secs hgranted => ?_
    obtain ⟨before, soa, minimum, hsoa, hbefore, -⟩ := hgranted.negative hzero
    exact hnone ⟨a, before, soa, minimum, hsoa, hbefore⟩

/-! ## Missing names -/

/-- A packet, of a missing name or not, is stored within what a start of
authority record gives exactly when there is no answer, or when there is such a
record that outlives one of the answers. -/
theorem missing_name_within_soa_iff {p : Bytes} {secs : Nat} (hstored : StoredFor p secs) :
    (∃ (a : Answers p) (before : List Rr) (soa : Rr) (minimum : Nat),
      AuthoritySoa a before soa minimum ∧ secs ≤ min (rrTtl p soa) minimum) ↔
    ancount p = 0 ∨ ∃ (a : Answers p) (before : List Rr) (soa : Rr) (minimum : Nat),
      AuthoritySoa a before soa minimum ∧
      ∃ rr ∈ a.rrs, min (rrTtl p rr) 3600 ≤ min (rrTtl p soa) minimum := by
  obtain ⟨a, hgranted⟩ := granted_of_storedFor hstored
  cases Nat.eq_zero_or_pos (ancount p) with
  | inl hzero =>
      refine iff_of_true ?_ (.inl hzero)
      obtain ⟨before, soa, minimum, hsoa, -, rfl⟩ := hgranted.negative hzero
      exact ⟨a, before, soa, minimum, hsoa, Nat.min_le_left _ _⟩
  | inr hpos =>
      obtain ⟨hall, rr, hr, -, hsecs⟩ := hgranted.positive hpos
      rw [or_iff_right (Nat.ne_of_gt hpos)]
      constructor
      · rintro ⟨a', before, soa, minimum, hsoa, hle⟩
        rw [hsecs] at hle
        exact ⟨a', before, soa, minimum, hsoa, rr, a.unique a' ▸ hr, hle⟩
      · rintro ⟨a', before, soa, minimum, hsoa, other, hother, hle⟩
        obtain rfl := a.unique a'
        have hmin : secs ≤ min (rrTtl p other) 3600 :=
          Nat.le_min.mpr ⟨hall other hother, hgranted.le⟩
        exact ⟨a, before, soa, minimum, hsoa, hmin.trans hle⟩

/-- The missing name of a start of authority record and no answer. -/
theorem negative_response_within_soa :
    byteAt negativeResponse 3 &&& 0x0F = 3 ∧ StoredFor negativeResponse 30 ∧
      ∃ (a : Answers negativeResponse) (before : List Rr) (soa : Rr) (minimum : Nat),
        AuthoritySoa a before soa minimum ∧ 30 ≤ min (rrTtl negativeResponse soa) minimum := by
  have hstored : StoredFor negativeResponse 30 := @storedFor_of_ttl _ 30 (by decide) (by decide)
  exact ⟨by decide, hstored, (missing_name_within_soa_iff hstored).mpr (.inl (by decide))⟩

/-- A missing name behind an alias that lives a minute.  There is no authority
section. -/
def aliasResponse : Bytes :=
  [0, 0, 0x81, 0x83, 0, 1, 0, 1, 0, 0, 0, 0] ++ [1, 0x61, 0] ++ [0, 1, 0, 1] ++
    [0xC0, 12, 0, 5, 0, 1, 0, 0, 0, 60, 0, 3] ++ [1, 0x62, 0]

/-- The alias alone makes the missing name live a minute. -/
theorem missing_name_without_soa :
    byteAt aliasResponse 3 &&& 0x0F = 3 ∧ StoredFor aliasResponse 60 ∧
      ¬∃ (a : Answers aliasResponse) (before : List Rr) (soa : Rr) (minimum : Nat),
        AuthoritySoa a before soa minimum := by
  refine ⟨by decide, @storedFor_of_ttl _ 60 (by decide) (by decide), ?_⟩
  rintro ⟨a, before, soa, minimum, hsoa⟩
  have hcount := hsoa.count
  rw [show nscount aliasResponse = 0 by decide] at hcount
  exact Nat.not_lt_zero _ hcount

end DnsRelay
