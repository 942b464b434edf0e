import DnsRelay.Relay.InFlightInvariant

/-!
# The code of a leader

`InFlightQueries` treats the end of a leader as one step.  The code is finer.
`publish` sends, removes the map entry and sets `finished` after that.  Then
`Drop` runs on the same value and looks at the flag.  Other callers may join
between any two of these steps, so a new leader of the same key may be there
when an old one is dropped.

`FlightTable` has the map, every leader that was created and the place its code
has reached.  `InFlightQueries` simulates it, and so its invariant applies.
-/

namespace DnsRelay

open Lib

/-! ## State -/

/-- The place that a leader's code has reached. -/
inductive LeaderPoint where
  | owned
  /-- `publish` has sent. -/
  | sent
  /-- `publish` has removed the entry. -/
  | removed
  /-- `publish` has set `finished` and returns. -/
  | returning
  /-- `Drop` has run. -/
  | dropped
deriving DecidableEq, Repr

/-- The stage of a leader in `InFlightQueries`. -/
def LeaderPoint.stage : LeaderPoint → LeaderStage
  | .owned => .held
  | .sent => .sent
  | .removed | .returning | .dropped => .unlinked

/-- `FlightLeader`, with the place of its code. -/
structure LeaderCode where
  key : CacheKey
  sender : Nat
  finished : Bool
  point : LeaderPoint
deriving DecidableEq, Repr

/-- The map of `InFlightQueries` and all leaders there were, in the order of
their creation. -/
structure FlightTable where
  entries : CacheKey → Option Nat
  leaders : List LeaderCode
  nextSender : Nat

namespace FlightTable

def new : FlightTable := ⟨fun _ => none, [], 0⟩

def setLeader (t : FlightTable) (l : Nat) (ld : LeaderCode) : FlightTable :=
  { t with leaders := t.leaders.set l ld }

/-- `entries.remove`. -/
def remove (t : FlightTable) (key : CacheKey) : FlightTable :=
  { t with entries := Function.update t.entries key none }

/-! ## Steps -/

/-- `join`.  A follower leaves no trace in the map. -/
def join (t : FlightTable) (key : CacheKey) : FlightTable :=
  match t.entries key with
  | some _ => t
  | none =>
      { entries := Function.update t.entries key (some t.nextSender)
        leaders := t.leaders ++ [⟨key, t.nextSender, false, .owned⟩]
        nextSender := t.nextSender + 1 }

/-- `Drop::drop`. -/
def dropLeader (t : FlightTable) (l : Nat) (ld : LeaderCode) : FlightTable :=
  (if ld.finished then t else t.remove ld.key).setLeader l { ld with point := .dropped }

inductive Act where
  | join (key : CacheKey)
  /-- `publish` sends. -/
  | send (l : Nat)
  /-- `publish` removes the entry. -/
  | removeEntry (l : Nat)
  /-- `publish` sets the flag. -/
  | finish (l : Nat)
  /-- A leader is dropped, by its owner or at the end of `publish`. -/
  | drop (l : Nat)
deriving DecidableEq, Repr

def Act.leader : Act → Option Nat
  | .join _ => none
  | .send l | .removeEntry l | .finish l | .drop l => some l

def step (t : FlightTable) : Act → Option FlightTable
  | .join key => some (t.join key)
  | .send l =>
      match t.leaders[l]? with
      | some ⟨key, sender, finished, .owned⟩ =>
          some (t.setLeader l ⟨key, sender, finished, .sent⟩)
      | _ => none
  | .removeEntry l =>
      match t.leaders[l]? with
      | some ⟨key, sender, finished, .sent⟩ =>
          some ((t.remove key).setLeader l ⟨key, sender, finished, .removed⟩)
      | _ => none
  | .finish l =>
      match t.leaders[l]? with
      | some ⟨key, sender, _, .removed⟩ => some (t.setLeader l ⟨key, sender, true, .returning⟩)
      | _ => none
  | .drop l =>
      match t.leaders[l]? with
      | some ⟨key, sender, finished, .owned⟩ =>
          some (t.dropLeader l ⟨key, sender, finished, .owned⟩)
      | some ⟨key, sender, finished, .returning⟩ =>
          some (t.dropLeader l ⟨key, sender, finished, .returning⟩)
      | _ => none

def machine : Machine FlightTable Act := ⟨new, step⟩

/-- What a step does, with what it finds. -/
inductive Move (t : FlightTable) : Act → FlightTable → Prop where
  | follow {key : CacheKey} {sender : Nat} (found : t.entries key = some sender) :
      Move t (.join key) t
  | lead {key : CacheKey} (found : t.entries key = none) :
      Move t (.join key)
        { entries := Function.update t.entries key (some t.nextSender)
          leaders := t.leaders ++ [⟨key, t.nextSender, false, .owned⟩]
          nextSender := t.nextSender + 1 }
  | send {l : Nat} {key : CacheKey} {sender : Nat} {finished : Bool}
      (found : t.leaders[l]? = some ⟨key, sender, finished, .owned⟩) :
      Move t (.send l) (t.setLeader l ⟨key, sender, finished, .sent⟩)
  | removeEntry {l : Nat} {key : CacheKey} {sender : Nat} {finished : Bool}
      (found : t.leaders[l]? = some ⟨key, sender, finished, .sent⟩) :
      Move t (.removeEntry l) ((t.remove key).setLeader l ⟨key, sender, finished, .removed⟩)
  | finish {l : Nat} {key : CacheKey} {sender : Nat} {finished : Bool}
      (found : t.leaders[l]? = some ⟨key, sender, finished, .removed⟩) :
      Move t (.finish l) (t.setLeader l ⟨key, sender, true, .returning⟩)
  | drop {l : Nat} {ld : LeaderCode} (found : t.leaders[l]? = some ld)
      (point : ld.point = .owned ∨ ld.point = .returning) :
      Move t (.drop l) (t.dropLeader l ld)

theorem step_move {t t' : FlightTable} {a : Act} (h : t.step a = some t') : Move t a t' := by
  cases a with
  | join key =>
      cases h
      unfold join
      split
      next found => exact .follow found
      next found => exact .lead found
  | send l =>
      simp only [step] at h
      split at h
      next found =>
        cases h
        exact .send found
      · cases h
  | removeEntry l =>
      simp only [step] at h
      split at h
      next found =>
        cases h
        exact .removeEntry found
      · cases h
  | finish l =>
      simp only [step] at h
      split at h
      next found =>
        cases h
        exact .finish found
      · cases h
  | drop l =>
      simp only [step] at h
      split at h
      next found =>
        cases h
        exact .drop found (.inl rfl)
      next found =>
        cases h
        exact .drop found (.inr rfl)
      · cases h

/-! ## Simulation -/

/-- A state of the code and a state of the coarser machine. -/
structure Simulates (t : FlightTable) (s : InFlightQueries) : Prop where
  entries : t.entries = s.entries
  leaders_length : t.leaders.length = s.nextFlight
  nextSender : t.nextSender = s.nextFlight
  leader : ∀ (l : Nat) (ld : LeaderCode), t.leaders[l]? = some ld →
    s.leaders l = some ⟨ld.key, ld.point.stage⟩
  sender : ∀ (l : Nat) (ld : LeaderCode), t.leaders[l]? = some ld → ld.sender = l
  /-- The flag is set at the end of `publish`. -/
  finished : ∀ (l : Nat) (ld : LeaderCode), t.leaders[l]? = some ld → ld.point ≠ .dropped →
    ld.finished = decide (ld.point = .returning)

variable {t t' : FlightTable} {s s' : InFlightQueries}

/-- One leader goes on in both machines. -/
theorem Simulates.advance (h : Simulates t s) {l : Nat} {ld ld' : LeaderCode}
    (hl : t.leaders[l]? = some ld) (hkey : ld'.key = ld.key) (hsender : ld'.sender = ld.sender)
    (hfinished : ld'.point ≠ .dropped → ld'.finished = decide (ld'.point = .returning))
    (hleaders : t'.leaders = t.leaders.set l ld') (hnext : t'.nextSender = t.nextSender)
    (hentries : t'.entries = s'.entries) (hnext' : s'.nextFlight = s.nextFlight)
    (hleaders' : s'.leaders = Function.update s.leaders l (some ⟨ld.key, ld'.point.stage⟩)) :
    Simulates t' s' := by
  have hcases : ∀ {l' : Nat} {x : LeaderCode}, t'.leaders[l']? = some x →
      (l' = l ∧ x = ld') ∨ (l' ≠ l ∧ t.leaders[l']? = some x) := by
    intro l' x hx
    rw [hleaders] at hx
    exact getElem?_set_cases hx
  refine ⟨hentries, ?_, ?_, fun l' x hx => ?_, fun l' x hx => ?_, fun l' x hx => ?_⟩
  · rw [hleaders, List.length_set, hnext']
    exact h.leaders_length
  · rw [hnext, hnext']
    exact h.nextSender
  · rw [hleaders']
    obtain ⟨rfl, rfl⟩ | ⟨hne, hold⟩ := hcases hx
    · rw [Function.update_self, hkey]
    · rw [Function.update_of_ne hne]
      exact h.leader l' x hold
  · obtain ⟨rfl, rfl⟩ | ⟨-, hold⟩ := hcases hx
    · rw [hsender]
      exact h.sender l' ld hl
    · exact h.sender l' x hold
  · obtain ⟨rfl, rfl⟩ | ⟨-, hold⟩ := hcases hx
    · exact hfinished
    · exact h.finished l' x hold

theorem entries_removeEntry (s : InFlightQueries) (k : CacheKey) :
    (s.removeEntry k).entries = Function.update s.entries k none := by
  unfold InFlightQueries.removeEntry
  split
  next hnone => exact (Function.update_eq_self_iff.mpr hnone.symm).symm
  · rfl

/-- A leader whose stage stays the same goes on alone. -/
theorem Simulates.stutter (h : Simulates t s) {l : Nat} {ld ld' : LeaderCode}
    (hl : t.leaders[l]? = some ld) (hkey : ld'.key = ld.key) (hsender : ld'.sender = ld.sender)
    (hfinished : ld'.point ≠ .dropped → ld'.finished = decide (ld'.point = .returning))
    (hstage : ld'.point.stage = ld.point.stage) : Simulates (t.setLeader l ld') s := by
  refine h.advance hl hkey hsender hfinished rfl rfl h.entries rfl ?_
  rw [hstage]
  exact (Function.update_eq_self_iff.mpr (h.leader l ld hl).symm).symm

/-- A leader removes its entry in both machines. -/
theorem Simulates.unlink (h : Simulates t s) {l : Nat} {ld ld' : LeaderCode}
    (hl : t.leaders[l]? = some ld) (hkey : ld'.key = ld.key) (hsender : ld'.sender = ld.sender)
    (hfinished : ld'.point ≠ .dropped → ld'.finished = decide (ld'.point = .returning))
    (hstage : ld'.point.stage = .unlinked) :
    Simulates ((t.remove ld.key).setLeader l ld')
      ((s.removeEntry ld.key).setLeader l (some ⟨ld.key, .unlinked⟩)) := by
  refine h.advance hl hkey hsender hfinished rfl rfl ?_ (s.removeEntry_nextFlight ld.key) ?_
  · show Function.update t.entries ld.key none = (s.removeEntry ld.key).entries
    rw [entries_removeEntry, h.entries]
  · show Function.update (s.removeEntry ld.key).leaders l _ = _
    rw [InFlightQueries.removeEntry_leaders, hstage]

theorem Simulates.lead (h : Simulates t s) {key : CacheKey} (hnone : s.entries key = none) :
    Simulates
      { entries := Function.update t.entries key (some t.nextSender)
        leaders := t.leaders ++ [⟨key, t.nextSender, false, .owned⟩]
        nextSender := t.nextSender + 1 } (s.join key).1 := by
  rw [InFlightQueries.join, hnone]
  have hcases : ∀ {l : Nat} {ld : LeaderCode},
      (t.leaders ++ [⟨key, t.nextSender, false, .owned⟩])[l]? = some ld →
      (l = s.nextFlight ∧ ld = ⟨key, t.nextSender, false, .owned⟩) ∨
        (l ≠ s.nextFlight ∧ t.leaders[l]? = some ld) := by
    intro l ld hld
    by_cases hlt : l < t.leaders.length
    · rw [List.getElem?_append_left hlt] at hld
      exact .inr ⟨Nat.ne_of_lt (h.leaders_length ▸ hlt), hld⟩
    · rw [List.getElem?_append_right (Nat.le_of_not_lt hlt), List.getElem?_singleton] at hld
      split at hld
      next hzero =>
        cases hld
        exact .inl ⟨by have := h.leaders_length; omega, rfl⟩
      · cases hld
  refine ⟨?_, ?_, ?_, fun l ld hld => ?_, fun l ld hld => ?_, fun l ld hld => ?_⟩
  · show Function.update t.entries key (some t.nextSender) = Function.update s.entries key _
    rw [h.entries, h.nextSender]
  · rw [List.length_append, h.leaders_length]
    rfl
  · exact congrArg (· + 1) h.nextSender
  · show Function.update s.leaders s.nextFlight _ l = _
    obtain ⟨rfl, rfl⟩ | ⟨hne, hold⟩ := hcases hld
    · rw [Function.update_self]
      rfl
    · rw [Function.update_of_ne hne]
      exact h.leader l ld hold
  · obtain ⟨rfl, rfl⟩ | ⟨-, hold⟩ := hcases hld
    · exact h.nextSender
    · exact h.sender l ld hold
  · obtain ⟨rfl, rfl⟩ | ⟨-, hold⟩ := hcases hld
    · exact fun _ => rfl
    · exact h.finished l ld hold

/-- The flag of a leader that was not dropped. -/
theorem Simulates.flag (h : Simulates t s) {l sender : Nat} {key : CacheKey} {finished : Bool}
    {point : LeaderPoint} (found : t.leaders[l]? = some ⟨key, sender, finished, point⟩)
    (hpoint : point ≠ .dropped) : finished = decide (point = .returning) :=
  h.finished l _ found hpoint

/-- `InFlightQueries` follows every step of the code, or waits. -/
theorem simulates_step {a : Act} (h : Simulates t s) (hs : InFlightQueries.machine.Reach s)
    (hmove : Move t a t') : ∃ s', InFlightQueries.machine.Reach s' ∧ Simulates t' s' := by
  cases hmove with
  | follow found => exact ⟨s, hs, h⟩
  | @lead key found =>
      refine ⟨(s.join key).1, hs.next (.join key) rfl, h.lead ?_⟩
      rw [← h.entries]
      exact found
  | @send l key sender finished found =>
      have hleader := h.leader l _ found
      have hflag : finished = false := h.flag found (by decide)
      -- what is published does not matter here
      refine ⟨{ (s.onChan l (·.send (some []))).setLeader l (some ⟨key, .sent⟩) with
          published := Function.update s.published l (some []) },
        hs.next (.publishSend l []) ?_, ?_⟩
      · show s.publishSend l [] = _
        rw [InFlightQueries.publishSend, hleader]
        rfl
      · have hset : (t.setLeader l ⟨key, sender, finished, .sent⟩).leaders =
            t.leaders.set l ⟨key, sender, finished, .sent⟩ := rfl
        refine h.advance found ?_ ?_ ?_ hset rfl h.entries rfl rfl
        · rfl
        · rfl
        · exact fun _ => hflag
  | @removeEntry l key sender finished found =>
      have hleader := h.leader l _ found
      have hflag : finished = false := h.flag found (by decide)
      refine ⟨(s.removeEntry key).setLeader l (some ⟨key, .unlinked⟩),
        hs.next (.publishRemove l) ?_, ?_⟩
      · show s.publishRemove l = _
        rw [InFlightQueries.publishRemove, hleader]
        rfl
      · exact h.unlink found rfl rfl (fun _ => hflag) rfl
  | @finish l key sender finished found =>
      exact ⟨s, hs, h.stutter found rfl rfl (fun _ => rfl) rfl⟩
  | @drop l ld found point =>
      obtain ⟨key, sender, finished, point'⟩ := ld
      obtain rfl | rfl := point
      · -- it has not published, so the entry is its own
        have hflag : finished = false := h.flag found (by decide)
        subst hflag
        have hleader := h.leader l _ found
        refine ⟨(s.removeEntry key).setLeader l (some ⟨key, .unlinked⟩),
          hs.next (.dropRemove l) ?_, ?_⟩
        · show s.dropRemove l = _
          rw [InFlightQueries.dropRemove, hleader]
          rfl
        · exact h.unlink found rfl rfl (fun hne => absurd rfl hne) rfl
      · -- the flag keeps it from touching the entry
        have hflag : finished = true := h.flag found (by decide)
        subst hflag
        exact ⟨s, hs, h.stutter found rfl rfl (fun hne => absurd rfl hne) rfl⟩

theorem simulates_new : Simulates new InFlightQueries.new := by
  refine ⟨rfl, rfl, rfl, fun l ld hld => ?_, fun l ld hld => ?_, fun l ld hld => ?_⟩
  all_goals cases hld

theorem simulates_reach (h : machine.Reach t) :
    ∃ s, InFlightQueries.machine.Reach s ∧ Simulates t s := by
  refine Machine.Reach.simulate simulates_new ?_ h
  intro t a t' s hsim hs hstep
  exact simulates_step hsim hs (step_move hstep)

/-! ## Exclusivity -/

/-- A leader of a key that has neither removed its entry in `publish` nor been
dropped. -/
def Leads (t : FlightTable) (l : Nat) (key : CacheKey) : Prop :=
  ∃ ld, t.leaders[l]? = some ld ∧ ld.key = key ∧ (ld.point = .owned ∨ ld.point = .sent)

theorem stage_ne_unlinked_iff {point : LeaderPoint} :
    point.stage ≠ .unlinked ↔ point = .owned ∨ point = .sent := by
  cases point with
  | owned => decide
  | sent => decide
  | removed => decide
  | returning => decide
  | dropped => decide

/-- The entry of a leader that holds on to it carries its own sender. -/
theorem Simulates.entry_of_leads (h : Simulates t s) (hs : InFlightQueries.Inv s) {l : Nat}
    {ld : LeaderCode} (hld : t.leaders[l]? = some ld)
    (hpoint : ld.point = .owned ∨ ld.point = .sent) : t.entries ld.key = some l := by
  rw [h.entries]
  exact hs.linked l _ _ (h.leader l ld hld) (stage_ne_unlinked_iff.mpr hpoint)

/-- Every entry has a leader that holds on to it. -/
theorem Simulates.leads_of_entry (h : Simulates t s) (hs : InFlightQueries.Inv s) {l : Nat}
    {key : CacheKey} (hentry : t.entries key = some l) : t.Leads l key := by
  rw [h.entries] at hentry
  obtain ⟨stage, hleader, hstage⟩ := hs.entry key l hentry
  have hlt : l < t.leaders.length := by
    rw [h.leaders_length]
    exact hs.leader_lt hleader
  obtain ⟨ld, hld⟩ : ∃ ld, t.leaders[l]? = some ld := ⟨_, List.getElem?_eq_getElem hlt⟩
  have hboth := (h.leader l ld hld).symm.trans hleader
  cases hboth
  exact ⟨ld, hld, rfl, stage_ne_unlinked_iff.mp hstage⟩

/-- A step of one leader leaves the others as they are. -/
theorem Move.leader_other {a : Act} (h : Move t a t') {l : Nat} {ld : LeaderCode}
    (hld : t.leaders[l]? = some ld) (ha : a.leader ≠ some l) : t'.leaders[l]? = some ld := by
  have hset : ∀ {l' : Nat} {ld' : LeaderCode}, (Act.leader a = some l') →
      (t.leaders.set l' ld')[l]? = some ld := by
    intro l' ld' hl'
    have hne : l' ≠ l := by
      rintro rfl
      exact ha hl'
    rw [List.getElem?_set_ne hne]
    exact hld
  cases h with
  | follow found => exact hld
  | lead found =>
      exact (List.getElem?_append_left (List.getElem?_eq_some_iff.mp hld).1).trans hld
  | send found => exact hset rfl
  | removeEntry found => exact hset rfl
  | finish found => exact hset rfl
  | @drop l' ld' found point =>
      unfold dropLeader
      split
      · exact hset rfl
      · exact hset rfl

theorem reach_entries (h : machine.Reach t) :
    (∀ (l : Nat) (ld : LeaderCode), t.leaders[l]? = some ld → ld.sender = l) ∧
      (∀ (l : Nat) (ld : LeaderCode), t.leaders[l]? = some ld →
        ld.point = .owned ∨ ld.point = .sent → t.entries ld.key = some l) ∧
      (∀ l key, t.entries key = some l → t.Leads l key) := by
  obtain ⟨s, hs, hsim⟩ := simulates_reach h
  have hinv := InFlightQueries.inv_reach hs
  exact ⟨hsim.sender, fun l ld hld hpoint => hsim.entry_of_leads hinv hld hpoint,
    fun l key hentry => hsim.leads_of_entry hinv hentry⟩

/-- At every moment the map has an entry for a key iff exactly one leader of it
holds on, and the entry has the sender of that leader and of no other.  What
one leader does keeps the entries of the others. -/
theorem single_flight_exclusive (h : machine.Reach t) :
    (∀ key, (t.entries key).isSome ↔ ∃! l, t.Leads l key) ∧
      (∀ (l : Nat) (ld : LeaderCode), t.leaders[l]? = some ld → t.Leads l ld.key →
        t.entries ld.key = some ld.sender) ∧
      (∀ (l l' : Nat) (ld ld' : LeaderCode), t.leaders[l]? = some ld →
        t.leaders[l']? = some ld' → ld.sender = ld'.sender → l = l') ∧
      (∀ l l' key, t.Leads l key → t.Leads l' key → l = l') ∧
      (∀ a t' l key, t.step a = some t' → a.leader ≠ some l → t.Leads l key →
        t'.Leads l key ∧ t'.entries key = t.entries key) := by
  obtain ⟨hsender, hheld, hentry⟩ := reach_entries h
  have hleads : ∀ l key, t.Leads l key → t.entries key = some l := by
    rintro l key ⟨ld, hld, rfl, hpoint⟩
    exact hheld l ld hld hpoint
  have hunique : ∀ l l' key, t.Leads l key → t.Leads l' key → l = l' := by
    intro l l' key hl hl'
    have hsame := (hleads l key hl).symm.trans (hleads l' key hl')
    cases hsame
    rfl
  refine ⟨fun key => ⟨fun hsome => ?_, ?_⟩, ?_, ?_, hunique, ?_⟩
  · obtain ⟨l, hl⟩ := Option.isSome_iff_exists.mp hsome
    exact ⟨l, hentry l key hl, fun l' hl' => hunique l' l key hl' (hentry l key hl)⟩
  · rintro ⟨l, hl, -⟩
    rw [hleads l key hl]
    rfl
  · intro l ld hld hl
    rw [hsender l ld hld]
    exact hleads l ld.key hl
  · intro l l' ld ld' hld hld' hsame
    rw [← hsender l ld hld, ← hsender l' ld' hld', hsame]
  · intro a t' l key hstep ha hl
    have hl' : t'.Leads l key := by
      obtain ⟨ld, hld, hkey, hpoint⟩ := hl
      exact ⟨ld, (step_move hstep).leader_other hld ha, hkey, hpoint⟩
    -- the leader holds on in the next state too, and there too it has its entry
    obtain ⟨-, hheld', -⟩ := reach_entries (h.next a hstep)
    refine ⟨hl', ?_⟩
    obtain ⟨ld, hld, rfl, hpoint⟩ := hl'
    rw [hheld' l ld hld hpoint, hleads l ld.key hl]

/-- A new leader joins while the old one is still in `publish`, and the old one
is dropped after that.  The entry is the new leader's. -/
theorem late_drop_keeps_new_entry : ∃ t key,
    machine.run machine.init
        [.join key, .send 0, .removeEntry 0, .join key, .finish 0, .drop 0] = some t ∧
      (∃! l, t.Leads l key) ∧ t.entries key = some 1 := by
  have hrun : machine.run machine.init
      [.join ⟨[], 1, 1, 0, false, none⟩, .send 0, .removeEntry 0,
        .join ⟨[], 1, 1, 0, false, none⟩, .finish 0, .drop 0] = some _ := rfl
  refine ⟨_, _, hrun, ?_, rfl⟩
  exact ((single_flight_exclusive (Machine.reach_of_run hrun)).1 _).mp rfl

end FlightTable

end DnsRelay
