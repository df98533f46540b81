import TrilliumRatelimit.StoreRun

/-!
# What a store grants

Everything a store ever grants to a key is paid for: by one burst to start
with, by one more for every bucket of the key that is lost, and by the time
the calls' clock readings move forward.  Readings taken before the lock may
also move back; that time is then refilled again.

The cache drops an idle bucket by the time of its lookup, which may be well
after the reading that refills the bucket.  An expired bucket counts as lost
where that reading would not have filled it up.  With the burst within the
count this takes a call that stalls in between.
-/

namespace TrilliumRatelimit

open CappedLevel Transitions

/-- A call reads the clock at `now`, and gets the lock of its key, under which
the cache looks the bucket up, at `locked`. -/
inductive LockedEvent (K : Type*) where
  | consume (key : K) (now locked : Instant) (cost : UInt64)
  | evict (key : K)

section

variable {K : Type*} [DecidableEq K]

def LockedEvent.next (store : Store K) : LockedEvent K → Store K
  | .consume key now locked cost => (store.consumeAt key now locked cost).1
  | .evict key => store.evict key

/-- The clock is read before the lock is there. -/
def LockedEvent.ReadsFirst : LockedEvent K → Prop
  | .consume _ now locked _ => now ≤ locked
  | .evict _ => True

instance (event : LockedEvent K) : Decidable event.ReadsFirst :=
  match event with
  | .consume _ now locked _ => inferInstanceAs (Decidable (now ≤ locked))
  | .evict _ => inferInstanceAs (Decidable True)

/-- What is left of a store after any use by calls that may stall. -/
def Store.UsedLate (quota : Quota) (store : Store K) : Prop :=
  Reachable (fun store event => some (LockedEvent.next store event))
    (fun _ event => event.ReadsFirst) (Store.new K quota) store

/-- What the event takes from the key's bucket with a decision that allows. -/
def LockedEvent.granted (key : K) (store : Store K) : LockedEvent K → ℚ
  | .consume other now locked cost =>
      if other = key ∧
        (store.consumeAt other now locked cost).2.any Decision.allowed
      then cost.toNat else 0
  | .evict _ => 0

/-- The key's bucket is evicted, or rebuilt by a call that finds it expired
and whose reading would not have filled it up.  A call that panics rebuilds
nothing. -/
def LockedEvent.loses (key : K) (store : Store K) : LockedEvent K → Bool
  | .consume other now locked cost =>
      other = key && (store.consumeAt other now locked cost).2.isSome &&
        (store.entries key).any fun entry =>
          entry.expired store.quota locked &&
            entry.bucket.levelAt store.quota now < store.quota.cap
  | .evict other => other = key && (store.entries key).isSome

/-- An eviction of the key, or a call that stalls before it gets the lock. -/
def LockedEvent.disturbs (key : K) : LockedEvent K → Bool
  | .consume other now locked _ => other = key && now < locked
  | .evict other => other = key

def LockedEvent.reading (key : K) : LockedEvent K → Option Instant
  | .consume other now _ _ => if other = key then some now else none
  | .evict _ => none

def Store.grantedLate (key : K) : Store K → List (LockedEvent K) → ℚ
  | _, [] => 0
  | store, event :: rest =>
      event.granted key store +
        Store.grantedLate key (event.next store) rest

def Store.losses (key : K) : Store K → List (LockedEvent K) → ℕ
  | _, [] => 0
  | store, event :: rest =>
      (if event.loses key store then 1 else 0) +
        Store.losses key (event.next store) rest

/-- Total nanoseconds by which clock readings are behind the one before. -/
def movedBack : Instant → List Instant → ℕ
  | _, [] => 0
  | last, now :: rest => (last.nanos - now.nanos).toNat + movedBack now rest

/-! ## Buckets as the store keeps them -/

/-- No bucket is overdrawn, and none was touched last before it was updated
last. -/
structure Store.Kept (quota : Quota) (store : Store K) : Prop where
  solvent : store.Solvent quota
  lastUpdate : ∀ {key entry}, store.entries key = some entry →
    entry.bucket.lastUpdate ≤ entry.lastAccess

variable {quota : Quota} {store : Store K}

theorem Store.Kept.consumeAt (h : store.Kept quota) (key : K)
    {now locked : Instant} (hle : now ≤ locked) (cost : UInt64) :
    (store.consumeAt key now locked cost).1.Kept quota := by
  refine ⟨h.solvent.consumeAt key now locked cost, ?_⟩
  intro other entry hentry
  rcases Store.consumeAt_entry hentry with hkept | ⟨haccess, hbucket⟩
  · exact h.lastUpdate hkept
  · rw [haccess, hbucket, Bucket.tryConsume_lastUpdate]
    exact hle

theorem Store.Kept.evict (h : store.Kept quota) (key : K) :
    (store.evict key).Kept quota :=
  ⟨h.solvent.evict key, fun hentry => h.lastUpdate (Store.evict_entry hentry)⟩

theorem Store.Kept.next (h : store.Kept quota) {event : LockedEvent K}
    (hfirst : event.ReadsFirst) : (event.next store).Kept quota := by
  cases event with
  | consume key now locked cost => exact h.consumeAt key hfirst cost
  | evict key => exact h.evict key

theorem Store.UsedLate.kept (h : store.UsedLate quota) :
    store.Kept quota := by
  refine Reachable.invariant h ⟨⟨rfl, by simp [Store.new]⟩,
    by simp [Store.new]⟩ ?_
  intro store event next hkept hfirst hstep
  rw [Option.some.injEq] at hstep
  exact hstep ▸ hkept.next hfirst

/-! ## One call -/

/-- A call that goes through finds at most what is held, and a full bucket
more if that was lost. -/
theorem Store.Solvent.found_le (h : store.Solvent quota) (key : K)
    (now locked : Instant) (cost : UInt64)
    (hsome : (store.consumeAt key now locked cost).2.isSome) :
    (store.foundAt key now locked).levelAt quota now ≤
      entryLevel quota (store.held key) now +
        quota.cap * (if LockedEvent.loses key store
          (.consume key now locked cost) then 1 else 0 : ℕ) := by
  have hcap := quota.cap_nonneg
  have hnonneg : 0 ≤ entryLevel quota (store.held key) now :=
    entryLevel_nonneg (h.held_nonneg key) now
  rw [h.foundAt_level]
  split
  next hexpired =>
    obtain ⟨entry, hentry, hexpired⟩ := (Option.any_eq_true _ _).mp hexpired
    have hheld : store.held key = some entry.bucket := by
      rw [Store.held, hentry, Option.map_some]
    rw [hheld, entryLevel_some] at hnonneg ⊢
    by_cases hfull : entry.bucket.levelAt quota now < quota.cap
    · have hloses : LockedEvent.loses key store
          (.consume key now locked cost) = true := by
        simp [LockedEvent.loses, hsome, hentry, h.quota_eq, hexpired, hfull]
      rw [hloses, if_pos rfl, Nat.cast_one, mul_one]
      exact le_add_of_nonneg_left hnonneg
    · exact (not_lt.mp hfull).trans
        (le_add_of_nonneg_right (mul_nonneg hcap (Nat.cast_nonneg _)))
  next => exact le_add_of_nonneg_right (mul_nonneg hcap (Nat.cast_nonneg _))

/-- What is granted comes off the level that is held, and off a full bucket
more if that was lost. -/
theorem Store.Solvent.granted_add_level_le (h : store.Solvent quota) (key : K)
    (now locked : Instant) (cost : UInt64) :
    LockedEvent.granted key store (.consume key now locked cost) +
        entryLevel quota
          ((store.consumeAt key now locked cost).1.held key) now ≤
      entryLevel quota (store.held key) now +
        quota.cap * (if LockedEvent.loses key store
          (.consume key now locked cost) then 1 else 0 : ℕ) := by
  have hcap := quota.cap_nonneg
  rcases store.consumeAt_cases key now locked cost with
    ⟨_, hconsume⟩ | ⟨next, decision, hnext, hconsume⟩
  · have hgranted : LockedEvent.granted key store
        (.consume key now locked cost) = 0 := by
      simp [LockedEvent.granted, hconsume]
    rw [hgranted, zero_add, hconsume]
    exact le_add_of_nonneg_right (mul_nonneg hcap (Nat.cast_nonneg _))
  · have hfound := h.found_le key now locked cost (by rw [hconsume]; rfl)
    refine le_trans ?_ hfound
    rw [h.quota_eq, Bucket.tryConsume_eq, Prod.mk.injEq] at hnext
    obtain ⟨hbucket, hdecision⟩ := hnext
    have hallowed := Quota.decisionAt_allowed hdecision
    have hgranted : LockedEvent.granted key store
        (.consume key now locked cost) =
          if (cost.toNat : ℚ) ≤ (store.foundAt key now locked).levelAt quota now
          then (cost.toNat : ℚ) else 0 := by
      simp [LockedEvent.granted, hconsume, hallowed]
    have hlevel : entryLevel quota
        ((store.consumeAt key now locked cost).1.held key) now ≤
          next.tokens := by
      rw [hconsume]
      simp only [Store.held, Function.update_self, Option.map_some,
        entryLevel_some]
      rw [← hbucket, Bucket.levelAt_of_le le_rfl, sub_self, add_zero]
      exact min_le_left _ _
    rw [hgranted]
    rw [← hbucket] at hlevel
    refine (add_le_add le_rfl hlevel).trans ?_
    split
    · linarith
    · linarith

/-- An eviction gives back at most a full bucket. -/
theorem Store.Solvent.evict_level_le (h : store.Solvent quota) (other key : K)
    (last : Instant) :
    entryLevel quota ((store.evict other).held key) last ≤
      entryLevel quota (store.held key) last +
        quota.cap * (if LockedEvent.loses key store (.evict other)
          then 1 else 0 : ℕ) := by
  have hcap := quota.cap_nonneg
  have hnonneg : 0 ≤ entryLevel quota (store.held key) last :=
    entryLevel_nonneg (h.held_nonneg key) last
  by_cases hkey : other = key
  · subst hkey
    have hheld : (store.evict other).held other = none := by
      simp [Store.held, Store.evict]
    rw [hheld, entryLevel_none]
    cases hentry : store.entries other with
    | none =>
        rw [Store.held, hentry, Option.map_none, entryLevel_none]
        exact le_add_of_nonneg_right (mul_nonneg hcap (Nat.cast_nonneg _))
    | some entry =>
        have hloses : LockedEvent.loses other store (.evict other) = true := by
          simp [LockedEvent.loses, hentry]
        rw [hloses, if_pos rfl, Nat.cast_one, mul_one]
        exact le_add_of_nonneg_left hnonneg
  · have hheld : (store.evict other).held key = store.held key := by
      simp only [Store.held, Store.evict,
        Function.update_of_ne (Ne.symm hkey)]
    rw [hheld]
    exact le_add_of_nonneg_right (mul_nonneg hcap (Nat.cast_nonneg _))

theorem entryLevel_le_add (quota : Quota) (entry : Option Bucket)
    (last now : Instant) :
    entryLevel quota entry now ≤
      entryLevel quota entry last +
        max (quota.units now - quota.units last) 0 := by
  cases entry with
  | none =>
      rw [entryLevel_none, entryLevel_none]
      exact le_add_of_nonneg_right (le_max_right _ _)
  | some bucket => exact Meter.levelAt_le_add _ _ _ _

/-- A bucket that is idle for a window by the reading that comes next has
filled up. -/
theorem Store.Kept.disturbs_of_loses (h : store.Kept quota)
    (hwindow : quota.window ≠ Duration.zero)
    (hburst : quota.burst ≤ quota.count) {key : K} {event : LockedEvent K}
    (hfirst : event.ReadsFirst) (hloses : event.loses key store = true) :
    event.disturbs key = true := by
  cases event with
  | evict other =>
      simp only [LockedEvent.loses, Bool.and_eq_true, decide_eq_true_eq]
        at hloses
      exact decide_eq_true hloses.1
  | consume other now locked cost =>
      simp only [LockedEvent.loses, Bool.and_eq_true, decide_eq_true_eq,
        Option.any_eq_true, Entry.expired, h.solvent.quota_eq] at hloses
      obtain ⟨⟨hkey, _⟩, entry, hentry, hexpired, hlevel⟩ := hloses
      have hupdate := (Instant.le_def _ _).mp (h.lastUpdate hentry)
      have hlate : now < locked := by
        refine lt_of_le_of_ne hfirst fun heq => hlevel.ne ?_
        subst heq
        exact Bucket.levelAt_of_idle (Duration.nanos_pos hwindow).ne' hburst
          (h.solvent.nonneg hentry) (by omega)
      simp [LockedEvent.disturbs, hkey, hlate]

/-! ## Whole runs -/

/-- Tokens refilled if every reading counted in full. -/
def refilled (quota : Quota) : Instant → List Instant → ℚ
  | _, [] => 0
  | last, now :: rest =>
      max (quota.units now - quota.units last) 0 + refilled quota now rest

theorem refilled_eq (quota : Quota) (last : Instant)
    (readings : List Instant) :
    refilled quota last readings =
      quota.units (readings.getLastD last) - quota.units last +
        movedBack last readings * quota.count.toNat / quota.window.nanos := by
  induction readings generalizing last with
  | nil => simp [refilled, movedBack]
  | cons now rest ih =>
      have hgain : max (quota.units now - quota.units last) 0 =
          quota.units now - quota.units last +
            ((last.nanos - now.nanos).toNat : ℚ) * quota.count.toNat /
              quota.window.nanos := by
        rcases le_total last now with hle | hge
        · have hunits := quota.units_mono hle
          rw [Instant.le_def] at hle
          rw [max_eq_left (sub_nonneg.mpr hunits),
            Int.toNat_of_nonpos (by omega), Nat.cast_zero, zero_mul,
            zero_div, add_zero]
        · have hunits := quota.units_mono hge
          rw [Instant.le_def] at hge
          have hback : (((last.nanos - now.nanos).toNat : ℕ) : ℚ) =
              ((last.nanos - now.nanos : ℤ) : ℚ) := by
            exact_mod_cast Int.toNat_of_nonneg (by omega)
          rw [max_eq_right (sub_nonpos.mpr hunits), hback,
            ← Quota.units_sub]
          ring
      rw [refilled, ih, hgain, List.getLastD_cons, movedBack]
      push_cast
      ring

/-- What is left at the last reading pays for what comes. -/
theorem Store.Kept.granted_le (h : store.Kept quota) (key : K)
    (last : Instant) {events : List (LockedEvent K)}
    (hfirst : ∀ event ∈ events, event.ReadsFirst) :
    store.grantedLate key events ≤
      entryLevel quota (store.held key) last +
        quota.cap * store.losses key events +
        refilled quota last (events.filterMap (LockedEvent.reading key)) := by
  induction events generalizing store last with
  | nil =>
      have hnonneg : 0 ≤ entryLevel quota (store.held key) last :=
        entryLevel_nonneg (h.solvent.held_nonneg key) last
      simpa [Store.grantedLate, Store.losses, refilled] using hnonneg
  | cons event rest ih =>
      obtain ⟨hevent, hfirst⟩ := List.forall_mem_cons.mp hfirst
      have hrest (last : Instant) := ih (h.next hevent) last hfirst
      rw [Store.grantedLate, Store.losses, Nat.cast_add, mul_add]
      cases event with
      | evict other =>
          have hlevel := h.solvent.evict_level_le other key last
          have hlast := hrest last
          rw [List.filterMap_cons_none rfl, LockedEvent.granted, zero_add]
          simp only [LockedEvent.next] at hlast ⊢
          linarith
      | consume other now locked cost =>
          by_cases hkey : other = key
          · subst hkey
            have hgranted :=
              h.solvent.granted_add_level_le other now locked cost
            have hnow := hrest now
            have hgain := entryLevel_le_add quota (store.held other) last now
            have hreading : LockedEvent.reading other
                (.consume other now locked cost) = some now := if_pos rfl
            rw [List.filterMap_cons_some hreading, refilled]
            simp only [LockedEvent.next] at hnow ⊢
            linarith
          · have hlast := hrest last
            have hreading : LockedEvent.reading key
                (.consume other now locked cost) = none := if_neg hkey
            have hgranted : LockedEvent.granted key store
                (.consume other now locked cost) = 0 := by
              simp [LockedEvent.granted, hkey]
            have hloses : LockedEvent.loses key store
                (.consume other now locked cost) = false := by
              simp [LockedEvent.loses, hkey]
            rw [List.filterMap_cons_none hreading, hgranted, hloses, zero_add]
            simp only [LockedEvent.next, Store.held_consumeAt_of_ne hkey]
              at hlast ⊢
            simpa using hlast

theorem Store.Kept.losses_le (h : store.Kept quota)
    (hwindow : quota.window ≠ Duration.zero)
    (hburst : quota.burst ≤ quota.count) (key : K)
    {events : List (LockedEvent K)}
    (hfirst : ∀ event ∈ events, event.ReadsFirst) :
    store.losses key events ≤ events.countP (LockedEvent.disturbs key) := by
  induction events generalizing store with
  | nil => exact le_rfl
  | cons event rest ih =>
      obtain ⟨hevent, hfirst⟩ := List.forall_mem_cons.mp hfirst
      have hrest := ih (h.next hevent) hfirst
      have hone (hloses : event.loses key store = true) :
          event.disturbs key = true :=
        h.disturbs_of_loses hwindow hburst hevent hloses
      rw [Store.losses, List.countP_cons]
      by_cases hloses : event.loses key store = true
      · rw [if_pos hloses, if_pos (hone hloses)]
        omega
      · rw [if_neg hloses]
        omega

/-- Over any stretch of any run, with calls that stall for any time: the burst
and the rate pay for all grants but what is lost with buckets and what clock
readings moving back refill twice.  While the burst is within the count, only
evictions and stalled calls lose a bucket. -/
theorem store_grants_bounded (hused : store.UsedLate quota)
    (hwindow : quota.window ≠ Duration.zero) (key : K)
    {events : List (LockedEvent K)}
    (hfirst : ∀ event ∈ events, event.ReadsFirst)
    {first : Instant} {rest : List Instant}
    (hreadings : events.filterMap (LockedEvent.reading key) = first :: rest) :
    store.grantedLate key events ≤
        intervalBudget quota first (rest.getLastD first) +
          quota.burst.toNat * store.losses key events +
          movedBack first rest * quota.count.toNat / quota.window.nanos ∧
      (quota.burst ≤ quota.count →
        store.losses key events ≤
          events.countP (LockedEvent.disturbs key)) := by
  refine ⟨?_, fun hburst => hused.kept.losses_le hwindow hburst key hfirst⟩
  have hgranted := hused.kept.granted_le key first hfirst
  have hlevel := entryLevel_le_cap quota (store.held key) first
  rw [hreadings, refilled, sub_self, max_self, zero_add, refilled_eq]
    at hgranted
  rw [intervalBudget_eq]
  change _ ≤ _ + quota.cap * _ + _
  linarith

end

/-- One token a second, spent; refilled again after a call that had stalled
for a second; and spent once more from a bucket that expired while a call
stalled, and from one that was evicted: the bound is met exactly. -/
theorem store_grants_bounded_tight :
    let events : List (LockedEvent Unit) :=
      [.consume () (Instant.atSec 2) (Instant.atSec 2) 1,
        .consume () (Instant.atSec 1) (Instant.atSec 2) 1,
        .consume () (Instant.atSec 2) (Instant.atSec 2) 1,
        .consume () (Instant.atSec 2) (Instant.atSec 3) 1, .evict (),
        .consume () (Instant.atSec 2) (Instant.atSec 3) 1]
    (Store.new Unit (Quota.perSecond 1)).grantedLate () events = 4 ∧
      (4 : ℚ) ≤
        intervalBudget (Quota.perSecond 1) (Instant.atSec 2)
            (Instant.atSec 2) + 2 + 1 := by
  intro events
  have hgranted : (Store.new Unit (Quota.perSecond 1)).grantedLate ()
      events = 4 := by
    decide +kernel
  have hlosses : (Store.new Unit (Quota.perSecond 1)).losses () events = 2 := by
    decide +kernel
  have hfirst : ∀ event ∈ events, event.ReadsFirst := by
    decide +kernel
  have hreadings : events.filterMap (LockedEvent.reading ()) =
      Instant.atSec 2 :: [Instant.atSec 1, Instant.atSec 2, Instant.atSec 2,
        Instant.atSec 2] := by
    decide +kernel
  have hback : movedBack (Instant.atSec 2) [Instant.atSec 1, Instant.atSec 2,
      Instant.atSec 2, Instant.atSec 2] = 1000000000 := by
    decide +kernel
  have hused : (Store.new Unit (Quota.perSecond 1)).UsedLate
      (Quota.perSecond 1) := .refl
  have hbound := (store_grants_bounded hused (by decide) () hfirst
    hreadings).1
  rw [hgranted, hlosses, hback] at hbound
  refine ⟨hgranted, hbound.trans (le_of_eq ?_)⟩
  decide +kernel

end TrilliumRatelimit
