import TrilliumRatelimit.IdleExpiry
import TrilliumRatelimit.LimiterStack

/-!
# Runs of a store

What a run of calls and evictions grants to a key, and how the store keeps the
key's bucket over it.  A call of such a run gets the lock at once.
-/

namespace TrilliumRatelimit

open CappedLevel Transitions

section

variable {K : Type*} [DecidableEq K]

def Store.apply (store : Store K) : StoreEvent K → Store K
  | .consume key now cost => (store.consume key now cost).1
  | .evict key => store.evict key

/-- What the event takes from the key's bucket with a decision that allows. -/
def Store.grantedBy (store : Store K) (key : K) : StoreEvent K → ℚ
  | .consume other now cost =>
      if other = key ∧ (store.consume other now cost).2.any Decision.allowed
      then cost.toNat else 0
  | .evict _ => 0

def Store.granted (key : K) : Store K → List (StoreEvent K) → ℚ
  | _, [] => 0
  | store, event :: rest =>
      store.grantedBy key event + Store.granted key (store.apply event) rest

def StoreEvent.reading (key : K) : StoreEvent K → Option Instant
  | .consume other now _ => if other = key then some now else none
  | .evict _ => none

/-- No bucket is overdrawn, and all were touched last when they were updated
last. -/
structure Store.Tended (quota : Quota) (store : Store K) : Prop where
  solvent : store.Solvent quota
  lastAccess : ∀ {key entry}, store.entries key = some entry →
    entry.lastAccess = entry.bucket.lastUpdate

variable {quota : Quota} {store : Store K}

theorem Store.Tended.consume (h : store.Tended quota) (key : K)
    (now : Instant) (cost : UInt64) :
    (store.consume key now cost).1.Tended quota := by
  refine ⟨h.solvent.consume key now cost, ?_⟩
  intro other entry hentry
  rcases Store.consumeAt_entry hentry with hkept | ⟨haccess, hbucket⟩
  · exact h.lastAccess hkept
  · rw [haccess, hbucket, Bucket.tryConsume_lastUpdate]

theorem Store.Tended.evict (h : store.Tended quota) (key : K) :
    (store.evict key).Tended quota :=
  ⟨h.solvent.evict key, fun hentry => h.lastAccess (Store.evict_entry hentry)⟩

theorem Store.Tended.apply (h : store.Tended quota) (event : StoreEvent K) :
    (store.apply event).Tended quota := by
  cases event with
  | consume key now cost => exact h.consume key now cost
  | evict key => exact h.evict key

theorem Store.Used.tended (h : store.Used quota) : store.Tended quota := by
  refine Reachable.invariant h ⟨⟨rfl, by simp [Store.new]⟩,
    by simp [Store.new]⟩ ?_
  intro store event next htended _ hstep
  cases event with
  | consume key now cost =>
      rw [Store.step, Option.some.injEq] at hstep
      exact hstep ▸ htended.consume key now cost
  | evict key =>
      rw [Store.step, Option.some.injEq] at hstep
      exact hstep ▸ htended.evict key

/-! ## One key -/

/-- The bucket of a key, expired or not. -/
def Store.held (store : Store K) (key : K) : Option Bucket :=
  (store.entries key).map Entry.bucket

omit [DecidableEq K] in
theorem Store.Solvent.held_nonneg (h : store.Solvent quota) (key : K) :
    EntryNonneg (store.held key) := by
  intro bucket hbucket
  obtain ⟨entry, hentry, rfl⟩ := Option.map_eq_some_iff.mp hbucket
  exact h.nonneg hentry

theorem Store.held_consumeAt_of_ne {key other : K} (hne : other ≠ key)
    (now locked : Instant) (cost : UInt64) :
    (store.consumeAt other now locked cost).1.held key = store.held key := by
  rw [Store.held,
    (store.consumeAt_agreesOn_of_ne hne now locked cost).entry_eq, Store.held]

omit [DecidableEq K] in
/-- A call finds what is held, or a full bucket in the place of an expired
one. -/
theorem Store.Solvent.foundAt_level (h : store.Solvent quota) (key : K)
    (now locked : Instant) :
    (store.foundAt key now locked).levelAt quota now =
      if (store.entries key).any fun entry => entry.expired quota locked
      then quota.cap else entryLevel quota (store.held key) now := by
  have hquota := h.quota_eq
  cases hentry : store.entries key with
  | none =>
      have hfound : store.foundAt key now locked = Bucket.new now quota := by
        simp [Store.foundAt, Store.lookup, hentry, hquota]
      have hheld : store.held key = none := by
        rw [Store.held, hentry, Option.map_none]
      rw [hfound, Bucket.new_levelAt, hheld, entryLevel_none]
      simp
  | some entry =>
      rw [Option.any_some]
      by_cases hexpired : entry.expired quota locked = true
      · have hfound : store.foundAt key now locked = Bucket.new now quota := by
          simp [Store.foundAt, Store.lookup, hentry, hquota, hexpired]
        rw [if_pos hexpired, hfound, Bucket.new_levelAt]
      · have hfound : store.foundAt key now locked = entry.bucket := by
          simp [Store.foundAt, Store.lookup, hentry, hquota, hexpired]
        rw [if_neg hexpired, hfound, Store.held, hentry, Option.map_some,
          entryLevel_some]

end

end TrilliumRatelimit
