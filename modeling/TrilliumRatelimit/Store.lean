import TrilliumRatelimit.Bucket

/-!
# The store of buckets

`Store::consume` reads the clock and then runs one refill-and-consume closure
under moka's lock of the key.  `computeEntry` is that closure.  Around it the
cache is modelled by what moka documents: an entry that was not touched for
one quota window is gone, and at capacity any entry may be evicted at any
time.  Which entry the cache evicts is not modelled; `evict` may remove any.

moka goes by the time it looks an entry up, under the lock.  `consumeAt` keeps
that time apart from the reading a call starts with.  `consume` takes them for
one, so results about runs of it, with readings in order, are about calls that
do not stall in between.

A decision of `none` is a panic in the closure.  It ends before `Op::Put`, so
the cache keeps what it held.
-/

namespace TrilliumRatelimit

open CappedLevel

/-- The closure `Store::consume` passes to `and_compute_with`. -/
def computeEntry (quota : Quota) (entry : Option Bucket) (now : Instant)
    (cost : UInt64) : Option Bucket × Option Decision :=
  let bucket := entry.getD (Bucket.new now quota)
  match bucket.tryConsume now quota cost with
  | (next, some decision) => (some next, some decision)
  | (_, none) => (entry, none)

structure Entry where
  bucket : Bucket
  lastAccess : Instant
  deriving DecidableEq

structure Store (K : Type*) where
  quota : Quota
  entries : K → Option Entry

variable {K : Type*} [DecidableEq K]

def Store.new (K : Type*) (quota : Quota) : Store K := ⟨quota, fun _ => none⟩

/-- `time_to_idle(quota.window())`: gone once a window has passed since the
entry's last access. -/
def Entry.expired (quota : Quota) (entry : Entry) (now : Instant) : Bool :=
  entry.lastAccess.nanos + quota.window.nanos ≤ now.nanos

def Store.lookup (store : Store K) (key : K) (now : Instant) :
    Option Bucket :=
  match store.entries key with
  | none => none
  | some entry =>
      if entry.expired store.quota now then none else some entry.bucket

/-- `now` is the clock reading the call starts with, `locked` the time at
which the cache looks the entry up and stores it. -/
def Store.consumeAt (store : Store K) (key : K) (now locked : Instant)
    (cost : UInt64) : Store K × Option Decision :=
  match computeEntry store.quota (store.lookup key locked) now cost with
  | (_, none) => (store, none)
  | (entry, some decision) =>
      ({ store with
          entries := Function.update store.entries key
            (entry.map fun bucket => ⟨bucket, locked⟩) },
        some decision)

/-- A call that gets the lock at once. -/
def Store.consume (store : Store K) (key : K) (now : Instant)
    (cost : UInt64) : Store K × Option Decision :=
  store.consumeAt key now now cost

/-- Capacity eviction of one key. -/
def Store.evict (store : Store K) (key : K) : Store K :=
  { store with entries := Function.update store.entries key none }

/-- The bucket a call of the store works on. -/
def Store.foundAt (store : Store K) (key : K) (now locked : Instant) :
    Bucket :=
  (store.lookup key locked).getD (Bucket.new now store.quota)

def Store.found (store : Store K) (key : K) (now : Instant) : Bucket :=
  (store.lookup key now).getD (Bucket.new now store.quota)

/-- A store call is a bucket call on the bucket it finds, and keeps the
outcome with the time of the lookup as last access. -/
theorem Store.consumeAt_cases (store : Store K) (key : K)
    (now locked : Instant) (cost : UInt64) :
    (((store.foundAt key now locked).tryConsume now store.quota cost).2 =
          none ∧
        store.consumeAt key now locked cost = (store, none)) ∨
      ∃ next decision,
        (store.foundAt key now locked).tryConsume now store.quota cost =
          (next, some decision) ∧
        store.consumeAt key now locked cost =
          (⟨store.quota,
            Function.update store.entries key (some ⟨next, locked⟩)⟩,
            some decision) := by
  unfold Store.foundAt
  cases hstep : ((store.lookup key locked).getD
      (Bucket.new now store.quota)).tryConsume now store.quota cost with
  | mk next decision =>
      cases decision with
      | none =>
          refine .inl ⟨rfl, ?_⟩
          simp only [Store.consumeAt, computeEntry, hstep]
      | some decision =>
          refine .inr ⟨next, decision, rfl, ?_⟩
          simp only [Store.consumeAt, computeEntry, hstep, Option.map_some]

theorem Store.consume_cases (store : Store K) (key : K) (now : Instant)
    (cost : UInt64) :
    (((store.found key now).tryConsume now store.quota cost).2 = none ∧
        store.consume key now cost = (store, none)) ∨
      ∃ next decision,
        (store.found key now).tryConsume now store.quota cost =
          (next, some decision) ∧
        store.consume key now cost =
          (⟨store.quota,
            Function.update store.entries key (some ⟨next, now⟩)⟩,
            some decision) :=
  store.consumeAt_cases key now now cost

theorem Store.consumeAt_of_tryConsume {store : Store K} {key : K}
    {now locked : Instant} {cost : UInt64} {next : Bucket}
    {decision : Decision}
    (hstep : (store.foundAt key now locked).tryConsume now store.quota cost =
      (next, some decision)) :
    store.consumeAt key now locked cost =
      (⟨store.quota, Function.update store.entries key (some ⟨next, locked⟩)⟩,
        some decision) := by
  rcases store.consumeAt_cases key now locked cost with
    ⟨hpanic, _⟩ | ⟨other, outcome, hother, hconsume⟩
  · simp [hstep] at hpanic
  · rw [hstep] at hother
    obtain ⟨rfl, houtcome⟩ := Prod.mk.inj hother
    rw [hconsume, ← houtcome]

theorem Store.consume_of_tryConsume {store : Store K} {key : K}
    {now : Instant} {cost : UInt64} {next : Bucket} {decision : Decision}
    (hstep : (store.found key now).tryConsume now store.quota cost =
      (next, some decision)) :
    store.consume key now cost =
      (⟨store.quota, Function.update store.entries key (some ⟨next, now⟩)⟩,
        some decision) :=
  Store.consumeAt_of_tryConsume hstep

theorem Store.consumeAt_decision (store : Store K) (key : K)
    (now locked : Instant) (cost : UInt64) :
    (store.consumeAt key now locked cost).2 =
      store.quota.decisionAt
        ((store.foundAt key now locked).levelAt store.quota now) cost := by
  rw [← Bucket.tryConsume_decision]
  rcases store.consumeAt_cases key now locked cost with
    ⟨hpanic, hconsume⟩ | ⟨next, decision, hnext, hconsume⟩
  · rw [hconsume, hpanic]
  · rw [hconsume, hnext]

theorem Store.consumeAt_quota (store : Store K) (key : K)
    (now locked : Instant) (cost : UInt64) :
    (store.consumeAt key now locked cost).1.quota = store.quota := by
  rcases store.consumeAt_cases key now locked cost with
    ⟨_, hconsume⟩ | ⟨_, _, _, hconsume⟩
  · rw [hconsume]
  · rw [hconsume]

/-- An entry is the one that was there, or the one the call stored. -/
theorem Store.consumeAt_entry {store : Store K} {key other : K}
    {now locked : Instant} {cost : UInt64} {entry : Entry}
    (hentry : (store.consumeAt key now locked cost).1.entries other =
      some entry) :
    store.entries other = some entry ∨
      entry.lastAccess = locked ∧
        entry.bucket = ((store.foundAt other now locked).tryConsume now
          store.quota cost).1 := by
  rcases store.consumeAt_cases key now locked cost with
    ⟨_, hconsume⟩ | ⟨next, decision, hnext, hconsume⟩
  · rw [hconsume] at hentry
    exact .inl hentry
  · rw [hconsume] at hentry
    by_cases hkey : other = key
    · subst hkey
      simp only [Function.update_self, Option.some.injEq] at hentry
      subst hentry
      exact .inr ⟨rfl, by rw [hnext]⟩
    · simp only [Function.update_of_ne hkey] at hentry
      exact .inl hentry

theorem Store.evict_entry {store : Store K} {key other : K} {entry : Entry}
    (hentry : (store.evict key).entries other = some entry) :
    store.entries other = some entry := by
  by_cases hkey : other = key
  · simp [Store.evict, hkey] at hentry
  · simpa only [Store.evict, Function.update_of_ne hkey] using hentry

/-! ## One entry over time -/

/-- The token level a request at `now` would find; a missing entry counts as
full, since the closure then starts from `Bucket::new`. -/
def entryLevel (quota : Quota) (entry : Option Bucket) (now : Instant) : ℚ :=
  (entry.getD (Bucket.new now quota)).levelAt quota now

/-- The entry, if any, was last updated at or before `now`. -/
def EntryBefore (quota : Quota) (entry : Option Bucket) (now : Instant) :
    Prop :=
  ∀ bucket, entry = some bucket →
    quota.units bucket.lastUpdate ≤ quota.units now

def EntryNonneg (entry : Option Bucket) : Prop :=
  ∀ bucket, entry = some bucket → 0 ≤ bucket.tokens

/-- What a request at this level takes: its cost when a decision comes back
and allows it. -/
def Quota.taken (quota : Quota) (level : ℚ) (cost : UInt64) : ℚ :=
  if (quota.decisionAt level cost).any Decision.allowed
  then cost.toNat else 0

@[simp] theorem entryLevel_none (quota : Quota) (now : Instant) :
    entryLevel quota none now = quota.cap := Bucket.new_levelAt now now quota

theorem entryLevel_some (quota : Quota) (bucket : Bucket) (now : Instant) :
    entryLevel quota (some bucket) now = bucket.levelAt quota now := rfl

theorem entryLevel_le_cap (quota : Quota) (entry : Option Bucket)
    (now : Instant) : entryLevel quota entry now ≤ quota.cap :=
  Meter.levelAt_le_cap _ _ _

theorem entryLevel_nonneg {quota : Quota} {entry : Option Bucket}
    (hnonneg : EntryNonneg entry) (now : Instant) :
    0 ≤ entryLevel quota entry now := by
  cases entry with
  | none =>
      rw [entryLevel_none]
      exact quota.cap_nonneg
  | some bucket =>
      exact Bucket.levelAt_nonneg (hnonneg bucket rfl) now

/-- The closure either panics and keeps the entry, or stores the bucket after
the attempt. -/
theorem computeEntry_cases (quota : Quota) (entry : Option Bucket)
    (now : Instant) (cost : UInt64) :
    (quota.decisionAt (entryLevel quota entry now) cost = none ∧
        computeEntry quota entry now cost = (entry, none)) ∨
      ∃ decision,
        quota.decisionAt (entryLevel quota entry now) cost = some decision ∧
        computeEntry quota entry now cost =
          (some ((entry.getD (Bucket.new now quota)).tryConsume
            now quota cost).1, some decision) := by
  have hdecision := Bucket.tryConsume_decision
    (entry.getD (Bucket.new now quota)) now quota cost
  cases hstep :
      (entry.getD (Bucket.new now quota)).tryConsume now quota cost with
  | mk next decision =>
      rw [hstep] at hdecision
      cases decision with
      | none =>
          refine .inl ⟨hdecision.symm, ?_⟩
          simp only [computeEntry, hstep]
      | some decision =>
          refine .inr ⟨decision, hdecision.symm, ?_⟩
          simp only [computeEntry, hstep]

theorem computeEntry_decision (quota : Quota) (entry : Option Bucket)
    (now : Instant) (cost : UInt64) :
    (computeEntry quota entry now cost).2 =
      quota.decisionAt (entryLevel quota entry now) cost := by
  rcases computeEntry_cases quota entry now cost with
    ⟨hdecision, hcompute⟩ | ⟨decision, hdecision, hcompute⟩
  · rw [hcompute, hdecision]
  · rw [hcompute, hdecision]

theorem Quota.taken_of_none {quota : Quota} {level : ℚ} {cost : UInt64}
    (h : quota.decisionAt level cost = none) : quota.taken level cost = 0 := by
  simp [Quota.taken, h]

theorem Quota.taken_of_some {quota : Quota} {level : ℚ} {cost : UInt64}
    {decision : Decision} (h : quota.decisionAt level cost = some decision) :
    quota.taken level cost =
      if (cost.toNat : ℚ) ≤ level then (cost.toNat : ℚ) else 0 := by
  rw [Quota.taken, h, Option.any_some, Quota.decisionAt_allowed h]
  simp only [decide_eq_true_eq]

/-- Right after a request the level is what the request left. -/
theorem entryLevel_computeEntry {quota : Quota} {entry : Option Bucket}
    (now : Instant) (cost : UInt64) (hnonneg : EntryNonneg entry) :
    entryLevel quota (computeEntry quota entry now cost).1 now =
      entryLevel quota entry now -
        quota.taken (entryLevel quota entry now) cost := by
  rcases computeEntry_cases quota entry now cost with
    ⟨hnone, hcompute⟩ | ⟨decision, hsome, hcompute⟩
  · rw [hcompute, Quota.taken_of_none hnone, sub_zero]
  · rw [hcompute, Quota.taken_of_some hsome, entryLevel_some,
      Bucket.levelAt, Bucket.tryConsume_toMeter]
    have hlevel : 0 ≤ entryLevel quota entry now :=
      entryLevel_nonneg hnonneg now
    have hcap : entryLevel quota entry now ≤ quota.cap :=
      entryLevel_le_cap quota entry now
    have hcost : (0 : ℚ) ≤ cost.toNat := Nat.cast_nonneg _
    rw [Meter.levelAt, Meter.spend_mark, sub_self, max_self, add_zero]
    unfold Meter.spend
    change min (if (cost.toNat : ℚ) ≤ entryLevel quota entry now then
      (⟨entryLevel quota entry now - cost.toNat, quota.units now⟩ : Meter ℚ)
      else ⟨entryLevel quota entry now, quota.units now⟩).level quota.cap = _
    split
    · exact min_eq_left (by simp only; linarith)
    · rw [sub_zero]
      exact min_eq_left hcap

theorem EntryNonneg.computeEntry {quota : Quota} {entry : Option Bucket}
    (hnonneg : EntryNonneg entry) (now : Instant) (cost : UInt64) :
    EntryNonneg (computeEntry quota entry now cost).1 := by
  rcases computeEntry_cases quota entry now cost with
    ⟨_, hcompute⟩ | ⟨_, _, hcompute⟩
  · rwa [hcompute]
  · rw [hcompute]
    rintro bucket hbucket
    rw [Option.some.injEq] at hbucket
    subst hbucket
    have htokens : 0 ≤ (entry.getD (Bucket.new now quota)).tokens := by
      cases entry with
      | none => exact quota.cap_nonneg
      | some bucket => exact hnonneg bucket rfl
    exact Bucket.tryConsume_tokens_nonneg htokens now quota cost

theorem EntryBefore.computeEntry {quota : Quota} {entry : Option Bucket}
    {now : Instant} (hbefore : EntryBefore quota entry now) (cost : UInt64) :
    EntryBefore quota (computeEntry quota entry now cost).1 now := by
  rcases computeEntry_cases quota entry now cost with
    ⟨_, hcompute⟩ | ⟨_, _, hcompute⟩
  · rwa [hcompute]
  · rw [hcompute]
    rintro bucket hbucket
    rw [Option.some.injEq] at hbucket
    subst hbucket
    rw [Bucket.tryConsume_lastUpdate]

theorem EntryBefore.mono {quota : Quota} {entry : Option Bucket}
    {now later : Instant} (hbefore : EntryBefore quota entry now)
    (hle : quota.units now ≤ quota.units later) :
    EntryBefore quota entry later :=
  fun bucket hbucket => (hbefore bucket hbucket).trans hle

theorem entryLevel_later {quota : Quota} {entry : Option Bucket}
    {now later : Instant} (hbefore : EntryBefore quota entry now)
    (hle : quota.units now ≤ quota.units later) :
    entryLevel quota entry later =
      min (entryLevel quota entry now + (quota.units later - quota.units now))
        quota.cap := by
  cases entry with
  | none =>
      rw [entryLevel_none, entryLevel_none]
      exact (min_eq_right (by linarith)).symm
  | some bucket =>
      have hmark : (bucket.toMeter quota).mark ≤ quota.units now :=
        hbefore bucket rfl
      rw [entryLevel_some, entryLevel_some, Bucket.levelAt, Bucket.levelAt,
        ← Meter.levelAt_levelAt hmark hle]
      exact Meter.levelAt_of_mark_le _ hle

end TrilliumRatelimit
