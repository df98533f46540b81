import TrilliumRatelimit.ArrivalCurve
import TrilliumRatelimit.CapacityEviction
import TrilliumRatelimit.DurationRange

/-!
# Bounded traffic passes a limiter

A call of the store reads the clock first and gets the lock of its key later,
so the bucket may meet readings out of order.  A reading that comes too late
refills nothing, but the time it did not refill is refilled by the next.  The
bucket is therefore never behind a meter that sees the latest reading so far
in the place of each, and never behind one that no eviction or expiry has
filled up.

Traffic that fits the burst and the rate of the quota passes that meter, and
so the limiter.
-/

namespace TrilliumRatelimit

open ArrivalCurve CappedLevel StructuredField

/-! ## What happens at a limiter -/

/-- A request gets the lock of its bucket at `locked`, and the cache goes by
that time; it may drop a bucket at any other. -/
inductive LimiterEvent (Request K : Type*) where
  | request (arrival : Arrival Request) (locked : Instant)
  | evict (key : Option K)

structure Served (Request : Type*) where
  arrival : Arrival Request
  response : Option (Conn Request)

/-- Where in time a request was decided: between reading the clock and having
the lock. -/
structure Stay where
  arrived : Instant
  locked : Instant
  deriving DecidableEq

section

variable {Request K : Type*} [DecidableEq K]

def RateLimiter.serveAll (self : RateLimiter Request K)
    (encode : List UInt8 → Text) (overflowChecks : Bool) :
    Store (Option K) → List (LimiterEvent Request K) → List (Served Request)
  | _, [] => []
  | store, .evict key :: rest =>
      self.serveAll encode overflowChecks (store.evict key) rest
  | store, .request arrival locked :: rest =>
      let (next, response) := self.runAt encode overflowChecks store
        arrival.conn arrival.now locked arrival.draw
      ⟨arrival, response⟩ ::
        self.serveAll encode overflowChecks next rest

/-- The requests of one partition, in the order they got its lock. -/
def RateLimiter.stays (self : RateLimiter Request K) (key : Option K) :
    List (LimiterEvent Request K) → List Stay
  | [] => []
  | .evict _ :: rest => self.stays key rest
  | .request arrival locked :: rest =>
      if self.sharesPartition key arrival
      then ⟨arrival.now, locked⟩ :: self.stays key rest
      else self.stays key rest

/-- There is a response, and it is no rejection. -/
def Served.Passed (served : Served Request) : Prop :=
  ∃ response, served.response = some response ∧
    response.status = served.arrival.conn.status ∧
      response.halted = served.arrival.conn.halted ∧
      response.retryAfter = served.arrival.conn.retryAfter

end

/-- The lock is held by one request after another, and each read the clock
before it. -/
structure InLockOrder (stays : List Stay) : Prop where
  sorted : stays.Pairwise fun a b => a.locked ≤ b.locked
  arrived : ∀ stay ∈ stays, stay.arrived ≤ stay.locked

/-! ## The latest reading so far -/

def latest : Instant → List Stay → List Instant
  | _, [] => []
  | last, stay :: rest =>
      max last stay.arrived :: latest (max last stay.arrived) rest

def Stay.Contains (stay : Stay) (time : Instant) : Prop :=
  stay.arrived ≤ time ∧ time ≤ stay.locked

theorem le_of_mem_latest {last time : Instant} {stays : List Stay}
    (h : time ∈ latest last stays) : last ≤ time := by
  induction stays generalizing last with
  | nil => simp [latest] at h
  | cons stay rest ih =>
      rcases List.mem_cons.mp h with rfl | hrest
      · exact le_max_left _ _
      · exact (le_max_left _ _).trans (ih hrest)

theorem latest_sorted (last : Instant) (stays : List Stay) :
    (latest last stays).Pairwise (· ≤ ·) := by
  induction stays generalizing last with
  | nil => exact List.Pairwise.nil
  | cons stay rest ih =>
      exact List.pairwise_cons.mpr ⟨fun _ => le_of_mem_latest, ih _⟩

/-- No reading is later than the lock it was read before. -/
theorem InLockOrder.latest {last : Instant} {stays : List Stay}
    (h : InLockOrder stays) (hlast : ∀ stay ∈ stays, last ≤ stay.locked) :
    List.Forall₂ Stay.Contains stays (latest last stays) := by
  induction stays generalizing last with
  | nil => exact List.Forall₂.nil
  | cons stay rest ih =>
      obtain ⟨hsorted, harrived⟩ := h
      obtain ⟨hlater, hsorted⟩ := List.pairwise_cons.mp hsorted
      obtain ⟨hfirst, harrived⟩ := List.forall_mem_cons.mp harrived
      obtain ⟨hlock, _⟩ := List.forall_mem_cons.mp hlast
      have hmax : max last stay.arrived ≤ stay.locked := max_le hlock hfirst
      exact .cons ⟨le_max_right _ _, hmax⟩ (ih ⟨hsorted, harrived⟩
        fun other hmem => hmax.trans (hlater other hmem))

/-! ## Never behind -/

section

variable {K : Type*} [DecidableEq K] {quota : Quota} {store : Store K}
  {key : K} {meter : Meter ℚ}

/-- A stored bucket holds at least what the meter does, and was brought up to
date no later. -/
structure Store.Ahead (quota : Quota) (store : Store K) (key : K)
    (meter : Meter ℚ) : Prop where
  quota_eq : store.quota = quota
  bucket : ∀ {entry}, store.entries key = some entry →
    meter.level ≤ entry.bucket.tokens ∧
      quota.units entry.bucket.lastUpdate ≤ meter.mark

omit [DecidableEq K] in
theorem Store.Ahead.of_agreesOn {other : Store K}
    (h : store.Ahead quota key meter) (hagrees : other.AgreesOn store key) :
    other.Ahead quota key meter where
  quota_eq := hagrees.quota_eq.trans h.quota_eq
  bucket := by
    intro entry hentry
    rw [hagrees.entry_eq] at hentry
    exact h.bucket hentry

theorem Store.Ahead.evict (h : store.Ahead quota key meter) (other : K) :
    (store.evict other).Ahead quota key meter where
  quota_eq := h.quota_eq
  bucket := by
    intro entry hentry
    exact h.bucket (Store.evict_entry hentry)

omit [DecidableEq K] in
theorem Store.Ahead.levelAt_le (h : store.Ahead quota key meter)
    {last : Instant} (hmark : meter.mark = quota.units last)
    (now locked : Instant) :
    meter.levelAt quota.cap (quota.units (max last now)) ≤
      (store.foundAt key now locked).levelAt quota now := by
  have hcap := meter.levelAt_le_cap quota.cap (quota.units (max last now))
  have hfull : meter.levelAt quota.cap (quota.units (max last now)) ≤
      (Bucket.new now store.quota).levelAt quota now := by
    rw [h.quota_eq, Bucket.new_levelAt]
    exact hcap
  unfold Store.foundAt Store.lookup
  cases hentry : store.entries key with
  | none => exact hfull
  | some entry =>
      simp only
      split
      · exact hfull
      · obtain ⟨htokens, hupdate⟩ := h.bucket hentry
        have hgain : max (quota.units (max last now) - meter.mark) 0 ≤
            max (quota.units now - quota.units entry.bucket.lastUpdate) 0 := by
          rw [quota.units_mono.map_max, hmark]
          rcases le_total (quota.units now) (quota.units last) with hle | hge
          · rw [max_eq_left hle, sub_self, max_self]
            exact le_max_right _ _
          · rw [max_eq_right hge]
            exact max_le_max (by linarith) le_rfl
        exact min_le_min_right _ (add_le_add htokens hgain)

/-- A request the meter covers leaves the bucket ahead. -/
theorem Store.Ahead.consumeAt (h : store.Ahead quota key meter)
    {last : Instant} (hmark : meter.mark = quota.units last)
    {now locked : Instant}
    (hcovered : 1 ≤ meter.levelAt quota.cap (quota.units (max last now)))
    {decision : Decision}
    (hdecision : (store.consumeAt key now locked 1).2 = some decision) :
    (store.consumeAt key now locked 1).1.Ahead quota key
      (meter.spend quota.cap (quota.units (max last now)) 1) := by
  have hlevel := h.levelAt_le hmark now locked
  have hone : ((1 : UInt64).toNat : ℚ) ≤
      (store.foundAt key now locked).levelAt quota now := by
    rw [UInt64.toNat_one, Nat.cast_one]
    exact hcovered.trans hlevel
  have hstep := Bucket.tryConsume_eq (store.foundAt key now locked) now quota 1
  rw [Store.consumeAt_decision, h.quota_eq] at hdecision
  rw [hdecision, if_pos hone, ← h.quota_eq] at hstep
  rw [Store.consumeAt_of_tryConsume hstep]
  refine ⟨h.quota_eq, ?_⟩
  intro entry hentry
  simp only [Function.update_self, Option.some.injEq] at hentry
  subst hentry
  rw [Meter.spend_of_le hcovered, UInt64.toNat_one, Nat.cast_one, h.quota_eq]
  exact ⟨sub_le_sub_right hlevel 1, quota.units_mono (le_max_right last now)⟩

end

/-! ## Through the limiter -/

section

variable {Request K : Type*} [DecidableEq K] {encode : List UInt8 → Text}
  {overflowChecks : Bool} {self : RateLimiter Request K} {key : Option K}

/-- A decision that allows leaves the request as it came, but for its lines. -/
theorem RateLimiter.passed_of_allowed {conn : Conn Request}
    (hkey : self.metering conn = .metered key) {store : Store (Option K)}
    {now locked : Instant} {draw : UInt64} {decision : Decision}
    (hdecision : (store.consumeAt key now locked 1).2 = some decision)
    (hallowed : decision.allowed = true) {response : Conn Request}
    (hresponse : (self.runAt encode overflowChecks store conn now locked
      draw).2 = some response) :
    response.status = conn.status ∧ response.halted = conn.halted ∧
      response.retryAfter = conn.retryAfter := by
  rw [RateLimiter.runAt_of_metered hkey, hdecision, Option.bind_some]
    at hresponse
  obtain ⟨answer, hanswer, rfl⟩ := Option.map_eq_some_iff.mp hresponse
  simp only [RateLimiter.answer, hallowed, if_true, Option.bind_eq_bind,
    Option.bind_some, Option.bind_eq_some_iff, Option.pure_def,
    Option.some.injEq] at hanswer
  obtain ⟨reset, _, rfl⟩ := hanswer
  exact ⟨rfl, rfl, rfl⟩

section

variable (hcount : self.quota.count ≠ 0)
  (hwindow : self.quota.window.nanos ≠ 0) (henvelope : self.WithinEnvelope)

include hcount hwindow henvelope

/-- A request that finds a token passes, where the waits are in range. -/
theorem RateLimiter.passed_of_level {arrival : Arrival Request}
    (hkey : self.metering arrival.conn = .metered key)
    {store : Store (Option K)} (hquota : store.quota = self.quota)
    {locked : Instant}
    (hlevel : 1 ≤ (store.foundAt key arrival.now locked).levelAt self.quota
      arrival.now) :
    (∃ decision,
        (store.consumeAt key arrival.now locked 1).2 = some decision) ∧
      (⟨arrival, (self.runAt encode overflowChecks store arrival.conn
        arrival.now locked arrival.draw).2⟩ : Served Request).Passed := by
  have hone : ((1 : UInt64).toNat : ℚ) ≤
      (store.foundAt key arrival.now locked).levelAt self.quota
        arrival.now := by
    simpa using hlevel
  have hneeded : self.quota.cap -
      ((store.foundAt key arrival.now locked).levelAt self.quota arrival.now -
        (1 : UInt64).toNat) ≤ max self.quota.cap 1 :=
    (sub_le_self _ (sub_nonneg.mpr hone)).trans (le_max_left _ _)
  obtain ⟨wait, hwait, hfits⟩ :=
    henvelope.refill_fits hcount hwindow hneeded arrival.draw
  obtain ⟨decision, hdecision, hallowed, hfull, hnone⟩ :
      ∃ decision, (store.consumeAt key arrival.now locked 1).2 =
          some decision ∧ decision.allowed = true ∧
        decision.timeToFull = wait ∧ decision.retryAfter = none := by
    rw [store.consumeAt_decision, hquota, Quota.decisionAt_of_le hone hwait]
    exact ⟨_, rfl, rfl, rfl, rfl⟩
  refine ⟨⟨decision, hdecision⟩, ?_⟩
  obtain ⟨answer, hanswer⟩ := RateLimiter.answer_of_fits (hfull ▸ hfits)
    (fun retry hretry => by simp [hnone] at hretry) (self.pk encode key)
  have hresponse : (self.runAt encode overflowChecks store arrival.conn
      arrival.now locked arrival.draw).2 =
        some (self.respond arrival.conn answer) := by
    rw [RateLimiter.runAt_of_metered hkey, hdecision, Option.bind_some,
      hanswer overflowChecks, Option.map_some]
  exact ⟨_, hresponse,
    RateLimiter.passed_of_allowed hkey hdecision hallowed hresponse⟩

end

theorem RateLimiter.runAt_agreesOn {arrival : Arrival Request}
    (hshares : ¬ self.sharesPartition key arrival = true)
    (store : Store (Option K)) (locked : Instant) :
    (self.runAt encode overflowChecks store arrival.conn arrival.now locked
      arrival.draw).1.AgreesOn store key := by
  by_cases hmetered : ∃ found, self.metering arrival.conn = .metered found
  · obtain ⟨found, hfound⟩ := hmetered
    have hne : found ≠ key := by
      rintro rfl
      simp [RateLimiter.sharesPartition, hfound] at hshares
    rw [RateLimiter.runAt_of_metered hfound]
    exact store.consumeAt_agreesOn_of_ne hne arrival.now locked 1
  · rw [not_exists] at hmetered
    rw [RateLimiter.runAt_store_of_not_metered hmetered]
    exact Store.AgreesOn.refl store key

theorem RateLimiter.passed_of_meter (hcount : self.quota.count ≠ 0)
    (hwindow : self.quota.window.nanos ≠ 0) (henvelope : self.WithinEnvelope)
    {store : Store (Option K)} {meter : Meter ℚ} {last : Instant}
    (hahead : store.Ahead self.quota key meter)
    (hmark : meter.mark = self.quota.units last)
    {events : List (LimiterEvent Request K)}
    (hallowed : ∀ attempt ∈ CappedLevel.run self.quota.cap meter
      ((latest last (self.stays key events)).map fun time =>
        (self.quota.units time, 1)), attempt.allowed = true) :
    ∀ served ∈ self.serveAll encode overflowChecks store events,
      self.sharesPartition key served.arrival = true → served.Passed := by
  induction events generalizing store meter last with
  | nil => simp [RateLimiter.serveAll]
  | cons event rest ih =>
      cases event with
      | evict other => exact ih (hahead.evict other) hmark hallowed
      | request arrival locked =>
          rw [RateLimiter.serveAll, List.forall_mem_cons]
          by_cases hshares : self.sharesPartition key arrival = true
          · have hkey : self.metering arrival.conn = .metered key := by
              simpa [RateLimiter.sharesPartition] using hshares
            simp only [RateLimiter.stays, hshares, if_true, latest,
              List.map_cons, CappedLevel.run, List.forall_mem_cons,
              decide_eq_true_eq] at hallowed
            obtain ⟨hcovered, hallowed⟩ := hallowed
            obtain ⟨⟨decision, hdecision⟩, hpassed⟩ :=
              RateLimiter.passed_of_level hcount hwindow henvelope hkey
                hahead.quota_eq (hcovered.trans
                  (hahead.levelAt_le hmark arrival.now locked))
            refine ⟨fun _ => hpassed, ?_⟩
            rw [RateLimiter.runAt_of_metered hkey]
            exact ih (hahead.consumeAt hmark hcovered hdecision)
              (Meter.spend_mark _ _ _ _) hallowed
          · simp only [RateLimiter.stays, hshares] at hallowed
            refine ⟨fun h => absurd h hshares, ih ?_ hmark hallowed⟩
            exact hahead.of_agreesOn
              (RateLimiter.runAt_agreesOn hshares store locked)

theorem RateLimiter.not_shares_of_stays {store : Store (Option K)}
    {events : List (LimiterEvent Request K)}
    (hnone : self.stays key events = []) {served : Served Request}
    (hmem : served ∈ self.serveAll encode overflowChecks store events) :
    ¬ self.sharesPartition key served.arrival = true := by
  induction events generalizing store with
  | nil => simp [RateLimiter.serveAll] at hmem
  | cons event rest ih =>
      cases event with
      | evict other => exact ih hnone hmem
      | request arrival locked =>
          by_cases hshares : self.sharesPartition key arrival = true
          · simp [RateLimiter.stays, hshares] at hnone
          · simp only [RateLimiter.stays, hshares] at hnone
            rw [RateLimiter.serveAll, List.mem_cons] at hmem
            rcases hmem with rfl | hmem
            · exact hshares
            · exact ih hnone hmem

/-- The requests of a partition as a stream in nanoseconds. -/
def arrivalStream (times : List Instant) : List (ℚ × ℚ) :=
  times.map fun time => ((time.nanos : ℚ), 1)

theorem Quota.bounded_units_iff {quota : Quota} (hcount : quota.count ≠ 0)
    (hwindow : quota.window ≠ Duration.zero) (times : List Instant) :
    Bounded quota.cap 1 (times.map fun time => (quota.units time, 1)) ↔
      Bounded quota.cap (quota.count.toNat / quota.window.nanos)
        (arrivalStream times) := by
  have hcountPos : (0 : ℚ) < quota.count.toNat := by
    exact_mod_cast Quota.count_pos hcount
  have hwindowPos : (0 : ℚ) < quota.window.nanos := by
    exact_mod_cast Duration.nanos_pos hwindow
  have hunit : (0 : ℚ) < quota.count.toNat / quota.window.nanos :=
    div_pos hcountPos hwindowPos
  have hstream : (times.map fun time => (quota.units time, (1 : ℚ))) =
      (arrivalStream times).map
        (rescale ((quota.count.toNat : ℚ) / quota.window.nanos)) := by
    rw [arrivalStream, List.map_map]
    apply List.map_congr_left
    intro time _
    simp only [Function.comp_apply, rescale, Quota.units, mul_div_assoc]
  rw [hstream, bounded_rescale_iff hunit, one_mul]

/-- Whatever traffic fits the quota passes, with evictions, expiry and
requests of other partitions in between. -/
theorem RateLimiter.passed_of_bounded (hcount : self.quota.count ≠ 0)
    (hwindow : self.quota.window ≠ Duration.zero)
    (henvelope : self.WithinEnvelope)
    {events : List (LimiterEvent Request K)}
    (hbounded : Bounded self.quota.cap
      (self.quota.count.toNat / self.quota.window.nanos)
      (arrivalStream (latest Instant.earliest (self.stays key events)))) :
    ∀ served ∈ self.serveAll encode overflowChecks
        (Store.new (Option K) self.quota) events,
      self.sharesPartition key served.arrival = true → served.Passed := by
  have hahead : (Store.new (Option K) self.quota).Ahead self.quota key
      ⟨self.quota.cap, self.quota.units Instant.earliest⟩ :=
    ⟨rfl, by simp [Store.new]⟩
  rw [← Quota.bounded_units_iff hcount hwindow] at hbounded
  apply RateLimiter.passed_of_meter hcount (Duration.nanos_pos hwindow).ne'
    henvelope hahead rfl
  apply allowed_of_bounded hbounded
  · simp only [List.forall_mem_map]
    exact fun time _ => self.quota.units_mono time.earliest_le
  · rw [List.pairwise_map]
    exact (latest_sorted _ _).imp fun hle => self.quota.units_mono hle
  · simp

end

end TrilliumRatelimit
