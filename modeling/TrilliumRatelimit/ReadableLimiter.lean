import TrilliumRatelimit.DurationRange
import TrilliumRatelimit.LimiterStack

/-!
# Limiters whose lines can be read

A limiter whose count divides the nanoseconds of its window only ever meets
levels that are whole nanoseconds away from full, whatever the clock reads.
Its waits are then not rounded, and if their seconds have few digits and its
name is printable, each `RateLimit` line it writes is read back as it was
meant: with the tokens that remain, and with seconds after which the bucket is
full.
-/

namespace TrilliumRatelimit

open StructuredField CappedLevel

/-- The rate refills what is missing in whole nanoseconds. -/
def Quota.WholeWait (quota : Quota) (level : ℚ) : Prop :=
  ∃ nanos : ℤ, quota.nanosFor (quota.cap - level) = nanos

section

variable {quota : Quota}

theorem Quota.wholeWait_cap (quota : Quota) : quota.WholeWait quota.cap :=
  ⟨0, by simp [Quota.nanosFor]⟩

/-- Refilling takes whole nanoseconds off the wait. -/
theorem Bucket.wholeWait_levelAt (hcount : quota.count ≠ 0)
    (hwindow : quota.window.nanos ≠ 0) {bucket : Bucket}
    (h : quota.WholeWait bucket.tokens) (now : Instant) :
    quota.WholeWait (bucket.levelAt quota now) := by
  have hcountPos : (0 : ℚ) < quota.count.toNat := by
    exact_mod_cast Quota.count_pos hcount
  have hwindowPos : (0 : ℚ) < quota.window.nanos := by
    exact_mod_cast Nat.pos_of_ne_zero hwindow
  obtain ⟨nanos, hnanos⟩ := h
  change quota.WholeWait (min (bucket.tokens +
    max (quota.units now - quota.units bucket.lastUpdate) 0) quota.cap)
  rcases le_total (bucket.tokens +
      max (quota.units now - quota.units bucket.lastUpdate) 0)
      quota.cap with hle | hge
  · rw [min_eq_left hle]
    rcases le_total (quota.units now - quota.units bucket.lastUpdate) 0 with
      hback | hforth
    · rw [max_eq_right hback, add_zero]
      exact ⟨nanos, hnanos⟩
    · refine ⟨nanos - (now.nanos - bucket.lastUpdate.nanos), ?_⟩
      rw [max_eq_left hforth, Quota.units_sub]
      push_cast
      rw [← hnanos, Quota.nanosFor, Quota.nanosFor]
      field_simp
      ring
  · rw [min_eq_right hge]
    exact quota.wholeWait_cap

/-- A token takes whole nanoseconds. -/
theorem Quota.WholeWait.spend (hcount : quota.count ≠ 0)
    (hwhole : quota.count.toNat ∣ quota.window.nanos) {level : ℚ}
    (h : quota.WholeWait level) : quota.WholeWait (level - 1) := by
  have hcountPos : (0 : ℚ) < quota.count.toNat := by
    exact_mod_cast Quota.count_pos hcount
  obtain ⟨nanos, hnanos⟩ := h
  obtain ⟨step, hstep⟩ := hwhole
  refine ⟨nanos + step, ?_⟩
  have hwindow : (quota.window.nanos : ℚ) = quota.count.toNat * step := by
    exact_mod_cast hstep
  rw [Quota.nanosFor, hwindow] at hnanos ⊢
  push_cast
  rw [← hnanos]
  field_simp
  ring

end

/-- What makes every line readable and every wait exact. -/
structure RateLimiter.Readable {Request K : Type*}
    (limiter : RateLimiter Request K) : Prop where
  name : Printable limiter.policyName
  count : limiter.quota.count ≠ 0
  window : limiter.quota.window ≠ Duration.zero
  burst : limiter.quota.burst ≠ 0
  remaining : limiter.quota.burst ≤ 999999999999999
  whole : limiter.quota.count.toNat ∣ limiter.quota.window.nanos
  reset : limiter.quota.burst.toNat *
      (limiter.quota.window.nanos / limiter.quota.count.toNat) +
    limiter.jitter.nanos ≤ 999999999999999 * nanosPerSec

section

variable {Request K : Type*} {self : RateLimiter Request K}

theorem RateLimiter.Readable.nanosFor_cap (h : self.Readable) :
    self.quota.nanosFor self.quota.cap =
      (self.quota.burst.toNat *
        (self.quota.window.nanos / self.quota.count.toNat) : ℕ) := by
  have hcountPos : (0 : ℚ) < self.quota.count.toNat := by
    exact_mod_cast Quota.count_pos h.count
  obtain ⟨step, hstep⟩ := h.whole
  have hwindow : (self.quota.window.nanos : ℚ) =
      self.quota.count.toNat * step := by
    exact_mod_cast hstep
  rw [Quota.nanosFor, Quota.cap, hwindow, hstep,
    Nat.mul_div_cancel_left _ (Quota.count_pos h.count)]
  push_cast
  field_simp

/-- The seconds until the bucket is full are short, and exact but for being
rounded up. -/
theorem RateLimiter.Readable.exists_reset (h : self.Readable)
    (overflowChecks : Bool) {tokens : ℚ} (htokens : 0 ≤ tokens)
    (hcap : tokens ≤ self.quota.cap) (hwhole : self.quota.WholeWait tokens)
    (draw : UInt64) :
    ∃ reset, advertisedSecs overflowChecks (self.randomJitter draw)
        (self.quota.nanosFor (self.quota.cap - tokens)) = some reset ∧
      Short reset ∧
      self.quota.nanosFor (self.quota.cap - tokens) ≤
        (Duration.fromSecs reset).nanos := by
  obtain ⟨nanos, hnanos⟩ := hwhole
  have hnonneg := self.quota.nanosFor_nonneg (sub_nonneg.mpr hcap)
  have hbound := self.quota.nanosFor_mono (sub_le_self self.quota.cap htokens)
  rw [h.nanosFor_cap] at hbound
  rw [hnanos] at hnonneg hbound ⊢
  obtain ⟨wait, rfl⟩ := Int.eq_ofNat_of_zero_le
    (by exact_mod_cast hnonneg : (0 : ℤ) ≤ nanos)
  have hlong : wait ≤ self.quota.burst.toNat *
      (self.quota.window.nanos / self.quota.count.toNat) := by
    rwa [Int.cast_natCast, Nat.cast_le] at hbound
  have hjitter := (self.randomJitter_nanos_le_min draw).trans
    (min_le_left _ _)
  have hreset := h.reset
  have hnanos : nanosWithJitter (self.randomJitter draw) ((wait : ℤ) : ℚ) =
      wait + (self.randomJitter draw).nanos := by
    rw [nanosWithJitter, roundHalfEven_intCast, Int.toNat_natCast]
  have hshort : ShortWait overflowChecks (self.randomJitter draw)
      ((wait : ℤ) : ℚ) := by
    refine .inl ?_
    rw [hnanos]
    omega
  obtain ⟨reset, hsecs⟩ := Option.isSome_iff_exists.mp
    (advertisedSecs_isSome_iff.mpr hshort.representable)
  refine ⟨reset, hsecs, (advertisedSecs_short_iff hsecs).mpr hshort, ?_⟩
  have hceil := (advertisedSecs_eq_some_iff.mp hsecs).2
  rw [hnanos, if_pos (by unfold secsLimit nanosPerSec at *; omega)] at hceil
  have hle : wait ≤ (Duration.fromSecs reset).nanos := by
    rw [Duration.fromSecs_nanos, hceil]
    unfold nanosPerSec
    omega
  exact_mod_cast hle

end

/-- A limit tells whoever took a token how long the next one takes, if no
other is left. -/
def RateLimit.Tells (limit : RateLimit) (quota : Quota) (left : ℚ) : Prop :=
  left < 1 → limit.remaining = 0 ∧
    ∃ reset, limit.reset = some reset ∧ quota.retryWait left ≤ reset.nanos

section

variable {Request K : Type*} [DecidableEq K] {self : RateLimiter Request K}

theorem Store.consume_token {store : Store K} {key : K} {now : Instant}
    {decision : Decision}
    (hdecision : (store.consume key now 1).2 = some decision)
    (hone : 1 ≤ (store.found key now).levelAt store.quota now) :
    (store.consume key now 1).1 =
      ⟨store.quota, Function.update store.entries key
        (some ⟨⟨(store.found key now).levelAt store.quota now - 1, now⟩,
          now⟩)⟩ := by
  rcases store.consume_cases key now 1 with
    ⟨_, hpanic⟩ | ⟨next, outcome, hnext, hconsume⟩
  · simp [hpanic] at hdecision
  · have htokens := (store.found key now).tryConsume_one now store.quota
    rw [hnext, leftOf, if_pos hone] at htokens
    rw [hconsume]
    exact htokens ▸ rfl

/-- A request that finds a token takes it, and its line is read as the limit
that tells what is left. -/
theorem RateLimiter.Readable.serve_of_token (h : self.Readable)
    {accepts : Text → Bool} {encode : List UInt8 → Text}
    (hencode : Encodes accepts encode) (overflowChecks : Bool)
    {store : Store (Option K)}
    (hquota : store.quota = self.quota) {key : Option K} {now : Instant}
    {level : ℚ} (hlevel : level = (store.found key now).levelAt self.quota now)
    (hone : 1 ≤ level) (hwhole : self.quota.WholeWait level)
    (draw : UInt64) :
    ∃ answer,
      self.serve encode overflowChecks store key now draw =
        (⟨self.quota, Function.update store.entries key
          (some ⟨⟨level - 1, now⟩, now⟩)⟩, some answer) ∧
      answer.retryAfter = none ∧ answer.limit.Canonical accepts ∧
      answer.limit.Tells self.quota (level - 1) := by
  have hnanos := Duration.nanos_pos h.window
  have hcap : level ≤ self.quota.cap :=
    hlevel.le.trans (Meter.levelAt_le_cap _ _ _)
  have hleft : leftOf level = level - 1 := if_pos hone
  have hspent : level - 1 ≤ self.quota.cap := by linarith
  obtain ⟨reset, hreset, hshort, hwait⟩ := h.exists_reset overflowChecks
    (sub_nonneg.mpr hone) hspent (hwhole.spend h.count h.whole) draw
  have hanswer : (self.serve encode overflowChecks store key now
      draw).2 = some (self.advertise (self.pk encode key)
        (saturateU64 ⌊leftOf level⌋) reset none) := by
    rw [RateLimiter.serve_eq_some_iff hnanos.ne' hquota hlevel]
    exact ⟨reset, none, by rw [Quota.fullWait, hleft, hreset],
      by rw [if_pos hone], rfl⟩
  obtain ⟨decision, hdecision⟩ := RateLimiter.decision_of_serve hanswer
  have hstore : (self.serve encode overflowChecks store key now
      draw).1 = ⟨self.quota, Function.update store.entries key
        (some ⟨⟨level - 1, now⟩, now⟩)⟩ := by
    rw [hlevel, ← hquota] at hone ⊢
    exact Store.consume_token hdecision hone
  refine ⟨_, Prod.ext hstore hanswer, rfl, ?_, ?_⟩
  · rw [RateLimiter.advertise_limit]
    refine ⟨h.name, ?_, ?_, self.isPartitionKey_pk hencode key⟩
    · rintro _ ⟨⟩
      exact Quota.short_remaining h.remaining hcap
    · rintro _ ⟨⟩
      exact ⟨reset, rfl, hshort⟩
  · intro hlt
    rw [RateLimiter.advertise_limit, hleft]
    refine ⟨?_, Duration.fromSecs reset, rfl, ?_⟩
    · rw [Int.floor_eq_zero_iff.mpr ⟨sub_nonneg.mpr hone, hlt⟩]
      rfl
    · refine le_trans (self.quota.nanosFor_mono ?_) hwait
      linarith [self.quota.one_le_cap h.burst]

end

end TrilliumRatelimit
