import TrilliumRatelimit.CappedLevel
import TrilliumRatelimit.Clock

/-!
# Quotas and token buckets

The public quota type and the limiter's core algorithm, `Bucket::try_consume`.
A bucket is a meter of `CappedLevel` whose clock is counted in tokens: the
instant `t` reads `t * count / window`, so elapsed time and refilled tokens are
the same number.  Every later fact about buckets goes through that reading.

Division by a zero window is `0` here, while the source gets an infinite rate;
results are meant for nonzero windows only.
-/

namespace TrilliumRatelimit

open CappedLevel

@[ext] structure Quota where
  count : UInt64
  window : Duration
  burst : UInt64
  deriving DecidableEq

/-- The burst defaults to the count. -/
def Quota.per (count : UInt64) (window : Duration) : Quota :=
  ⟨count, window, count⟩

def Quota.perSecond (count : UInt64) : Quota :=
  Quota.per count (Duration.fromSecs 1)

def Quota.perMinute (count : UInt64) : Quota :=
  Quota.per count (Duration.fromSecs 60)

def Quota.perHour (count : UInt64) : Quota :=
  Quota.per count (Duration.fromSecs (60 * 60))

def Quota.allowBurst (quota : Quota) (burst : UInt64) : Quota :=
  { quota with burst := burst }

/-- The burst capacity as a token level. -/
def Quota.cap (quota : Quota) : ℚ := quota.burst.toNat

/-- The burst plus what the sustained rate allows in an interval. -/
def intervalBudget (quota : Quota) (start finish : Instant) : ℚ :=
  quota.burst.toNat +
    ((finish.nanos - start.nanos : ℤ) : ℚ) * quota.count.toNat /
      quota.window.nanos

structure Bucket where
  tokens : ℚ
  lastUpdate : Instant
  deriving DecidableEq

structure Decision where
  allowed : Bool
  remaining : UInt64
  timeToFull : Duration
  retryAfter : Option Duration
  deriving DecidableEq

def Bucket.new (now : Instant) (quota : Quota) : Bucket where
  tokens := quota.burst.toNat
  lastUpdate := now

def refillPerSecond (quota : Quota) : ℚ :=
  quota.count.toNat / quota.window.asSecsF64

def secondsToRefill (tokensNeeded rate : ℚ) : Option Duration :=
  if tokensNeeded ≤ 0 ∨ rate ≤ 0 then some Duration.zero
  else Duration.fromSecsF64 (tokensNeeded / rate)

/-- The saturating cast `x as u64` of a float without fraction. -/
def saturateU64 (x : ℤ) : UInt64 := UInt64.ofNat (min x.toNat (2 ^ 64 - 1))

/-- The updated bucket, and the decision unless a duration in it overflows:
`none` is that panic.  The bucket is updated before the durations are
computed. -/
def Bucket.tryConsume (self : Bucket) (now : Instant) (quota : Quota)
    (cost : UInt64) : Bucket × Option Decision :=
  let rate := refillPerSecond quota
  let burst : ℚ := quota.burst.toNat
  let elapsed := (now.saturatingDurationSince self.lastUpdate).asSecsF64
  let tokens := min (self.tokens + elapsed * rate) burst
  let cost : ℚ := cost.toNat
  let allowed := decide (cost ≤ tokens)
  let tokens := if allowed then tokens - cost else tokens
  (⟨tokens, now⟩, do
    let retryAfter ←
      if allowed then some none
      else (secondsToRefill (cost - tokens) rate).map some
    let timeToFull ← secondsToRefill (burst - tokens) rate
    return {
      allowed := allowed
      remaining := saturateU64 ⌊tokens⌋
      timeToFull := timeToFull
      retryAfter := retryAfter })

/-! ## Waiting times -/

/-- Nanoseconds the sustained rate needs for this many tokens. -/
def Quota.nanosFor (quota : Quota) (tokens : ℚ) : ℚ :=
  tokens * quota.window.nanos / quota.count.toNat

theorem Quota.count_pos {quota : Quota} (hcount : quota.count ≠ 0) :
    0 < quota.count.toNat :=
  Nat.pos_of_ne_zero fun h => hcount (UInt64.toNat_inj.mp (by simpa using h))

theorem refillPerSecond_pos {quota : Quota} (hcount : quota.count ≠ 0)
    (hwindow : quota.window.nanos ≠ 0) : 0 < refillPerSecond quota := by
  have hcountPos : (0 : ℚ) < quota.count.toNat := by
    exact_mod_cast Quota.count_pos hcount
  have hwindowPos : (0 : ℚ) < quota.window.nanos := by
    exact_mod_cast Nat.pos_of_ne_zero hwindow
  unfold refillPerSecond Duration.asSecsF64
  have hnanos := nanosPerSec_pos
  positivity

/-- The argument of `from_secs_f64` in `seconds_to_refill`. -/
theorem div_refillPerSecond (quota : Quota) (tokens : ℚ) :
    tokens / refillPerSecond quota =
      quota.nanosFor tokens / nanosPerSec := by
  have hnanos := nanosPerSec_pos.ne'
  unfold Quota.nanosFor refillPerSecond Duration.asSecsF64
  rw [div_div_eq_mul_div]
  field_simp

theorem secondsToRefill_of_nonpos {tokens : ℚ} (htokens : tokens ≤ 0)
    (rate : ℚ) : secondsToRefill tokens rate = some Duration.zero := by
  rw [secondsToRefill, if_pos (Or.inl htokens)]

theorem secondsToRefill_of_pos {quota : Quota} (hcount : quota.count ≠ 0)
    (hwindow : quota.window.nanos ≠ 0) {tokens : ℚ} (htokens : 0 < tokens) :
    secondsToRefill tokens (refillPerSecond quota) =
      Duration.ofNanos? (roundHalfEven (quota.nanosFor tokens)).toNat := by
  have hrate := refillPerSecond_pos hcount hwindow
  have hnonneg : 0 ≤ quota.nanosFor tokens := by
    unfold Quota.nanosFor
    positivity
  rw [secondsToRefill, if_neg (not_or.mpr ⟨htokens.not_ge, hrate.not_ge⟩),
    div_refillPerSecond, Duration.fromSecsF64_div_nanosPerSec hnonneg]

theorem secondsToRefill_isSome {quota : Quota} (hcount : quota.count ≠ 0)
    (hwindow : quota.window.nanos ≠ 0) {tokens : ℚ}
    (hrange : quota.nanosFor tokens ≤ (durationLimit - 1 : ℕ)) :
    (secondsToRefill tokens (refillPerSecond quota)).isSome := by
  by_cases htokens : 0 < tokens
  · rw [secondsToRefill_of_pos hcount hwindow htokens,
      Duration.ofNanos?_isSome_iff]
    have hround := roundHalfEven_mono hrange
    rw [roundHalfEven_natCast] at hround
    have hlimit : 0 < durationLimit := by decide
    omega
  · rw [secondsToRefill_of_nonpos (not_lt.mp htokens)]
    rfl

theorem secondsToRefill_isSome_mono {less tokens rate : ℚ}
    (hle : less ≤ tokens) (h : (secondsToRefill tokens rate).isSome) :
    (secondsToRefill less rate).isSome := by
  unfold secondsToRefill at h ⊢
  by_cases hzero : less ≤ 0 ∨ rate ≤ 0
  · rw [if_pos hzero]
    rfl
  · obtain ⟨hless, hrate⟩ := not_or.mp hzero
    rw [not_le] at hless hrate
    rw [if_neg hzero]
    rw [if_neg (by
      rw [not_or, not_le, not_le]
      exact ⟨hless.trans_le hle, hrate⟩)] at h
    exact Duration.fromSecsF64_isSome_mono (by positivity)
      (by gcongr) h

theorem Quota.nanosFor_nonneg (quota : Quota) {tokens : ℚ}
    (htokens : 0 ≤ tokens) : 0 ≤ quota.nanosFor tokens := by
  unfold Quota.nanosFor
  positivity

theorem Quota.nanosFor_mono (quota : Quota) : Monotone quota.nanosFor := by
  intro tokens more hle
  unfold Quota.nanosFor
  gcongr

/-- Also without any refill: then both sides are zero. -/
theorem secondsToRefill_eq {quota : Quota} (hwindow : quota.window.nanos ≠ 0)
    {tokens : ℚ} (htokens : 0 ≤ tokens) :
    secondsToRefill tokens (refillPerSecond quota) =
      Duration.ofNanos? (roundHalfEven (quota.nanosFor tokens)).toNat := by
  have hzero : some Duration.zero =
      Duration.ofNanos? (roundHalfEven 0).toNat := by
    have hround : roundHalfEven 0 = 0 := by
      exact_mod_cast roundHalfEven_natCast 0
    rw [hround]
    rfl
  by_cases hcount : quota.count = 0
  · have hrate : refillPerSecond quota = 0 := by
      simp [refillPerSecond, hcount]
    have hnanos : quota.nanosFor tokens = 0 := by
      simp [Quota.nanosFor, hcount]
    rw [secondsToRefill, hrate, if_pos (.inr le_rfl), hnanos, hzero]
  · rcases htokens.eq_or_lt with heq | hpos
    · rw [← heq, secondsToRefill_of_nonpos le_rfl, hzero]
      simp [Quota.nanosFor]
    · exact secondsToRefill_of_pos hcount hwindow hpos

/-- The wait for this many tokens is a `Duration`. -/
def Quota.WaitFits (quota : Quota) (tokens : ℚ) : Prop :=
  (roundHalfEven (quota.nanosFor tokens)).toNat < durationLimit

instance (quota : Quota) (tokens : ℚ) : Decidable (quota.WaitFits tokens) :=
  inferInstanceAs (Decidable (_ < _))

theorem secondsToRefill_isSome_iff {quota : Quota}
    (hwindow : quota.window.nanos ≠ 0) {tokens : ℚ} (htokens : 0 ≤ tokens) :
    (secondsToRefill tokens (refillPerSecond quota)).isSome ↔
      quota.WaitFits tokens := by
  rw [secondsToRefill_eq hwindow htokens, Duration.ofNanos?_isSome_iff]
  rfl

theorem Quota.WaitFits.mono {quota : Quota} {less tokens : ℚ}
    (hle : less ≤ tokens)
    (h : quota.WaitFits tokens) : quota.WaitFits less := by
  have hround := roundHalfEven_mono (quota.nanosFor_mono hle)
  unfold Quota.WaitFits at h ⊢
  omega

/-! ## The bucket as a meter -/

/-- An instant counted in tokens of the quota's sustained rate. -/
def Quota.units (quota : Quota) (t : Instant) : ℚ :=
  t.nanos * quota.count.toNat / quota.window.nanos

def Bucket.toMeter (quota : Quota) (bucket : Bucket) : Meter ℚ :=
  ⟨bucket.tokens, quota.units bucket.lastUpdate⟩

/-- The refilled token level at an instant. -/
def Bucket.levelAt (quota : Quota) (bucket : Bucket) (now : Instant) : ℚ :=
  (bucket.toMeter quota).levelAt quota.cap (quota.units now)

/-- The local `allowed` of `try_consume`. -/
def Bucket.allows (quota : Quota) (bucket : Bucket) (now : Instant)
    (cost : UInt64) : Bool :=
  decide ((cost.toNat : ℚ) ≤ bucket.levelAt quota now)

/-- Everything in a decision, computed from the refilled level. -/
def Quota.decisionAt (quota : Quota) (level : ℚ) (cost : UInt64) :
    Option Decision := do
  let allowed := decide ((cost.toNat : ℚ) ≤ level)
  let tokens := if allowed then level - cost.toNat else level
  let retryAfter ←
    if allowed then some none
    else (secondsToRefill (cost.toNat - tokens) (refillPerSecond quota)).map some
  let timeToFull ← secondsToRefill (quota.cap - tokens) (refillPerSecond quota)
  return ⟨allowed, saturateU64 ⌊tokens⌋, timeToFull, retryAfter⟩

theorem Quota.cap_nonneg (quota : Quota) : 0 ≤ quota.cap :=
  Nat.cast_nonneg _

theorem Quota.one_le_cap (quota : Quota) (hburst : quota.burst ≠ 0) :
    1 ≤ quota.cap := by
  have hpos : quota.burst.toNat ≠ 0 := fun h =>
    hburst (UInt64.toNat_inj.mp (by simpa using h))
  rw [Quota.cap]
  exact_mod_cast Nat.one_le_iff_ne_zero.mpr hpos

theorem saturateU64_toNat {x : ℤ} (hx : x < 2 ^ 64) :
    (saturateU64 x).toNat = x.toNat := by
  rw [saturateU64, min_eq_left (by omega)]
  exact UInt64.toNat_ofNat_of_lt' (by simpa using by omega)

@[simp] theorem Quota.floor_cap (quota : Quota) :
    ⌊quota.cap⌋₊ = quota.burst.toNat :=
  Nat.floor_natCast _

/-- No level of a bucket saturates. -/
theorem saturateU64_floor {quota : Quota} {level : ℚ}
    (hcap : level ≤ quota.cap) : (saturateU64 ⌊level⌋).toNat = ⌊level⌋₊ := by
  have hlimit := quota.burst.toNat_lt
  have hfloor := Nat.floor_mono hcap
  rw [Quota.floor_cap, ← Int.floor_toNat] at hfloor
  rw [saturateU64_toNat (by omega), Int.floor_toNat]

theorem saturateU64_cap (quota : Quota) :
    saturateU64 ⌊quota.cap⌋ = quota.burst := by
  rw [← UInt64.toNat_inj, saturateU64_floor le_rfl, Quota.floor_cap]

theorem Quota.unitsPerNano_nonneg (quota : Quota) :
    (0 : ℚ) ≤ quota.count.toNat / quota.window.nanos := by positivity

theorem Quota.units_sub (quota : Quota) (a b : Instant) :
    quota.units a - quota.units b =
      ((a.nanos - b.nanos : ℤ) : ℚ) * quota.count.toNat /
        quota.window.nanos := by
  unfold Quota.units
  push_cast
  ring

theorem Quota.units_mono (quota : Quota) : Monotone quota.units := by
  intro a b hab
  rw [← sub_nonneg, Quota.units_sub, mul_div_assoc]
  have hnanos : (0 : ℚ) ≤ ((b.nanos - a.nanos : ℤ) : ℚ) := by
    exact_mod_cast sub_nonneg.mpr ((Instant.le_def a b).mp hab)
  exact mul_nonneg hnanos quota.unitsPerNano_nonneg

theorem intervalBudget_eq (quota : Quota) (start finish : Instant) :
    intervalBudget quota start finish =
      quota.cap + (quota.units finish - quota.units start) := by
  rw [intervalBudget, Quota.units_sub]
  rfl

theorem Quota.units_of_count_eq_zero {quota : Quota}
    (hcount : quota.count = 0) (t : Instant) : quota.units t = 0 := by
  simp [Quota.units, hcount]

/-- Elapsed seconds times the refill rate is elapsed time in tokens. -/
theorem elapsed_mul_rate (quota : Quota) (now last : Instant) :
    (now.saturatingDurationSince last).asSecsF64 * refillPerSecond quota =
      max (quota.units now - quota.units last) 0 := by
  have hnanos := nanosPerSec_pos.ne'
  have helapsed :
      (((now.nanos - last.nanos).toNat : ℕ) : ℚ) =
        max ((now.nanos - last.nanos : ℤ) : ℚ) 0 := by
    rcases le_total (now.nanos - last.nanos) 0 with hle | hge
    · rw [Int.toNat_of_nonpos hle, max_eq_right (by exact_mod_cast hle)]
      rfl
    · rw [max_eq_left (by exact_mod_cast hge)]
      exact_mod_cast Int.toNat_of_nonneg hge
  rw [Quota.units_sub, mul_div_assoc,
    ← zero_mul ((quota.count.toNat : ℚ) / quota.window.nanos),
    ← max_mul_of_nonneg _ _ quota.unitsPerNano_nonneg, ← helapsed,
    Duration.asSecsF64, refillPerSecond, Duration.asSecsF64,
    Instant.saturatingDurationSince_nanos]
  field_simp

/-- One spec for the whole function: the bucket after it spends from the meter
and the decision depends on the refilled level only. -/
theorem Bucket.tryConsume_eq (bucket : Bucket) (now : Instant) (quota : Quota)
    (cost : UInt64) :
    bucket.tryConsume now quota cost =
      (⟨if (cost.toNat : ℚ) ≤ bucket.levelAt quota now
          then bucket.levelAt quota now - cost.toNat
          else bucket.levelAt quota now, now⟩,
        quota.decisionAt (bucket.levelAt quota now) cost) := by
  have hlevel :
      min (bucket.tokens +
          (now.saturatingDurationSince bucket.lastUpdate).asSecsF64 *
            refillPerSecond quota) (quota.burst.toNat : ℚ) =
        bucket.levelAt quota now := by
    rw [elapsed_mul_rate]
    rfl
  simp only [Bucket.tryConsume, hlevel, Quota.decisionAt, Quota.cap,
    decide_eq_true_eq]

theorem Bucket.tryConsume_toMeter (bucket : Bucket) (now : Instant)
    (quota : Quota) (cost : UInt64) :
    (bucket.tryConsume now quota cost).1.toMeter quota =
      (bucket.toMeter quota).spend quota.cap (quota.units now)
        cost.toNat := by
  rw [Bucket.tryConsume_eq, Meter.spend]
  unfold Bucket.levelAt Bucket.toMeter
  split <;> rfl

@[simp] theorem Bucket.tryConsume_lastUpdate (bucket : Bucket) (now : Instant)
    (quota : Quota) (cost : UInt64) :
    (bucket.tryConsume now quota cost).1.lastUpdate = now := rfl

theorem Bucket.tryConsume_mark (bucket : Bucket) (now : Instant)
    (quota : Quota) (cost : UInt64) :
    ((bucket.tryConsume now quota cost).1.toMeter quota).mark =
      quota.units now := rfl

theorem Bucket.tryConsume_decision (bucket : Bucket) (now : Instant)
    (quota : Quota) (cost : UInt64) :
    (bucket.tryConsume now quota cost).2 =
      quota.decisionAt (bucket.levelAt quota now) cost := by
  rw [Bucket.tryConsume_eq]

@[simp] theorem Bucket.new_toMeter (now : Instant) (quota : Quota) :
    (Bucket.new now quota).toMeter quota =
      ⟨quota.cap, quota.units now⟩ := rfl

@[simp] theorem Bucket.new_levelAt (start now : Instant) (quota : Quota) :
    (Bucket.new start quota).levelAt quota now = quota.cap :=
  Meter.levelAt_full _ _ _

theorem Bucket.levelAt_of_le {quota : Quota} {bucket : Bucket}
    {now : Instant}
    (hlast : quota.units bucket.lastUpdate ≤ quota.units now) :
    bucket.levelAt quota now =
      min (bucket.tokens +
        (quota.units now - quota.units bucket.lastUpdate)) quota.cap := by
  have hmark : (bucket.toMeter quota).mark ≤ quota.units now := hlast
  exact Meter.levelAt_of_mark_le quota.cap hmark

theorem Bucket.levelAt_mono (quota : Quota) (bucket : Bucket) :
    Monotone (bucket.levelAt quota) :=
  (Meter.levelAt_mono quota.cap (bucket.toMeter quota)).comp quota.units_mono

theorem Bucket.levelAt_nonneg {quota : Quota} {bucket : Bucket}
    (htokens : 0 ≤ bucket.tokens) (now : Instant) :
    0 ≤ bucket.levelAt quota now :=
  Meter.levelAt_nonneg _ quota.cap_nonneg htokens

theorem Bucket.tryConsume_tokens_nonneg {bucket : Bucket}
    (htokens : 0 ≤ bucket.tokens) (now : Instant) (quota : Quota)
    (cost : UInt64) : 0 ≤ (bucket.tryConsume now quota cost).1.tokens := by
  have hlevel : 0 ≤ (bucket.toMeter quota).level := htokens
  have hspend := Meter.spend_level_nonneg (quota.units now)
    (cost.toNat : ℚ) quota.cap_nonneg hlevel
  rw [← Bucket.tryConsume_toMeter] at hspend
  exact hspend

theorem Bucket.tryConsume_tokens_le (bucket : Bucket) (now : Instant)
    (quota : Quota) (cost : UInt64) :
    (bucket.tryConsume now quota cost).1.tokens ≤ quota.cap := by
  have hcap : bucket.levelAt quota now ≤ quota.cap :=
    Meter.levelAt_le_cap _ _ _
  rw [Bucket.tryConsume_eq]
  split
  · exact (sub_le_self _ (Nat.cast_nonneg _)).trans hcap
  · exact hcap

theorem Bucket.tryConsume_congr {bucket other : Bucket} {now : Instant}
    {quota : Quota}
    (hlevel : bucket.levelAt quota now = other.levelAt quota now)
    (cost : UInt64) :
    bucket.tryConsume now quota cost = other.tryConsume now quota cost := by
  rw [Bucket.tryConsume_eq, Bucket.tryConsume_eq, hlevel]

/-- What a returned decision says, field by field, about the level it was
taken at. -/
theorem Quota.decisionAt_eq_some_iff {quota : Quota} {level : ℚ}
    {cost : UInt64} {decision : Decision} :
    quota.decisionAt level cost = some decision ↔
      ∃ tokens,
        tokens = (if (cost.toNat : ℚ) ≤ level then level - cost.toNat
          else level) ∧
        decision.allowed = decide ((cost.toNat : ℚ) ≤ level) ∧
        decision.remaining = saturateU64 ⌊tokens⌋ ∧
        secondsToRefill (quota.cap - tokens) (refillPerSecond quota) =
          some decision.timeToFull ∧
        if (cost.toNat : ℚ) ≤ level then decision.retryAfter = none
        else ∃ wait, decision.retryAfter = some wait ∧
          secondsToRefill (cost.toNat - tokens) (refillPerSecond quota) =
            some wait := by
  obtain ⟨allowed, remaining, timeToFull, retryAfter⟩ := decision
  by_cases hle : (cost.toNat : ℚ) ≤ level
  · simp only [Quota.decisionAt, hle, decide_true, if_true,
      Option.bind_eq_bind, Option.bind_some, Option.bind_eq_some_iff,
      Option.pure_def, Option.some.injEq, Decision.mk.injEq,
      exists_eq_left]
    grind
  · simp only [Quota.decisionAt, hle, decide_false, Bool.false_eq_true,
      if_false, Option.bind_eq_bind, Option.bind_eq_some_iff,
      Option.map_eq_some_iff, Option.pure_def, Option.some.injEq,
      Decision.mk.injEq, exists_eq_left]
    grind

/-- A decision comes back unless a duration in it overflows. -/
theorem Quota.decisionAt_isSome_iff {quota : Quota} {level : ℚ}
    {cost : UInt64} :
    (quota.decisionAt level cost).isSome ↔
      (secondsToRefill
        (quota.cap - if (cost.toNat : ℚ) ≤ level then level - cost.toNat
          else level) (refillPerSecond quota)).isSome ∧
      (level < cost.toNat →
        (secondsToRefill (cost.toNat - level)
          (refillPerSecond quota)).isSome) := by
  by_cases hle : (cost.toNat : ℚ) ≤ level
  · cases hfull : secondsToRefill (quota.cap - (level - cost.toNat))
        (refillPerSecond quota) <;>
      simp [Quota.decisionAt, hle, hle.not_gt, hfull]
  · cases hfull : secondsToRefill (quota.cap - level)
        (refillPerSecond quota) <;>
      cases hwait : secondsToRefill (cost.toNat - level)
        (refillPerSecond quota) <;>
      simp [Quota.decisionAt, hle, not_le.mp hle, hfull, hwait]

theorem Quota.decisionAt_of_le {quota : Quota} {level : ℚ} {cost : UInt64}
    {timeToFull : Duration} (hle : (cost.toNat : ℚ) ≤ level)
    (hfull : secondsToRefill (quota.cap - (level - cost.toNat))
      (refillPerSecond quota) = some timeToFull) :
    quota.decisionAt level cost =
      some ⟨true, saturateU64 ⌊level - cost.toNat⌋, timeToFull, none⟩ := by
  simp [Quota.decisionAt, hle, hfull]

theorem Bucket.tryConsume_of_le {bucket : Bucket} {now : Instant}
    {quota : Quota} {level : ℚ} (cost : UInt64) {timeToFull : Duration}
    (hlevel : bucket.levelAt quota now = level)
    (hle : (cost.toNat : ℚ) ≤ level)
    (hfull : secondsToRefill (quota.cap - (level - cost.toNat))
      (refillPerSecond quota) = some timeToFull) :
    bucket.tryConsume now quota cost =
      (⟨level - cost.toNat, now⟩,
        some ⟨true, saturateU64 ⌊level - cost.toNat⌋, timeToFull, none⟩) := by
  rw [Bucket.tryConsume_eq, hlevel, if_pos hle,
    Quota.decisionAt_of_le hle hfull]

theorem Quota.decisionAt_allowed {quota : Quota} {level : ℚ} {cost : UInt64}
    {decision : Decision} (h : quota.decisionAt level cost = some decision) :
    decision.allowed = decide ((cost.toNat : ℚ) ≤ level) := by
  obtain ⟨_, _, hallowed, _⟩ := Quota.decisionAt_eq_some_iff.mp h
  exact hallowed

theorem Quota.decisionAt_timeToFull {quota : Quota} {level : ℚ}
    {cost : UInt64} {decision : Decision}
    (h : quota.decisionAt level cost = some decision) :
    secondsToRefill
      (quota.cap - if (cost.toNat : ℚ) ≤ level then level - cost.toNat
        else level) (refillPerSecond quota) = some decision.timeToFull := by
  obtain ⟨tokens, htokens, _, _, hfull, _⟩ :=
    Quota.decisionAt_eq_some_iff.mp h
  rwa [htokens] at hfull

theorem Quota.decisionAt_retryAfter {quota : Quota} {level : ℚ}
    {cost : UInt64} {decision : Decision}
    (h : quota.decisionAt level cost = some decision) {wait : Duration}
    (hwait : decision.retryAfter = some wait) :
    level < cost.toNat ∧
      secondsToRefill (cost.toNat - level) (refillPerSecond quota) =
        some wait := by
  obtain ⟨tokens, htokens, _, _, _, hretry⟩ :=
    Quota.decisionAt_eq_some_iff.mp h
  by_cases hle : (cost.toNat : ℚ) ≤ level
  · rw [if_pos hle, hwait] at hretry
    simp at hretry
  · rw [if_neg hle] at htokens hretry
    obtain ⟨found, hfound, hrefill⟩ := hretry
    obtain rfl := Option.some.inj (hwait.symm.trans hfound)
    exact ⟨not_le.mp hle, htokens ▸ hrefill⟩

/-- What it takes for a decision that allows the call to come back. -/
theorem Quota.any_allowed_iff (quota : Quota) (level : ℚ) (cost : UInt64) :
    (quota.decisionAt level cost).any Decision.allowed = true ↔
      (cost.toNat : ℚ) ≤ level ∧
        (secondsToRefill (quota.cap - (level - cost.toNat))
          (refillPerSecond quota)).isSome := by
  constructor
  · intro hallowed
    cases hdecision : quota.decisionAt level cost with
    | none => simp [hdecision] at hallowed
    | some decision =>
        have hfull := Quota.decisionAt_timeToFull hdecision
        rw [hdecision, Option.any_some, Quota.decisionAt_allowed hdecision,
          decide_eq_true_eq] at hallowed
        rw [if_pos hallowed] at hfull
        exact ⟨hallowed, Option.isSome_of_eq_some hfull⟩
  · rintro ⟨hle, hfull⟩
    obtain ⟨timeToFull, hfull⟩ := Option.isSome_iff_exists.mp hfull
    rw [Quota.decisionAt_of_le hle hfull]
    rfl

theorem Quota.any_allowed_iff_waitFits {quota : Quota}
    (hwindow : quota.window.nanos ≠ 0) {level : ℚ} (hcap : level ≤ quota.cap)
    (cost : UInt64) :
    (quota.decisionAt level cost).any Decision.allowed = true ↔
      (cost.toNat : ℚ) ≤ level ∧
        quota.WaitFits (quota.cap - (level - cost.toNat)) := by
  have hcost : (0 : ℚ) ≤ cost.toNat := Nat.cast_nonneg _
  rw [Quota.any_allowed_iff,
    secondsToRefill_isSome_iff hwindow (by linarith)]

-- from here on both are used through the lemmas above only
attribute [irreducible] Bucket.tryConsume Quota.decisionAt

end TrilliumRatelimit
