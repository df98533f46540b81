import TrilliumRatelimit.BucketConformance
import TrilliumRatelimit.LimiterStack

/-!
# Where no duration overflows

If refilling the whole burst, or a token where the burst is none, takes long
enough less than `2 ^ 64` seconds, then nothing the limiter computes for a
request leaves its range: the level is between zero and the burst, and every
wait is a `Duration`, with its jitter and in whole seconds.
-/

namespace TrilliumRatelimit

open StructuredField CappedLevel

/-- The sum of wait and jitter is a `Duration`, and its seconds, rounded up,
are a `u64` with any overflow checking. -/
def Duration.FitsWith (wait jitter : Duration) : Prop :=
  ∃ sum secs, wait.checkedAdd jitter = some sum ∧
    (∀ overflowChecks, secsCeil overflowChecks sum = some secs) ∧
    sum.nanos ≤ secs.toNat * nanosPerSec

/-- What `try_consume` and `run` compute for a request of cost one on this
bucket stays in range. -/
structure Bucket.InRange (quota : Quota) (bucket : Bucket) (now : Instant)
    (jitter : Duration) : Prop where
  level : bucket.levelAt quota now ∈ Set.Icc 0 quota.cap
  left : (bucket.tryConsume now quota 1).1.tokens ∈ Set.Icc 0 quota.cap
  fullSecs : (quota.cap - (bucket.tryConsume now quota 1).1.tokens) /
    refillPerSecond quota ∈ Set.Ico 0 (2 ^ 64)
  retrySecs : bucket.levelAt quota now < 1 →
    (1 - bucket.levelAt quota now) / refillPerSecond quota ∈
      Set.Ico 0 (2 ^ 64)
  waits : ∃ decision, (bucket.tryConsume now quota 1).2 = some decision ∧
    decision.timeToFull.FitsWith jitter ∧
    ∀ wait, decision.retryAfter = some wait → wait.FitsWith jitter

/-- A second less than `2 ^ 64` seconds for the longest wait with the largest
jitter. -/
def RateLimiter.WithinEnvelope {Request K : Type*}
    (self : RateLimiter Request K) : Prop :=
  self.quota.nanosFor (max self.quota.cap 1) +
      (min self.jitter.nanos (2 ^ 64 - 1) : ℕ) + nanosPerSec < durationLimit

instance {Request K : Type*} (self : RateLimiter Request K) :
    Decidable self.WithinEnvelope :=
  inferInstanceAs (Decidable (_ < _))

/-! ## One wait -/

theorem secsCeil_fits {d : Duration} (hle : d.nanos ≤ secsLimit) :
    ∃ secs, (∀ overflowChecks, secsCeil overflowChecks d = some secs) ∧
      d.nanos ≤ secs.toNat * nanosPerSec := by
  have hlt : (d.nanos + (nanosPerSec - 1)) / nanosPerSec < 2 ^ 64 := by
    unfold secsLimit nanosPerSec at *
    omega
  refine ⟨UInt64.ofNatLT _ hlt, fun overflowChecks => ?_, ?_⟩
  · rw [secsCeil_eq_some_iff, UInt64.toNat_ofNatLT, if_pos hle]
    exact ⟨fun _ => hle, rfl⟩
  · rw [UInt64.toNat_ofNatLT]
    unfold nanosPerSec
    omega

theorem Duration.fitsWith_of_le {wait jitter : Duration}
    (hle : wait.nanos + jitter.nanos ≤ secsLimit) : wait.FitsWith jitter := by
  have hlt : wait.nanos + jitter.nanos < durationLimit :=
    hle.trans_lt (by decide)
  obtain ⟨secs, hsecs, hwait⟩ :=
    secsCeil_fits (d := ⟨wait.nanos + jitter.nanos, hlt⟩) hle
  exact ⟨_, secs, Duration.ofNanos?_eq_some_iff.mpr rfl, hsecs, hwait⟩

theorem RateLimiter.randomJitter_nanos_le_min {Request K : Type*}
    (self : RateLimiter Request K) (draw : UInt64) :
    (self.randomJitter draw).nanos ≤ min self.jitter.nanos (2 ^ 64 - 1) := by
  have hlt : min self.jitter.nanos (2 ^ 64 - 1) < 2 ^ 64 := by omega
  unfold RateLimiter.randomJitter
  split
  · exact Nat.zero_le _
  · have hmax : (UInt64.ofNat (min self.jitter.nanos (2 ^ 64 - 1))).toNat =
        min self.jitter.nanos (2 ^ 64 - 1) := UInt64.toNat_ofNat_of_lt' hlt
    change (min draw _).toNat ≤ _
    rw [UInt64.toNat_min, hmax]
    exact min_le_right _ _

section

variable {Request K : Type*} {self : RateLimiter Request K}

theorem RateLimiter.WithinEnvelope.rounded_le (henvelope : self.WithinEnvelope)
    {tokens : ℚ} (htokens : tokens ≤ max self.quota.cap 1) (draw : UInt64) :
    roundHalfEven (self.quota.nanosFor tokens) +
      (self.randomJitter draw).nanos ≤ secsLimit := by
  have hjitter : ((self.randomJitter draw).nanos : ℚ) ≤
      (min self.jitter.nanos (2 ^ 64 - 1) : ℕ) := by
    exact_mod_cast self.randomJitter_nanos_le_min draw
  have hmax := self.quota.nanosFor_mono htokens
  have hlimit : (durationLimit : ℚ) = secsLimit + nanosPerSec := by
    norm_num [durationLimit, secsLimit, nanosPerSec]
  have hle : self.quota.nanosFor tokens ≤
      (secsLimit - (self.randomJitter draw).nanos : ℤ) := by
    unfold RateLimiter.WithinEnvelope at henvelope
    push_cast
    linarith
  have hround := roundHalfEven_mono hle
  rw [roundHalfEven_intCast] at hround
  omega

variable (hcount : self.quota.count ≠ 0)
  (hwindow : self.quota.window.nanos ≠ 0) (henvelope : self.WithinEnvelope)

include hcount hwindow henvelope

theorem RateLimiter.WithinEnvelope.refill_fits {tokens : ℚ}
    (htokens : tokens ≤ max self.quota.cap 1) (draw : UInt64) :
    ∃ wait, secondsToRefill tokens (refillPerSecond self.quota) = some wait ∧
      wait.FitsWith (self.randomJitter draw) := by
  have hround := henvelope.rounded_le htokens draw
  by_cases hpos : 0 < tokens
  · have hnonneg := roundHalfEven_nonneg
      (self.quota.nanosFor_nonneg hpos.le)
    rw [secondsToRefill_of_pos hcount hwindow hpos]
    have hlimit : secsLimit < durationLimit := by decide
    obtain ⟨wait, hwait⟩ := Option.isSome_iff_exists.mp
      (Duration.ofNanos?_isSome_iff.mpr (by omega :
        (roundHalfEven (self.quota.nanosFor tokens)).toNat < durationLimit))
    have hnanos := Duration.ofNanos?_eq_some_iff.mp hwait
    exact ⟨wait, hwait, Duration.fitsWith_of_le (by omega)⟩
  · refine ⟨Duration.zero, secondsToRefill_of_nonpos (not_lt.mp hpos) _, ?_⟩
    apply Duration.fitsWith_of_le
    have hjitter := self.randomJitter_nanos_le draw
    simpa using hjitter

omit hcount hwindow in
theorem RateLimiter.WithinEnvelope.secs_mem {tokens : ℚ} (hpos : 0 ≤ tokens)
    (htokens : tokens ≤ max self.quota.cap 1) :
    tokens / refillPerSecond self.quota ∈ Set.Ico 0 (2 ^ 64) := by
  have hnanos := nanosPerSec_pos
  have hround := henvelope
  unfold RateLimiter.WithinEnvelope at hround
  have hjitter : (0 : ℚ) ≤ (min self.jitter.nanos (2 ^ 64 - 1) : ℕ) :=
    Nat.cast_nonneg _
  have hmax := self.quota.nanosFor_mono htokens
  have hlimit : (durationLimit : ℚ) = 2 ^ 64 * nanosPerSec := by
    norm_num [durationLimit]
  rw [div_refillPerSecond]
  refine ⟨div_nonneg (self.quota.nanosFor_nonneg hpos) hnanos.le, ?_⟩
  rw [div_lt_iff₀ hnanos]
  linarith

/-- What the invariant `0 ≤ tokens` is enough for. -/
theorem RateLimiter.WithinEnvelope.inRange {bucket : Bucket}
    (htokens : 0 ≤ bucket.tokens) (now : Instant) (draw : UInt64) :
    bucket.InRange self.quota now (self.randomJitter draw) := by
  have hlevel : 0 ≤ bucket.levelAt self.quota now :=
    Bucket.levelAt_nonneg htokens now
  have hcap : bucket.levelAt self.quota now ≤ self.quota.cap :=
    Meter.levelAt_le_cap _ _ _
  have hleft := Bucket.tryConsume_tokens_nonneg htokens now self.quota 1
  have hleftCap := bucket.tryConsume_tokens_le now self.quota 1
  have hfull : self.quota.cap -
      (bucket.tryConsume now self.quota 1).1.tokens ≤
        max self.quota.cap 1 :=
    (sub_le_self _ hleft).trans (le_max_left _ _)
  have hretry : 1 - bucket.levelAt self.quota now ≤ max self.quota.cap 1 :=
    (sub_le_self _ hlevel).trans (le_max_right _ _)
  refine ⟨⟨hlevel, hcap⟩, ⟨hleft, hleftCap⟩, ?_, ?_, ?_⟩
  · exact henvelope.secs_mem (sub_nonneg.mpr hleftCap) hfull
  · exact fun hlt => henvelope.secs_mem (sub_nonneg.mpr hlt.le) hretry
  · rw [Bucket.tryConsume_eq, UInt64.toNat_one, Nat.cast_one] at hfull ⊢
    obtain ⟨timeToFull, hrefill, hfits⟩ :=
      henvelope.refill_fits hcount hwindow hfull draw
    obtain ⟨retryAfter, hwait, hretryFits⟩ :=
      henvelope.refill_fits hcount hwindow hretry draw
    have hsome : (self.quota.decisionAt
        (bucket.levelAt self.quota now) 1).isSome := by
      rw [Quota.decisionAt_isSome_iff, UInt64.toNat_one, Nat.cast_one,
        hrefill, hwait]
      exact ⟨rfl, fun _ => rfl⟩
    obtain ⟨decision, hdecision⟩ := Option.isSome_iff_exists.mp hsome
    have htime := Quota.decisionAt_timeToFull hdecision
    rw [UInt64.toNat_one, Nat.cast_one, hrefill, Option.some.injEq] at htime
    refine ⟨decision, hdecision, htime ▸ hfits, fun wait hsome => ?_⟩
    obtain ⟨_, hfound⟩ := Quota.decisionAt_retryAfter hdecision hsome
    rw [UInt64.toNat_one, Nat.cast_one, hwait, Option.some.injEq] at hfound
    exact hfound ▸ hretryFits

end

/-! ## One request -/

section

variable {Request K : Type*} {self : RateLimiter Request K}

theorem RateLimiter.answer_of_fits {decision : Decision} {draw : UInt64}
    (hfull : decision.timeToFull.FitsWith (self.randomJitter draw))
    (hretry : ∀ wait, decision.retryAfter = some wait →
      wait.FitsWith (self.randomJitter draw)) (pk : Option Text) :
    ∃ answer, ∀ overflowChecks, self.answer overflowChecks pk decision
      (self.randomJitter draw) = some answer := by
  have hzero : Duration.zero.FitsWith (self.randomJitter draw) := by
    apply Duration.fitsWith_of_le
    simpa using self.randomJitter_nanos_le draw
  have hwait : (decision.retryAfter.getD Duration.zero).FitsWith
      (self.randomJitter draw) := by
    cases hsome : decision.retryAfter with
    | none => exact hzero
    | some wait => exact hretry wait hsome
  obtain ⟨fullSum, reset, hfullSum, hreset, _⟩ := hfull
  obtain ⟨retrySum, secs, hretrySum, hsecs, _⟩ := hwait
  refine ⟨self.advertise pk decision.remaining reset
    (if decision.allowed then none else some secs), fun overflowChecks => ?_⟩
  simp only [RateLimiter.answer, secsWithJitter, hfullSum, hretrySum,
    Option.bind_some, hreset, hsecs, Option.map_some, Option.bind_eq_bind,
    Option.pure_def]
  split <;> rfl

variable [DecidableEq K]

/-- A request that finds a bucket in range gets a response, and the same one
with and without overflow checks. -/
theorem RateLimiter.run_of_inRange {store : Store (Option K)}
    (hquota : store.quota = self.quota) {now : Instant} {draw : UInt64}
    (hrange : ∀ key, (store.found key now).InRange self.quota now
      (self.randomJitter draw))
    (encode : List UInt8 → Text) (conn : Conn Request) :
    ∃ response, ∀ overflowChecks,
      (self.run encode overflowChecks store conn now draw).2 =
        some response := by
  simp only [RateLimiter.run_eq]
  cases self.metering conn with
  | skipped => exact ⟨conn, fun _ => rfl⟩
  | rejected => exact ⟨conn.reject self.status, fun _ => rfl⟩
  | metered key =>
      obtain ⟨decision, hdecision, hfull, hretry⟩ := (hrange key).waits
      obtain ⟨answer, hanswer⟩ :=
        RateLimiter.answer_of_fits hfull hretry (self.pk encode key)
      refine ⟨self.respond conn answer, fun overflowChecks => ?_⟩
      rw [Bucket.tryConsume_decision, ← hquota, ← Store.consume_decision]
        at hdecision
      simp only [RateLimiter.serve_eq, hdecision, Option.bind_some, hanswer,
        Option.map_some]

theorem RateLimiter.run_used {store : Store (Option K)} {quota : Quota}
    (hused : store.Used quota) (encode : List UInt8 → Text)
    (overflowChecks : Bool) (conn : Conn Request) (now : Instant)
    (draw : UInt64) :
    (self.run encode overflowChecks store conn now draw).1.Used quota := by
  rw [RateLimiter.run_eq]
  cases self.metering conn with
  | skipped => exact hused
  | rejected => exact hused
  | metered key =>
      have hstep : store.step (.consume key now 1) =
          some (store.consume key now 1).1 := rfl
      exact hused.tail trivial hstep

theorem RateLimiter.storeAfter_used {store : Store (Option K)} {quota : Quota}
    (hused : store.Used quota) (encode : List UInt8 → Text)
    (overflowChecks : Bool) (arrivals : List (Arrival Request)) :
    (self.storeAfter encode overflowChecks store arrivals).Used quota := by
  induction arrivals generalizing store with
  | nil => exact hused
  | cons arrival rest ih =>
      exact ih (RateLimiter.run_used hused encode overflowChecks _ _ _)

end

/-- Within the envelope nothing overflows: not on a bucket behind any calls,
and not in a request to a limiter whose store was used in any way. -/
theorem durations_stay_in_range {Request K : Type*} [DecidableEq K]
    (self : RateLimiter Request K) (hcount : self.quota.count ≠ 0)
    (hwindow : self.quota.window ≠ Duration.zero)
    (henvelope : self.WithinEnvelope) :
    (∀ start calls now draw,
      ((Bucket.new start self.quota).after self.quota calls).InRange
        self.quota now (self.randomJitter draw)) ∧
    ∀ store : Store (Option K), store.Used self.quota → ∀ now draw,
      (∀ key, (store.found key now).InRange self.quota now
        (self.randomJitter draw)) ∧
      ∀ encode conn, ∃ response, ∀ overflowChecks,
        (self.run encode overflowChecks store conn now draw).2 =
          some response := by
  have hnanos := (Duration.nanos_pos hwindow).ne'
  constructor
  · intro start calls now draw
    exact henvelope.inRange hcount hnanos (Bucket.after_tokens_mem
      (Bucket.new_tokens_mem start self.quota) calls).1 now draw
  · intro store hused now draw
    have hsolvent := hused.solvent
    have hrange : ∀ key, (store.found key now).InRange self.quota now
        (self.randomJitter draw) := by
      intro key
      exact henvelope.inRange hcount hnanos
        (hsolvent.found_nonneg key now) now draw
    exact ⟨hrange, RateLimiter.run_of_inRange hsolvent.quota_eq hrange⟩

/-- Five requests a minute with half a minute of jitter: a request that is nine
seconds behind the one before it is answered. -/
theorem durations_stay_in_range_perMinute :
    let limiter := (oneKeyLimiter (Quota.perMinute 5)).withJitter
      (Duration.fromSecs 30)
    let store := limiter.storeAfter Base64.encode true
      (Store.new (Option Unit) limiter.quota)
      [⟨Conn.new (), Instant.atSec 9, 7⟩]
    ∃ response, ∀ overflowChecks,
      (limiter.run Base64.encode overflowChecks store (Conn.new ())
        (Instant.atSec 0) 3).2 = some response := by
  intro limiter store
  have hused : store.Used limiter.quota :=
    RateLimiter.storeAfter_used .refl Base64.encode true _
  have hrange := durations_stay_in_range limiter (by decide) (by decide)
    (by decide +kernel)
  exact (hrange.2 store hused (Instant.atSec 0) 3).2 Base64.encode (Conn.new ())

end TrilliumRatelimit
