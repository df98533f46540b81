import TrilliumRatelimit.Base64
import TrilliumRatelimit.Partitions

/-!
# The waits the limiter advertises

A wait is exact as a rational number of nanoseconds.  It is rounded to the
nearest nanosecond, the drawn jitter is added, and the sum is rounded up to
whole seconds.  The first rounding may go down, and rounding up makes up for it
unless nothing is left to round up.  Whoever comes back in time may still find
that the wait behind the retry is no `Duration`.
-/

namespace TrilliumRatelimit

open StructuredField CappedLevel

/-! ## Whole seconds -/

/-- Beyond this many nanoseconds the sum in `secs_ceil` overflows. -/
def secsLimit : ℕ := (2 ^ 64 - 1) * nanosPerSec

theorem secsCeil_eq_some_iff {overflowChecks : Bool} {d : Duration}
    {secs : UInt64} :
    secsCeil overflowChecks d = some secs ↔
      (overflowChecks = true → d.nanos ≤ secsLimit) ∧
        secs.toNat = if d.nanos ≤ secsLimit
          then (d.nanos + (nanosPerSec - 1)) / nanosPerSec else 0 := by
  have hrange := d.inRange
  have hsecs := d.asSecs_toNat
  have hcarry : (if 0 < d.subsecNanos then 1 else 0 : UInt64).toNat =
      if 0 < d.nanos % nanosPerSec then 1 else 0 := by
    unfold Duration.subsecNanos
    split <;> rfl
  have hceil : d.asSecs.toNat +
      (if 0 < d.subsecNanos then 1 else 0 : UInt64).toNat =
        (d.nanos + (nanosPerSec - 1)) / nanosPerSec := by
    rw [hsecs, hcarry]
    by_cases hsub : 0 < d.nanos % nanosPerSec
    · rw [if_pos hsub]
      unfold nanosPerSec at *
      omega
    · rw [if_neg hsub]
      unfold nanosPerSec at *
      omega
  have hover : 2 ^ 64 ≤ (d.nanos + (nanosPerSec - 1)) / nanosPerSec ↔
      ¬ d.nanos ≤ secsLimit := by
    simp only [secsLimit, nanosPerSec]
    omega
  have hsum : (d.nanos + (nanosPerSec - 1)) / nanosPerSec % 2 ^ 64 =
      if d.nanos ≤ secsLimit
        then (d.nanos + (nanosPerSec - 1)) / nanosPerSec else 0 := by
    by_cases hle : d.nanos ≤ secsLimit
    · rw [if_pos hle]
      unfold secsLimit nanosPerSec at *
      omega
    · rw [if_neg hle]
      unfold secsLimit durationLimit nanosPerSec at *
      omega
  rw [← hsum]
  simp only [secsCeil, hceil, hover]
  cases overflowChecks with
  | false =>
      simp only [Bool.false_eq_true, false_and, if_false, false_implies,
        true_and, Option.some.injEq, ← UInt64.toNat_inj, UInt64.toNat_add,
        hceil, eq_comm]
  | true =>
      by_cases hle : d.nanos ≤ secsLimit
      · simp only [hle, not_true_eq_false, and_false, if_false, implies_true,
          true_and, Option.some.injEq, ← UInt64.toNat_inj, UInt64.toNat_add,
          hceil, eq_comm]
      · simp [hle]

/-! ## From an exact wait to a header -/

/-- A wait rounded to nanoseconds, with the jitter. -/
def nanosWithJitter (jitter : Duration) (wait : ℚ) : ℕ :=
  (roundHalfEven wait).toNat + jitter.nanos

/-- The seconds advertised for a wait. -/
def advertisedSecs (overflowChecks : Bool) (jitter : Duration) (wait : ℚ) :
    Option UInt64 :=
  (Duration.ofNanos? (roundHalfEven wait).toNat).bind fun wait =>
    secsWithJitter overflowChecks wait jitter

/-- The wait can be advertised without a panic. -/
def Representable (overflowChecks : Bool) (jitter : Duration) (wait : ℚ) :
    Prop :=
  nanosWithJitter jitter wait < durationLimit ∧
    (overflowChecks = true → nanosWithJitter jitter wait ≤ secsLimit)

theorem advertisedSecs_eq_some_iff {overflowChecks : Bool} {jitter : Duration}
    {wait : ℚ} {secs : UInt64} :
    advertisedSecs overflowChecks jitter wait = some secs ↔
      Representable overflowChecks jitter wait ∧
        secs.toNat = if nanosWithJitter jitter wait ≤ secsLimit
          then (nanosWithJitter jitter wait + (nanosPerSec - 1)) / nanosPerSec
          else 0 := by
  simp only [advertisedSecs, secsWithJitter, Option.bind_eq_some_iff,
    secsCeil_eq_some_iff, Duration.checkedAdd, Duration.ofNanos?_eq_some_iff,
    Representable]
  constructor
  · rintro ⟨wait, hwait, sum, hsum, hchecks, hsecs⟩
    rw [hwait] at hsum
    have hrange := sum.inRange
    rw [hsum] at hrange hchecks hsecs
    exact ⟨⟨hrange, hchecks⟩, hsecs⟩
  · rintro ⟨⟨hrange, hchecks⟩, hsecs⟩
    have hwait : (roundHalfEven wait).toNat < durationLimit := by
      unfold nanosWithJitter at hrange
      omega
    exact ⟨⟨_, hwait⟩, rfl, ⟨_, hrange⟩, rfl, hchecks, hsecs⟩

theorem advertisedSecs_isSome_iff {overflowChecks : Bool} {jitter : Duration}
    {wait : ℚ} :
    (advertisedSecs overflowChecks jitter wait).isSome ↔
      Representable overflowChecks jitter wait := by
  rw [Option.isSome_iff_exists]
  constructor
  · rintro ⟨secs, hsecs⟩
    exact (advertisedSecs_eq_some_iff.mp hsecs).1
  · intro h
    have hlt : (if nanosWithJitter jitter wait ≤ secsLimit
        then (nanosWithJitter jitter wait + (nanosPerSec - 1)) / nanosPerSec
        else 0) < 2 ^ 64 := by
      split
      next hle =>
        unfold secsLimit nanosPerSec at *
        omega
      next => decide
    refine ⟨UInt64.ofNatLT _ hlt, advertisedSecs_eq_some_iff.mpr ⟨h, ?_⟩⟩
    rw [UInt64.toNat_ofNatLT]

/-! ## The waits of an answer -/

/-- The tokens a request leaves of a level. -/
def leftOf (level : ℚ) : ℚ := if 1 ≤ level then level - 1 else level

/-- The exact wait for one token. -/
def Quota.retryWait (quota : Quota) (level : ℚ) : ℚ :=
  quota.nanosFor (1 - level)

/-- The exact wait for a full bucket, behind a request. -/
def Quota.fullWait (quota : Quota) (level : ℚ) : ℚ :=
  quota.nanosFor (quota.cap - leftOf level)

theorem leftOf_le (level : ℚ) : leftOf level ≤ level := by
  unfold leftOf
  split <;> linarith

theorem Quota.retryWait_le (quota : Quota) {level : ℚ} (hlevel : 0 ≤ level) :
    quota.retryWait level ≤ quota.window.nanos := by
  unfold Quota.retryWait Quota.nanosFor
  by_cases hcount : quota.count = 0
  · simp [hcount]
  · have hpos : (1 : ℚ) ≤ quota.count.toNat := by
      exact_mod_cast Quota.count_pos hcount
    have hwindow : (0 : ℚ) ≤ quota.window.nanos := Nat.cast_nonneg _
    rw [div_le_iff₀ (by linarith)]
    nlinarith

/-- A token is there within a window. -/
theorem Quota.round_retryWait_le (quota : Quota) {level : ℚ}
    (hlevel : 0 ≤ level) :
    (roundHalfEven (quota.retryWait level)).toNat ≤ quota.window.nanos := by
  have hround := roundHalfEven_mono (quota.retryWait_le hlevel)
  rw [roundHalfEven_natCast] at hround
  omega

section

variable {Request K : Type*}

theorem RateLimiter.answer_decisionAt {self : RateLimiter Request K}
    (hwindow : self.quota.window.nanos ≠ 0) {level : ℚ}
    (hlevel : level ≤ self.quota.cap) (overflowChecks : Bool)
    (pk : Option Text) (jitter : Duration) :
    ((self.quota.decisionAt level 1).bind fun decision =>
        self.answer overflowChecks pk decision jitter) =
      (advertisedSecs overflowChecks jitter
          (self.quota.fullWait level)).bind fun reset =>
        (if 1 ≤ level then some none
          else (advertisedSecs overflowChecks jitter
            (self.quota.retryWait level)).map some).map fun retryAfter =>
          self.advertise pk (saturateU64 ⌊leftOf level⌋) reset retryAfter := by
  have hneeded : 0 ≤ self.quota.cap - leftOf level :=
    sub_nonneg.mpr ((leftOf_le level).trans hlevel)
  have hfull := secondsToRefill_eq hwindow hneeded
  by_cases hle : 1 ≤ level
  · have hone : ((1 : UInt64).toNat : ℚ) ≤ level := by simpa using hle
    have hleft : leftOf level = level - 1 := if_pos hle
    rw [hleft] at hfull
    simp only [Quota.decisionAt, UInt64.toNat_one, Nat.cast_one, hle,
      decide_true, if_true, hfull, hleft, RateLimiter.answer, advertisedSecs,
      Quota.fullWait, Option.bind_eq_bind, Option.bind_some,
      Option.pure_def, Option.bind_assoc, Option.map_some]
  · have hleft : leftOf level = level := if_neg hle
    have hshort : 0 ≤ 1 - level := by linarith
    have hretry := secondsToRefill_eq hwindow hshort
    rw [hleft] at hfull
    simp only [Quota.decisionAt, UInt64.toNat_one, Nat.cast_one, hle,
      decide_false, Bool.false_eq_true, if_false, hfull, hretry, hleft,
      RateLimiter.answer, advertisedSecs, Quota.fullWait, Quota.retryWait,
      Option.bind_eq_bind, Option.bind_some, Option.pure_def,
      Option.bind_assoc]
    cases Duration.ofNanos?
        (roundHalfEven (self.quota.nanosFor (1 - level))).toNat with
    | none => simp
    | some retry =>
        cases hsecs : secsWithJitter overflowChecks retry jitter with
        | none => simp [hsecs]
        | some secs => simp [hsecs]

theorem RateLimiter.randomJitter_nanos_lt (self : RateLimiter Request K)
    (draw : UInt64) : (self.randomJitter draw).nanos < 2 ^ 64 := by
  unfold RateLimiter.randomJitter
  split
  · exact Nat.two_pow_pos 64
  · exact UInt64.toNat_lt _

theorem RateLimiter.randomJitter_nanos_le (self : RateLimiter Request K)
    (draw : UInt64) : (self.randomJitter draw).nanos ≤ secsLimit :=
  (self.randomJitter_nanos_lt draw).le.trans (by decide)

end

/-! ## What the advertised seconds are worth -/

/-- The seconds advertised for a wait are too few: a wait that was rounded down
to a whole number of seconds, without any jitter and up to representable
instants, or more seconds than there are. -/
def CutShort (now : Instant) (jitter : Duration) (wait : ℚ) : Prop :=
  (jitter = Duration.zero ∧ (roundHalfEven wait : ℚ) < wait ∧
      (nanosPerSec : ℤ) ∣ roundHalfEven wait ∧
      now.nanos + roundHalfEven wait < instantLimit) ∨
    secsLimit < nanosWithJitter jitter wait

instance (now : Instant) (jitter : Duration) (wait : ℚ) :
    Decidable (CutShort now jitter wait) :=
  inferInstanceAs (Decidable (_ ∨ _))

/-- The nanoseconds of the seconds a wait with jitter is rounded up to. -/
def nanosRoundedUp (jitter : Duration) (wait : ℚ) : ℕ :=
  (nanosWithJitter jitter wait + (nanosPerSec - 1)) / nanosPerSec * nanosPerSec

/-- The level once the wait for a token, rounded up to seconds, is over. -/
def Quota.levelAtRetry (quota : Quota) (jitter : Duration) (level : ℚ) : ℚ :=
  min (level + nanosRoundedUp jitter (quota.retryWait level) *
    quota.count.toNat / quota.window.nanos) quota.cap

/-- Whoever takes a token then leaves a wait for a full bucket that is a
`Duration`, or there is no such instant any more. -/
def Quota.RetryFits (quota : Quota) (now : Instant) (jitter : Duration)
    (level : ℚ) : Prop :=
  now.nanos + nanosRoundedUp jitter (quota.retryWait level) < instantLimit →
    quota.WaitFits (quota.cap - (quota.levelAtRetry jitter level - 1))

instance (quota : Quota) (now : Instant) (jitter : Duration) (level : ℚ) :
    Decidable (quota.RetryFits now jitter level) :=
  inferInstanceAs (Decidable (_ → _))

/-- Rounding up to seconds hides that nanoseconds were rounded down, unless
there is nothing to round up. -/
theorem secs_lt_wait_iff {overflowChecks : Bool} {now : Instant}
    {jitter : Duration} (hjitter : jitter.nanos ≤ secsLimit) {wait : ℚ}
    (hwait : 0 ≤ wait) {secs : UInt64}
    (h : advertisedSecs overflowChecks jitter wait = some secs) :
    ((Duration.fromSecs secs).nanos < wait ∧
        now.nanos + (Duration.fromSecs secs).nanos < instantLimit) ↔
      CutShort now jitter wait := by
  obtain ⟨_, hsecs⟩ := advertisedSecs_eq_some_iff.mp h
  obtain ⟨rounded, hrounded⟩ :=
    Int.eq_ofNat_of_zero_le (roundHalfEven_nonneg hwait)
  have hnear := abs_le.mp (abs_roundHalfEven_sub_le wait)
  have hupper := now.upper
  unfold CutShort
  unfold nanosWithJitter at hsecs ⊢
  rw [hrounded, Int.toNat_natCast] at hsecs
  rw [hrounded, Int.cast_natCast] at hnear
  rw [hrounded, Int.toNat_natCast, Int.cast_natCast, Int.natCast_dvd_natCast,
    Duration.fromSecs_nanos]
  have hzero : jitter = Duration.zero ↔ jitter.nanos = 0 :=
    ⟨fun h => h ▸ rfl, fun h => Duration.ext h⟩
  rw [hzero]
  by_cases hle : rounded + jitter.nanos ≤ secsLimit
  · rw [if_pos hle] at hsecs
    have hceil : rounded + jitter.nanos ≤ secs.toNat * nanosPerSec ∧
        secs.toNat * nanosPerSec < rounded + jitter.nanos + nanosPerSec := by
      unfold nanosPerSec at *
      omega
    constructor
    · rintro ⟨hshort, hrange⟩
      have hlt : secs.toNat * nanosPerSec < rounded + 1 := by
        have hcast : ((secs.toNat * nanosPerSec : ℕ) : ℚ) < rounded + 1 := by
          linarith
        exact_mod_cast hcast
      have heq : secs.toNat * nanosPerSec = rounded := by omega
      rw [heq] at hshort hrange
      exact .inl ⟨by omega, hshort, ⟨secs.toNat, by rw [← heq, mul_comm]⟩,
        hrange⟩
    · rintro (⟨hnone, hshort, ⟨whole, hwhole⟩, hrange⟩ | hover)
      · have heq : secs.toNat * nanosPerSec = rounded := by
          unfold nanosPerSec at *
          omega
        rw [heq]
        exact ⟨hshort, hrange⟩
      · exact absurd hle (not_le.mpr hover)
  · rw [if_neg hle] at hsecs
    rw [hsecs, zero_mul]
    have hpos : (1 : ℚ) ≤ rounded := by
      exact_mod_cast (by omega : 1 ≤ rounded)
    constructor
    · intro _
      exact .inr (not_le.mp hle)
    · intro _
      refine ⟨?_, by simpa using hupper⟩
      rw [Nat.cast_zero]
      linarith

section

variable {quota : Quota} (hcount : quota.count ≠ 0)
  (hwindow : quota.window.nanos ≠ 0)

include hcount hwindow

theorem Bucket.le_levelAt_iff {target tokens : ℚ} (htarget : target ≤ quota.cap)
    {now later : Instant} (hlater : now ≤ later) :
    target ≤ (⟨tokens, now⟩ : Bucket).levelAt quota later ↔
      quota.nanosFor (target - tokens) ≤
        ((later.nanos - now.nanos : ℤ) : ℚ) := by
  have hcountPos : (0 : ℚ) < quota.count.toNat := by
    exact_mod_cast Quota.count_pos hcount
  have hwindowPos : (0 : ℚ) < quota.window.nanos := by
    exact_mod_cast Nat.pos_of_ne_zero hwindow
  rw [Bucket.levelAt_of_le (quota.units_mono hlater), le_min_iff,
    Quota.units_sub, Quota.nanosFor, div_le_iff₀ hcountPos,
    ← sub_le_iff_le_add', le_div_iff₀ hwindowPos]
  exact and_iff_left htarget

theorem Bucket.le_levelAt_after_secs_iff {overflowChecks : Bool}
    (now : Instant) {jitter : Duration} (hjitter : jitter.nanos ≤ secsLimit)
    {target tokens : ℚ} (htarget : target ≤ quota.cap)
    (htokens : tokens ≤ target) {secs : UInt64}
    (h : advertisedSecs overflowChecks jitter
      (quota.nanosFor (target - tokens)) = some secs) :
    (∀ later : Instant,
        now.nanos + (Duration.fromSecs secs).nanos ≤ later.nanos →
          target ≤ (⟨tokens, now⟩ : Bucket).levelAt quota later) ↔
      ¬ CutShort now jitter (quota.nanosFor (target - tokens)) := by
  have hwait := quota.nanosFor_nonneg (sub_nonneg.mpr htokens)
  have hlower := now.lower
  rw [← secs_lt_wait_iff hjitter hwait h, not_and, not_lt]
  constructor
  · intro hall hshort
    by_contra hrange
    rw [not_le] at hrange
    have hreached := hall ⟨now.nanos + (Duration.fromSecs secs).nanos,
      by omega, hrange⟩ le_rfl
    rw [Bucket.le_levelAt_iff hcount hwindow htarget
      ((Instant.le_def _ _).mpr (by simp only; omega))] at hreached
    push_cast at hreached
    linarith
  · intro hshort later hlater
    rw [Bucket.le_levelAt_iff hcount hwindow htarget
      ((Instant.le_def _ _).mpr (by omega))]
    have helapsed : ((Duration.fromSecs secs).nanos : ℚ) ≤
        ((later.nanos - now.nanos : ℤ) : ℚ) := by
      exact_mod_cast (by omega : ((Duration.fromSecs secs).nanos : ℤ) ≤
        later.nanos - now.nanos)
    by_contra hnot
    have hpast := hshort (by linarith)
    have hupper := later.upper
    omega

/-- The level only rises after the advertised seconds, so the first request
then is the one whose wait may be too long. -/
theorem Bucket.allowed_after_secs_iff {overflowChecks : Bool}
    (now : Instant) {jitter : Duration} (hjitter : jitter.nanos ≤ secsLimit)
    (hone : 1 ≤ quota.cap) {tokens : ℚ} (htokens : tokens ≤ 1)
    {secs : UInt64}
    (h : advertisedSecs overflowChecks jitter (quota.retryWait tokens) =
      some secs) :
    (∀ later : Instant,
        now.nanos + (Duration.fromSecs secs).nanos ≤ later.nanos →
          ((⟨tokens, now⟩ : Bucket).tryConsume later quota 1).2.any
            Decision.allowed = true) ↔
      ¬ CutShort now jitter (quota.retryWait tokens) ∧
        quota.RetryFits now jitter tokens := by
  have hlower := now.lower
  have henough := Bucket.le_levelAt_after_secs_iff hcount hwindow now hjitter
    hone htokens h
  have hallowed (later : Instant) := Quota.any_allowed_iff_waitFits hwindow
    (Meter.levelAt_le_cap quota.cap ((⟨tokens, now⟩ : Bucket).toMeter quota)
      (quota.units later)) 1
  rw [UInt64.toNat_one, Nat.cast_one] at hallowed
  unfold Bucket.levelAt at henough
  simp only [Bucket.tryConsume_decision, Bucket.levelAt, hallowed, forall_and,
    henough]
  refine and_congr_right fun hlong => ?_
  have hnanos : (Duration.fromSecs secs).nanos =
      nanosRoundedUp jitter (quota.retryWait tokens) := by
    obtain ⟨_, hsecs⟩ := advertisedSecs_eq_some_iff.mp h
    rw [Duration.fromSecs_nanos, hsecs, if_pos, nanosRoundedUp]
    exact not_lt.mp fun hover => hlong (.inr hover)
  have hlevel {later : Instant} (hlater : now ≤ later) :
      ((⟨tokens, now⟩ : Bucket).toMeter quota).levelAt quota.cap
          (quota.units later) =
        min (tokens + ((later.nanos - now.nanos : ℤ) : ℚ) *
          quota.count.toNat / quota.window.nanos) quota.cap := by
    rw [← Quota.units_sub]
    exact Bucket.levelAt_of_le (quota.units_mono hlater)
  rw [hnanos]
  constructor
  · intro hall hrange
    have hfirst := hall
      ⟨now.nanos + nanosRoundedUp jitter (quota.retryWait tokens),
        by omega, hrange⟩ le_rfl
    rw [hlevel ((Instant.le_def _ _).mpr (by simp only; omega))] at hfirst
    simpa [Quota.levelAtRetry] using hfirst
  · intro hfits later hlater
    have hupper := later.upper
    refine (hfits (by omega)).mono (sub_le_sub_left (sub_le_sub_right ?_ 1) _)
    rw [hlevel ((Instant.le_def _ _).mpr (by omega)), Quota.levelAtRetry]
    have helapsed : (nanosRoundedUp jitter (quota.retryWait tokens) : ℚ) ≤
        ((later.nanos - now.nanos : ℤ) : ℚ) := by
      exact_mod_cast (by omega :
        (nanosRoundedUp jitter (quota.retryWait tokens) : ℤ) ≤
          later.nanos - now.nanos)
    gcongr

end

/-! ## The answer to one request -/

/-- With no other call in between, a request at or after the advertised times
is allowed, and finds the bucket full. -/
structure Answer.Suffices (quota : Quota) (bucket : Bucket) (now : Instant)
    (answer : Answer) : Prop where
  retry : ∀ secs, answer.retryAfter = some secs → ∀ later : Instant,
    now.nanos + (Duration.fromSecs secs).nanos ≤ later.nanos →
      (bucket.tryConsume later quota 1).2.any Decision.allowed = true
  reset : ∀ reset, answer.limit.reset = some reset → ∀ later : Instant,
    now.nanos + reset.nanos ≤ later.nanos →
      bucket.levelAt quota later = quota.cap

/-- No duration in the answer overflows. -/
def Quota.Answered (quota : Quota) (overflowChecks : Bool) (jitter : Duration)
    (level : ℚ) : Prop :=
  Representable overflowChecks jitter (quota.fullWait level) ∧
    (level < 1 →
      Representable overflowChecks jitter (quota.retryWait level))

theorem Bucket.tryConsume_one (bucket : Bucket) (now : Instant)
    (quota : Quota) :
    (bucket.tryConsume now quota 1).1 =
      ⟨leftOf (bucket.levelAt quota now), now⟩ := by
  rw [Bucket.tryConsume_eq]
  simp [leftOf]

theorem Quota.decisionAt_remaining {quota : Quota} {level : ℚ}
    {decision : Decision} (h : quota.decisionAt level 1 = some decision) :
    decision.remaining = saturateU64 ⌊leftOf level⌋ := by
  obtain ⟨tokens, htokens, _, hremaining, _⟩ :=
    Quota.decisionAt_eq_some_iff.mp h
  rw [hremaining, htokens]
  simp [leftOf]

section

variable {Request K : Type*} [DecidableEq K]

omit [DecidableEq K] in
@[simp] theorem RateLimiter.advertise_reset (self : RateLimiter Request K)
    (pk : Option Text) (remaining reset : UInt64)
    (retryAfter : Option UInt64) :
    (self.advertise pk remaining reset retryAfter).limit.reset =
      some (Duration.fromSecs reset) := by
  cases pk <;> rfl

omit [DecidableEq K] in
@[simp] theorem RateLimiter.advertise_retryAfter
    (self : RateLimiter Request K) (pk : Option Text)
    (remaining reset : UInt64) (retryAfter : Option UInt64) :
    (self.advertise pk remaining reset retryAfter).retryAfter =
      retryAfter := rfl

theorem Store.consume_decision (store : Store K) (key : K) (now : Instant)
    (cost : UInt64) :
    (store.consume key now cost).2 =
      store.quota.decisionAt
        ((store.found key now).levelAt store.quota now) cost :=
  store.consumeAt_decision key now now cost

variable {encode : List UInt8 → Text} {overflowChecks : Bool}

theorem RateLimiter.serve_eq_some_iff {self : RateLimiter Request K}
    (hwindow : self.quota.window.nanos ≠ 0) {store : Store (Option K)}
    (hquota : store.quota = self.quota) {key : Option K} {now : Instant}
    {draw : UInt64} {level : ℚ}
    (hlevel : level = (store.found key now).levelAt self.quota now)
    {answer : Answer} :
    (self.serve encode overflowChecks store key now draw).2 = some answer ↔
      ∃ reset retryAfter,
        advertisedSecs overflowChecks (self.randomJitter draw)
          (self.quota.fullWait level) = some reset ∧
        (if 1 ≤ level then retryAfter = none
          else ∃ secs, advertisedSecs overflowChecks (self.randomJitter draw)
            (self.quota.retryWait level) = some secs ∧
              retryAfter = some secs) ∧
        answer = self.advertise (self.pk encode key)
          (saturateU64 ⌊leftOf level⌋) reset retryAfter := by
  have hcap : level ≤ self.quota.cap :=
    hlevel.le.trans (Meter.levelAt_le_cap _ _ _)
  simp only [RateLimiter.serve_eq, Store.consume_decision, hquota, ← hlevel,
    RateLimiter.answer_decisionAt hwindow hcap, Option.bind_eq_some_iff,
    Option.map_eq_some_iff]
  split
  · constructor
    · rintro ⟨reset, hreset, retryAfter, hnone, rfl⟩
      rw [Option.some.injEq] at hnone
      exact ⟨reset, retryAfter, hreset, hnone.symm, rfl⟩
    · rintro ⟨reset, retryAfter, hreset, rfl, rfl⟩
      exact ⟨reset, hreset, none, rfl, rfl⟩
  · simp only [Option.map_eq_some_iff]
    constructor
    · rintro ⟨reset, hreset, retryAfter, ⟨secs, hsecs, rfl⟩, rfl⟩
      exact ⟨reset, some secs, hreset, ⟨secs, hsecs, rfl⟩, rfl⟩
    · rintro ⟨reset, retryAfter, hreset, ⟨secs, hsecs, rfl⟩, rfl⟩
      exact ⟨reset, hreset, some secs, ⟨secs, hsecs, rfl⟩, rfl⟩

/-- Only who is denied is told to wait, and for as long as a token takes. -/
theorem RateLimiter.serve_retryAfter {self : RateLimiter Request K}
    (hwindow : self.quota.window.nanos ≠ 0) {store : Store (Option K)}
    (hquota : store.quota = self.quota) {key : Option K} {now : Instant}
    {draw : UInt64} {level : ℚ}
    (hlevel : level = (store.found key now).levelAt self.quota now)
    {answer : Answer}
    (hanswer : (self.serve encode overflowChecks store key now draw).2 =
      some answer) {secs : UInt64} (hsecs : answer.retryAfter = some secs) :
    level < 1 ∧ advertisedSecs overflowChecks (self.randomJitter draw)
      (self.quota.retryWait level) = some secs := by
  obtain ⟨reset, retryAfter, _, hretry, rfl⟩ :=
    (RateLimiter.serve_eq_some_iff hwindow hquota hlevel).mp hanswer
  rw [RateLimiter.advertise_retryAfter] at hsecs
  by_cases hle : 1 ≤ level
  · rw [if_pos hle, hsecs] at hretry
    simp at hretry
  · rw [if_neg hle] at hretry
    obtain ⟨found, hfound, hsame⟩ := hretry
    obtain rfl := Option.some.inj (hsecs.symm.trans hsame)
    exact ⟨not_le.mp hle, hfound⟩

theorem RateLimiter.answered_iff {self : RateLimiter Request K}
    (hwindow : self.quota.window.nanos ≠ 0) {store : Store (Option K)}
    (hquota : store.quota = self.quota) {key : Option K} {now : Instant}
    {draw : UInt64} {level : ℚ}
    (hlevel : level = (store.found key now).levelAt self.quota now) :
    (self.serve encode overflowChecks store key now draw).2.isSome ↔
      self.quota.Answered overflowChecks (self.randomJitter draw) level := by
  simp only [Option.isSome_iff_exists,
    RateLimiter.serve_eq_some_iff hwindow hquota hlevel, Quota.Answered,
    ← advertisedSecs_isSome_iff]
  constructor
  · rintro ⟨answer, reset, retryAfter, hreset, hretry, _⟩
    refine ⟨⟨reset, hreset⟩, fun hlt => ?_⟩
    rw [if_neg hlt.not_ge] at hretry
    obtain ⟨secs, hsecs, _⟩ := hretry
    exact ⟨secs, hsecs⟩
  · rintro ⟨⟨reset, hreset⟩, hretry⟩
    by_cases hle : 1 ≤ level
    · exact ⟨_, reset, none, hreset, by rw [if_pos hle], rfl⟩
    · obtain ⟨secs, hsecs⟩ := hretry (not_le.mp hle)
      refine ⟨_, reset, some secs, hreset, ?_, rfl⟩
      rw [if_neg hle]
      exact ⟨secs, hsecs, rfl⟩

/-- A property of answers that is decided by the level and the jitter. -/
theorem RateLimiter.forall_answers_iff {self : RateLimiter Request K}
    (hwindow : self.quota.window.nanos ≠ 0) {store : Store (Option K)}
    (hquota : store.quota = self.quota) {key : Option K} {now : Instant}
    {draw : UInt64} {level : ℚ}
    (hlevel : level = (store.found key now).levelAt self.quota now)
    {P : Answer → Prop} {Q : Prop}
    (hiff : ∀ {answer},
      (self.serve encode overflowChecks store key now draw).2 = some answer →
        (P answer ↔ Q)) :
    (∀ answer,
      (self.serve encode overflowChecks store key now draw).2 = some answer →
        P answer) ↔
      (self.quota.Answered overflowChecks (self.randomJitter draw) level →
        Q) := by
  have hanswered :
      (self.serve encode overflowChecks store key now draw).2.isSome ↔ _ :=
    RateLimiter.answered_iff hwindow hquota hlevel
  rw [← hanswered, Option.isSome_iff_exists]
  constructor
  · rintro hall ⟨answer, hanswer⟩
    exact (hiff hanswer).mp (hall answer hanswer)
  · intro hQ answer hanswer
    exact (hiff hanswer).mpr (hQ ⟨answer, hanswer⟩)

theorem RateLimiter.run_quota (self : RateLimiter Request K)
    (store : Store (Option K)) (conn : Conn Request) (now : Instant)
    (draw : UInt64) :
    (self.run encode overflowChecks store conn now draw).1.quota =
      store.quota := by
  rw [RateLimiter.run_eq]
  cases self.metering conn with
  | skipped => rfl
  | rejected => rfl
  | metered key => exact store.consumeAt_quota key now now 1

theorem RateLimiter.storeAfter_quota (self : RateLimiter Request K)
    (store : Store (Option K)) (arrivals : List (Arrival Request)) :
    (self.storeAfter encode overflowChecks store arrivals).quota =
      store.quota := by
  induction arrivals generalizing store with
  | nil => rfl
  | cons arrival rest ih => rw [RateLimiter.storeAfter, ih, self.run_quota]

theorem Bucket.levelAt_eq_cap_iff {bucket : Bucket} {quota : Quota}
    {now : Instant} :
    bucket.levelAt quota now = quota.cap ↔
      quota.cap ≤ bucket.levelAt quota now :=
  ⟨fun h => h.ge, fun h => le_antisymm (Meter.levelAt_le_cap _ _ _) h⟩

theorem RateLimiter.suffices_iff {self : RateLimiter Request K}
    (hcount : self.quota.count ≠ 0) (hburst : self.quota.burst ≠ 0)
    (hwindow : self.quota.window.nanos ≠ 0) {store : Store (Option K)}
    (hquota : store.quota = self.quota) {key : Option K} {now : Instant}
    {draw : UInt64} {level : ℚ}
    (hlevel : level = (store.found key now).levelAt self.quota now)
    {answer : Answer}
    (hanswer : (self.serve encode overflowChecks store key now draw).2 =
      some answer) :
    answer.Suffices self.quota
        ((store.found key now).tryConsume now self.quota 1).1 now ↔
      (level < 1 →
        ¬ CutShort now (self.randomJitter draw)
            (self.quota.retryWait level) ∧
          self.quota.RetryFits now (self.randomJitter draw) level) ∧
      ¬ CutShort now (self.randomJitter draw)
        (self.quota.fullWait level) := by
  have hjitter := self.randomJitter_nanos_le draw
  have hcap : level ≤ self.quota.cap :=
    hlevel.le.trans (Meter.levelAt_le_cap _ _ _)
  have hone := self.quota.one_le_cap hburst
  obtain ⟨reset, retryAfter, hreset, hretry, rfl⟩ :=
    (RateLimiter.serve_eq_some_iff hwindow hquota hlevel).mp hanswer
  have hfull := Bucket.le_levelAt_after_secs_iff hcount hwindow now hjitter
    le_rfl ((leftOf_le level).trans hcap) hreset
  rw [Bucket.tryConsume_one, ← hlevel, Quota.fullWait, ← hfull]
  constructor
  · rintro ⟨hsoon, hlate⟩
    refine ⟨fun hlt => ?_, fun later hlater => ?_⟩
    · rw [if_neg hlt.not_ge] at hretry
      obtain ⟨secs, hsecs, rfl⟩ := hretry
      have hleft : leftOf level = level := if_neg hlt.not_ge
      rw [← Bucket.allowed_after_secs_iff hcount hwindow now hjitter hone
        hlt.le hsecs, ← hleft]
      exact hsoon secs rfl
    · exact Bucket.levelAt_eq_cap_iff.mp
        (hlate _ (self.advertise_reset _ _ _ _) later hlater)
  · rintro ⟨hsoon, hlate⟩
    constructor
    · intro secs hsome later hlater
      obtain ⟨hlt, hsecs⟩ :=
        RateLimiter.serve_retryAfter hwindow hquota hlevel hanswer hsome
      have hleft : leftOf level = level := if_neg hlt.not_ge
      rw [hleft]
      exact (Bucket.allowed_after_secs_iff hcount hwindow now hjitter hone
        hlt.le hsecs).mpr (hsoon hlt) later hlater
    · intro duration hsome later hlater
      rw [RateLimiter.advertise_reset, Option.some.injEq] at hsome
      subst hsome
      exact Bucket.levelAt_eq_cap_iff.mpr (hlate later hlater)

/-- Whatever came before, the waits advertised with an answer suffice exactly
if there is no answer, or none of them was cut short and the wait behind the
retry is in range. -/
theorem advertised_waits_suffice_iff {Request K : Type*} [DecidableEq K]
    (encode : List UInt8 → Text) (overflowChecks : Bool)
    (self : RateLimiter Request K) (hcount : self.quota.count ≠ 0)
    (hburst : self.quota.burst ≠ 0)
    (hwindow : self.quota.window ≠ Duration.zero)
    (arrivals : List (Arrival Request)) (key : Option K) (now : Instant)
    (draw : UInt64) :
    let store := self.storeAfter encode overflowChecks
      (Store.new (Option K) self.quota) arrivals
    let bucket := store.found key now
    let level := bucket.levelAt self.quota now
    let jitter := self.randomJitter draw
    (∀ answer,
      (self.serve encode overflowChecks store key now draw).2 = some answer →
        answer.Suffices self.quota
          (bucket.tryConsume now self.quota 1).1 now) ↔
      (self.quota.Answered overflowChecks jitter level →
        (level < 1 →
          ¬ CutShort now jitter (self.quota.retryWait level) ∧
            self.quota.RetryFits now jitter level) ∧
          ¬ CutShort now jitter (self.quota.fullWait level)) := by
  intro store bucket level jitter
  have hnanos := (Duration.nanos_pos hwindow).ne'
  have hquota : store.quota = self.quota := self.storeAfter_quota _ _
  exact RateLimiter.forall_answers_iff hnanos hquota rfl
    (RateLimiter.suffices_iff hcount hburst hnanos hquota rfl)

end

/-- A limiter with a single key, for fixed runs. -/
def oneKeyLimiter (quota : Quota) : RateLimiter Unit Unit :=
  RateLimiter.new quota fun _ => some ()

/-- The store of `oneKeyLimiter` after one request at the clock's origin. -/
def storeAfterOne (quota : Quota) : Store (Option Unit) :=
  (oneKeyLimiter quota).storeAfter Base64.encode true
    (Store.new (Option Unit) quota) [⟨Conn.new (), Instant.atSec 0, 0⟩]

/-- A key that has just spent its only token of a second is told to come back
in a second. -/
theorem advertised_waits_suffice_iff_perSecond :
    ∃ answer, ((oneKeyLimiter (Quota.perSecond 1)).serve Base64.encode true
        (storeAfterOne (Quota.perSecond 1)) (some ()) (Instant.atSec 0) 0).2 =
          some answer ∧
      answer.retryAfter = some 1 ∧
      answer.Suffices (Quota.perSecond 1) ⟨0, Instant.atSec 0⟩
        (Instant.atSec 0) := by
  have hretry : ((oneKeyLimiter (Quota.perSecond 1)).serve Base64.encode true
      (storeAfterOne (Quota.perSecond 1)) (some ()) (Instant.atSec 0) 0).2.bind
        Answer.retryAfter = some 1 := by decide +kernel
  obtain ⟨answer, hanswer, hretry⟩ := Option.bind_eq_some_iff.mp hretry
  have hsuffices := (advertised_waits_suffice_iff Base64.encode true
    (oneKeyLimiter (Quota.perSecond 1)) (by decide) (by decide) (by decide)
    [⟨Conn.new (), Instant.atSec 0, 0⟩] (some ()) (Instant.atSec 0) 0).mpr
      (fun _ => by decide +kernel) answer hanswer
  have hbucket : (((storeAfterOne (Quota.perSecond 1)).found (some ())
      (Instant.atSec 0)).tryConsume (Instant.atSec 0)
        (Quota.perSecond 1) 1).1 = ⟨0, Instant.atSec 0⟩ := by
    decide +kernel
  exact ⟨answer, hanswer, hretry, hbucket ▸ hsuffices⟩

/-- Three tokens in three seconds and a nanosecond: a token takes a third of a
nanosecond more than the advertised second. -/
theorem advertised_wait_too_short :
    ¬ ∀ (self : RateLimiter Unit Unit), self.quota.count ≠ 0 →
      self.quota.burst ≠ 0 → self.quota.window ≠ Duration.zero →
      ∀ arrivals : List (Arrival Unit),
        arrivals.Pairwise (fun a b => a.now ≤ b.now) →
      ∀ (key : Option Unit) (now : Instant),
        (∀ arrival ∈ arrivals, arrival.now ≤ now) →
      ∀ draw answer,
        let store := self.storeAfter Base64.encode true
          (Store.new (Option Unit) self.quota) arrivals
        (self.serve Base64.encode true store key now draw).2 = some answer →
          answer.Suffices self.quota
            ((store.found key now).tryConsume now self.quota 1).1 now := by
  intro hclaim
  let quota := (Quota.per 3 ⟨3000000001, by decide⟩).allowBurst 1
  have hretry : ((oneKeyLimiter quota).serve Base64.encode true
      (storeAfterOne quota) (some ()) (Instant.atSec 0) 0).2.bind
        Answer.retryAfter = some 1 := by decide +kernel
  obtain ⟨answer, hanswer, hretry⟩ := Option.bind_eq_some_iff.mp hretry
  have hsuffices := hclaim (oneKeyLimiter quota) (by decide) (by decide)
    (by decide) [⟨Conn.new (), Instant.atSec 0, 0⟩] (by simp) (some ())
    (Instant.atSec 0) (by simp) 0 answer hanswer
  have hallowed := hsuffices.retry 1 hretry (Instant.atSec 1) (by decide)
  exact absurd hallowed (by decide +kernel)

end TrilliumRatelimit
