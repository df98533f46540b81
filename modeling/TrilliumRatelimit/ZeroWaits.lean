import TrilliumRatelimit.AdvertisedWaits

/-!
# Waits of no time

Rounding up to seconds makes every wait at least one second, except where
nothing is left of it before: a wait of at most half a nanosecond, and any wait
for a quota that never refills, is rounded to nothing.
-/

namespace TrilliumRatelimit

open StructuredField CappedLevel

/-- Whoever has to wait is told to wait for at least a second. -/
structure Answer.Delays (quota : Quota) (bucket : Bucket)
    (answer : Answer) : Prop where
  retry : ∀ secs, answer.retryAfter = some secs → 1 ≤ secs.toNat
  reset : bucket.tokens ≠ quota.cap → ∀ secs,
    answer.limit.reset = some (Duration.fromSecs secs) → 1 ≤ secs.toNat

/-- A wait that comes to no seconds: no jitter, and no refill or at most half a
nanosecond of it, or more seconds than there are. -/
def Quota.ComesToZero (quota : Quota) (jitter : Duration) (wait : ℚ) : Prop :=
  (jitter = Duration.zero ∧ (quota.count = 0 ∨ wait ≤ 1 / 2)) ∨
    secsLimit < nanosWithJitter jitter wait

instance (quota : Quota) (jitter : Duration) (wait : ℚ) :
    Decidable (quota.ComesToZero jitter wait) :=
  inferInstanceAs (Decidable (_ ∨ _))

theorem roundHalfEven_toNat_eq_zero_iff {x : ℚ} (hx : 0 ≤ x) :
    (roundHalfEven x).toNat = 0 ↔ x ≤ 1 / 2 := by
  have hround := roundHalfEven_nonneg hx
  have hnear := abs_le.mp (abs_roundHalfEven_sub_le x)
  constructor
  · intro hzero
    have heq : roundHalfEven x = 0 := by omega
    rw [heq] at hnear
    push_cast at hnear
    linarith
  · intro hle
    have hhalf : roundHalfEven (1 / 2) = 0 := by decide +kernel
    have hmono := roundHalfEven_mono hle
    omega

theorem secs_eq_zero_iff {quota : Quota} {overflowChecks : Bool}
    {jitter : Duration} {tokens : ℚ} (htokens : 0 ≤ tokens) {secs : UInt64}
    (h : advertisedSecs overflowChecks jitter (quota.nanosFor tokens) =
      some secs) :
    secs.toNat = 0 ↔ quota.ComesToZero jitter (quota.nanosFor tokens) := by
  obtain ⟨_, hsecs⟩ := advertisedSecs_eq_some_iff.mp h
  have hwait := quota.nanosFor_nonneg htokens
  have hzero : quota.count = 0 ∨ quota.nanosFor tokens ≤ 1 / 2 ↔
      (roundHalfEven (quota.nanosFor tokens)).toNat = 0 := by
    rw [roundHalfEven_toNat_eq_zero_iff hwait]
    refine or_iff_right_of_imp fun hcount => ?_
    simp [Quota.nanosFor, hcount]
  have hnone : jitter = Duration.zero ↔ jitter.nanos = 0 :=
    ⟨fun h => h ▸ rfl, fun h => Duration.ext h⟩
  unfold Quota.ComesToZero
  rw [hzero, hnone, hsecs]
  by_cases hle : nanosWithJitter jitter (quota.nanosFor tokens) ≤ secsLimit
  · rw [if_pos hle]
    unfold nanosWithJitter nanosPerSec at *
    omega
  · rw [if_neg hle]
    exact iff_of_true rfl (.inr (not_le.mp hle))

variable {Request K : Type*} [DecidableEq K] {encode : List UInt8 → Text}
  {overflowChecks : Bool}

theorem RateLimiter.delays_iff {self : RateLimiter Request K}
    (hwindow : self.quota.window.nanos ≠ 0) {store : Store (Option K)}
    (hquota : store.quota = self.quota) {key : Option K} {now : Instant}
    {draw : UInt64} {level : ℚ}
    (hlevel : level = (store.found key now).levelAt self.quota now)
    {answer : Answer}
    (hanswer : (self.serve encode overflowChecks store key now draw).2 =
      some answer) :
    answer.Delays self.quota
        ((store.found key now).tryConsume now self.quota 1).1 ↔
      (level < 1 → ¬ self.quota.ComesToZero (self.randomJitter draw)
        (self.quota.retryWait level)) ∧
      (leftOf level ≠ self.quota.cap →
        ¬ self.quota.ComesToZero (self.randomJitter draw)
          (self.quota.fullWait level)) := by
  have hcap : level ≤ self.quota.cap :=
    hlevel.le.trans (Meter.levelAt_le_cap _ _ _)
  obtain ⟨reset, retryAfter, hreset, hretry, rfl⟩ :=
    (RateLimiter.serve_eq_some_iff hwindow hquota hlevel).mp hanswer
  have hfull := secs_eq_zero_iff
    (sub_nonneg.mpr ((leftOf_le level).trans hcap)) hreset
  have hleft : ((store.found key now).tryConsume now self.quota 1).1.tokens =
      leftOf level := by rw [Bucket.tryConsume_one, hlevel]
  unfold Quota.fullWait
  rw [← hfull]
  constructor
  · rintro ⟨hdenied, hused⟩
    rw [hleft] at hused
    constructor
    · intro hlt
      rw [if_neg hlt.not_ge] at hretry
      obtain ⟨secs, hsecs, hsome⟩ := hretry
      have hzero := secs_eq_zero_iff (sub_nonneg.mpr hlt.le) hsecs
      unfold Quota.retryWait
      rw [← hzero]
      exact Nat.one_le_iff_ne_zero.mp (hdenied secs hsome)
    · intro hne
      exact Nat.one_le_iff_ne_zero.mp
        (hused hne reset (self.advertise_reset _ _ _ _))
  · rintro ⟨hdenied, hused⟩
    constructor
    · intro secs hsome
      obtain ⟨hlt, hsecs⟩ :=
        RateLimiter.serve_retryAfter hwindow hquota hlevel hanswer hsome
      rw [Nat.one_le_iff_ne_zero, Ne,
        secs_eq_zero_iff (sub_nonneg.mpr hlt.le) hsecs]
      exact hdenied hlt
    · intro hne secs hsome
      rw [hleft] at hne
      rw [RateLimiter.advertise_reset, Option.some.injEq] at hsome
      have hsame : secs = reset := by
        rw [← Duration.asSecs_fromSecs secs, ← hsome,
          Duration.asSecs_fromSecs]
      rw [hsame]
      exact Nat.one_le_iff_ne_zero.mpr (hused hne)

/-- Whatever came before, nobody who has to wait is told to wait for no time
exactly if there is no answer, or none of its waits comes to nothing. -/
theorem blocked_callers_delayed_iff (encode : List UInt8 → Text)
    (overflowChecks : Bool) (self : RateLimiter Request K)
    (hwindow : self.quota.window ≠ Duration.zero)
    (arrivals : List (Arrival Request)) (key : Option K) (now : Instant)
    (draw : UInt64) :
    let store := self.storeAfter encode overflowChecks
      (Store.new (Option K) self.quota) arrivals
    let bucket := store.found key now
    let level := bucket.levelAt self.quota now
    let jitter := self.randomJitter draw
    (∀ answer,
      (self.serve encode overflowChecks store key now draw).2 = some answer →
        answer.Delays self.quota (bucket.tryConsume now self.quota 1).1) ↔
      (self.quota.Answered overflowChecks jitter level →
        (level < 1 →
          ¬ self.quota.ComesToZero jitter (self.quota.retryWait level)) ∧
        (leftOf level ≠ self.quota.cap →
          ¬ self.quota.ComesToZero jitter (self.quota.fullWait level))) := by
  intro store bucket level jitter
  have hnanos := (Duration.nanos_pos hwindow).ne'
  have hquota : store.quota = self.quota := self.storeAfter_quota _ _
  exact RateLimiter.forall_answers_iff hnanos hquota rfl
    (RateLimiter.delays_iff hnanos hquota rfl)

/-- A tenth of a second is advertised as a second. -/
theorem blocked_callers_delayed_iff_perSecond :
    ∃ answer, ((oneKeyLimiter ((Quota.perSecond 10).allowBurst 1)).serve
        Base64.encode true
        (storeAfterOne ((Quota.perSecond 10).allowBurst 1)) (some ())
        (Instant.atSec 0) 0).2 = some answer ∧
      answer.retryAfter = some 1 ∧
      answer.Delays ((Quota.perSecond 10).allowBurst 1)
        ⟨0, Instant.atSec 0⟩ := by
  let quota := (Quota.perSecond 10).allowBurst 1
  have hretry : ((oneKeyLimiter quota).serve Base64.encode true
      (storeAfterOne quota) (some ()) (Instant.atSec 0) 0).2.bind
        Answer.retryAfter = some 1 := by decide +kernel
  obtain ⟨answer, hanswer, hretry⟩ := Option.bind_eq_some_iff.mp hretry
  have hdelays := (blocked_callers_delayed_iff Base64.encode true
    (oneKeyLimiter quota) (by decide)
    [⟨Conn.new (), Instant.atSec 0, 0⟩] (some ()) (Instant.atSec 0) 0).mpr
      (fun _ => by decide +kernel) answer hanswer
  have hbucket : (((storeAfterOne quota).found (some ())
      (Instant.atSec 0)).tryConsume (Instant.atSec 0) quota 1).1 =
        ⟨0, Instant.atSec 0⟩ := by
    decide +kernel
  exact ⟨answer, hanswer, hretry, hbucket ▸ hdelays⟩

/-- A quota of nothing with a burst of one: the second request is denied and
told to come back at once. -/
theorem blocked_caller_not_delayed :
    ¬ ∀ (self : RateLimiter Unit Unit),
      self.quota.window ≠ Duration.zero →
      ∀ (arrivals : List (Arrival Unit)) (key : Option Unit) (now : Instant)
        (draw : UInt64) (answer : Answer),
        let store := self.storeAfter Base64.encode true
          (Store.new (Option Unit) self.quota) arrivals
        (self.serve Base64.encode true store key now draw).2 = some answer →
          answer.Delays self.quota
            ((store.found key now).tryConsume now self.quota 1).1 := by
  intro hclaim
  let quota := (Quota.perSecond 0).allowBurst 1
  have hretry : ((oneKeyLimiter quota).serve Base64.encode true
      (storeAfterOne quota) (some ()) (Instant.atSec 0) 0).2.bind
        Answer.retryAfter = some 0 := by decide +kernel
  obtain ⟨answer, hanswer, hretry⟩ := Option.bind_eq_some_iff.mp hretry
  have hdelays := hclaim (oneKeyLimiter quota) (by decide)
    [⟨Conn.new (), Instant.atSec 0, 0⟩] (some ()) (Instant.atSec 0) 0 answer
      hanswer
  exact absurd (hdelays.retry 0 hretry) (by decide)

end TrilliumRatelimit
