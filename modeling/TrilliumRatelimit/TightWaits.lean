import TrilliumRatelimit.AdvertisedWaits

/-!
# The waits in a decision are tight

A wait in a decision is the exact one, rounded to the nearest nanosecond.  So
whoever comes back a nanosecond before it is over is too early, and a
nanosecond after it is over nobody is.
-/

namespace TrilliumRatelimit

open CappedLevel

/-- What the waits in a decision say about the bucket it leaves behind, with
no call in between.  A later attempt may leave less than is left now, so its
decision may overflow although this one did not. -/
structure Decision.Tight (quota : Quota) (bucket : Bucket) (now : Instant)
    (cost : UInt64) (decision : Decision) : Prop where
  early : ∀ wait, decision.retryAfter = some wait → ∀ t : Instant, now ≤ t →
    t.nanos ≤ now.nanos + wait.nanos - 1 →
      ∃ answer, (bucket.tryConsume t quota cost).2 = some answer ∧
        answer.allowed = false
  late : cost ≤ quota.burst → ∀ wait, decision.retryAfter = some wait →
    ∀ t : Instant, now.nanos + wait.nanos + 1 ≤ t.nanos →
      bucket.allows quota t cost = true ∧
        ∀ answer, (bucket.tryConsume t quota cost).2 = some answer →
          answer.allowed = true
  notFull : ∀ t : Instant, now ≤ t →
    t.nanos ≤ now.nanos + decision.timeToFull.nanos - 1 →
      bucket.levelAt quota t < quota.cap
  full : ∀ t : Instant, now.nanos + decision.timeToFull.nanos + 1 ≤ t.nanos →
    bucket.levelAt quota t = quota.cap

section

variable {quota : Quota} (hcount : quota.count ≠ 0)
  (hwindow : quota.window.nanos ≠ 0)

include hcount hwindow

/-! ## Half a nanosecond to either side -/

theorem secondsToRefill_nanos {tokens : ℚ} (htokens : 0 < tokens)
    {wait : Duration}
    (h : secondsToRefill tokens (refillPerSecond quota) = some wait) :
    |(wait.nanos : ℚ) - quota.nanosFor tokens| ≤ 1 / 2 := by
  rw [secondsToRefill_of_pos hcount hwindow htokens,
    Duration.ofNanos?_eq_some_iff] at h
  have hnonneg := roundHalfEven_nonneg (quota.nanosFor_nonneg htokens.le)
  have hcast : (wait.nanos : ℚ) = roundHalfEven (quota.nanosFor tokens) := by
    rw [h]
    exact_mod_cast Int.toNat_of_nonneg hnonneg
  rw [hcast]
  exact abs_roundHalfEven_sub_le _

theorem Quota.nanosFor_le_wait {tokens : ℚ} {wait : Duration}
    (h : secondsToRefill tokens (refillPerSecond quota) = some wait) :
    quota.nanosFor tokens ≤ wait.nanos + 1 / 2 := by
  by_cases htokens : 0 < tokens
  · have hnear := abs_le.mp (secondsToRefill_nanos hcount hwindow htokens h)
    linarith
  · have hnanos : (0 : ℚ) ≤ wait.nanos := Nat.cast_nonneg _
    have hnonpos : quota.nanosFor tokens ≤ 0 := by
      unfold Quota.nanosFor
      rw [mul_div_assoc]
      exact mul_nonpos_of_nonpos_of_nonneg (not_lt.mp htokens) (by positivity)
    linarith

theorem Quota.wait_le_nanosFor {tokens : ℚ} {wait : Duration}
    (h : secondsToRefill tokens (refillPerSecond quota) = some wait)
    (hwait : 0 < wait.nanos) :
    (wait.nanos : ℚ) ≤ quota.nanosFor tokens + 1 / 2 := by
  by_cases htokens : 0 < tokens
  · have hnear := abs_le.mp (secondsToRefill_nanos hcount hwindow htokens h)
    linarith
  · rw [secondsToRefill_of_nonpos (not_lt.mp htokens), Option.some.injEq] at h
    rw [← h, Duration.zero_nanos] at hwait
    exact absurd hwait (lt_irrefl 0)

/-! ## Before and after a wait -/

theorem Bucket.levelAt_lt_of_early {tokens target : ℚ} {now t : Instant}
    {wait : Duration}
    (h : secondsToRefill (target - tokens) (refillPerSecond quota) =
      some wait)
    (hnow : now ≤ t) (ht : t.nanos ≤ now.nanos + wait.nanos - 1) :
    (⟨tokens, now⟩ : Bucket).levelAt quota t < target := by
  have hle := (Instant.le_def _ _).mp hnow
  rcases lt_or_ge quota.cap target with hcap | hcap
  · exact (Meter.levelAt_le_cap _ _ _).trans_lt hcap
  · rw [← not_le, Bucket.le_levelAt_iff hcount hwindow hcap hnow, not_le]
    have hwait := Quota.wait_le_nanosFor hcount hwindow h (by omega)
    have helapsed : ((t.nanos - now.nanos : ℤ) : ℚ) ≤ wait.nanos - 1 := by
      exact_mod_cast (by omega : t.nanos - now.nanos ≤ wait.nanos - 1)
    linarith

theorem Bucket.le_levelAt_of_late {tokens target : ℚ}
    (htarget : target ≤ quota.cap) {now t : Instant} {wait : Duration}
    (h : secondsToRefill (target - tokens) (refillPerSecond quota) =
      some wait)
    (ht : now.nanos + wait.nanos + 1 ≤ t.nanos) :
    target ≤ (⟨tokens, now⟩ : Bucket).levelAt quota t := by
  rw [Bucket.le_levelAt_iff hcount hwindow htarget
    ((Instant.le_def _ _).mpr (by omega))]
  have hwait := Quota.nanosFor_le_wait hcount hwindow h
  have helapsed : (wait.nanos : ℚ) + 1 ≤ ((t.nanos - now.nanos : ℤ) : ℚ) := by
    exact_mod_cast (by omega : (wait.nanos : ℤ) + 1 ≤ t.nanos - now.nanos)
  linarith

end

theorem Bucket.tokens_le_levelAt {quota : Quota} {tokens : ℚ}
    (htokens : tokens ≤ quota.cap) (now t : Instant) :
    tokens ≤ (⟨tokens, now⟩ : Bucket).levelAt quota t :=
  le_min (le_add_of_nonneg_right (le_max_right _ _)) htokens

theorem Bucket.allowed_of_tryConsume {quota : Quota} {bucket : Bucket}
    {t : Instant} {cost : UInt64} {decision : Decision}
    (h : (bucket.tryConsume t quota cost).2 = some decision) :
    decision.allowed = bucket.allows quota t cost := by
  rw [Bucket.tryConsume_decision] at h
  exact Quota.decisionAt_allowed h

/-- A denial at a higher level is returned if one at this level was. -/
theorem Quota.decisionAt_isSome_of_denied {quota : Quota} {level higher : ℚ}
    {cost : UInt64} (hle : level ≤ higher) (hlt : higher < cost.toNat)
    (h : (quota.decisionAt level cost).isSome) :
    (quota.decisionAt higher cost).isSome := by
  rw [Quota.decisionAt_isSome_iff] at h ⊢
  rw [if_neg (hle.trans_lt hlt).not_ge] at h
  rw [if_neg hlt.not_ge]
  exact ⟨secondsToRefill_isSome_mono (by linarith) h.1, fun _ =>
    secondsToRefill_isSome_mono (by linarith) (h.2 (hle.trans_lt hlt))⟩

/-- Whatever the bucket, the waits in a decision are tight to the
nanosecond. -/
theorem waits_are_tight {quota : Quota} (hcount : quota.count ≠ 0)
    (hwindow : quota.window ≠ Duration.zero) (bucket : Bucket) (now : Instant)
    (cost : UInt64) {decision : Decision}
    (h : (bucket.tryConsume now quota cost).2 = some decision) :
    decision.Tight quota (bucket.tryConsume now quota cost).1 now cost := by
  have hnanos := (Duration.nanos_pos hwindow).ne'
  have hcap : bucket.levelAt quota now ≤ quota.cap :=
    Meter.levelAt_le_cap _ _ _
  rw [Bucket.tryConsume_decision] at h
  have hfull := Quota.decisionAt_timeToFull h
  rw [Bucket.tryConsume_eq]
  refine ⟨?_, ?_, ?_, ?_⟩
  · intro wait hwait t hnow ht
    obtain ⟨hlt, hrefill⟩ := Quota.decisionAt_retryAfter h hwait
    rw [if_neg hlt.not_ge]
    have hearly := Bucket.levelAt_lt_of_early hcount hnanos hrefill hnow ht
    have hle := Bucket.tokens_le_levelAt hcap now t
    obtain ⟨answer, hanswer⟩ := Option.isSome_iff_exists.mp
      (Quota.decisionAt_isSome_of_denied hle hearly
        (Option.isSome_of_eq_some h))
    refine ⟨answer, by rw [Bucket.tryConsume_decision, hanswer], ?_⟩
    rw [Quota.decisionAt_allowed hanswer]
    exact decide_eq_false hearly.not_ge
  · intro hcost wait hwait t ht
    have hburst : (cost.toNat : ℚ) ≤ quota.cap := by
      rw [Quota.cap, Nat.cast_le]
      exact UInt64.le_iff_toNat_le.mp hcost
    obtain ⟨hlt, hrefill⟩ := Quota.decisionAt_retryAfter h hwait
    rw [if_neg hlt.not_ge]
    have hallows := decide_eq_true
      (Bucket.le_levelAt_of_late hcount hnanos hburst hrefill ht)
    exact ⟨hallows, fun answer hanswer =>
      (Bucket.allowed_of_tryConsume hanswer).trans hallows⟩
  · exact fun t hnow ht =>
      Bucket.levelAt_lt_of_early hcount hnanos hfull hnow ht
  · exact fun t ht => Bucket.levelAt_eq_cap_iff.mpr
      (Bucket.le_levelAt_of_late hcount hnanos le_rfl hfull ht)

/-- A token takes a second and a third of a nanosecond, and the wait for it is
a second. -/
theorem waits_are_tight_third :
    let quota := (Quota.per 3 ⟨3000000001, by decide⟩).allowBurst 1
    let empty := ((Bucket.new (Instant.atSec 0) quota).tryConsume
      (Instant.atSec 0) quota 1).1
    (⟨false, 0, Duration.fromSecs 1, some (Duration.fromSecs 1)⟩ :
        Decision).Tight quota
      (empty.tryConsume (Instant.atSec 0) quota 1).1 (Instant.atSec 0) 1 := by
  intro quota empty
  exact waits_are_tight (by decide) (by decide) empty (Instant.atSec 0) 1
    (by decide +kernel)

end TrilliumRatelimit
