import TrilliumRatelimit.AdvertisedWaits

/-!
# The limiter with exact waits

The limiter as it would be if waits were not rounded to nanoseconds.  Waits are
still rounded up to whole seconds, and seconds beyond a `u64` still panic.  On
waits that are whole nanoseconds it is the limiter.
-/

namespace TrilliumRatelimit

open StructuredField CappedLevel

def exactSecs (jitter : Duration) (wait : ℚ) : Option UInt64 :=
  let secs := ⌈(wait + jitter.nanos) / nanosPerSec⌉₊
  if secs < 2 ^ 64 then some (UInt64.ofNat secs) else none

/-- What comes of a request: whether it is admitted, and what is advertised
unless that panics. -/
structure Reply where
  admitted : Bool
  answer : Option Answer
  deriving DecidableEq

section

variable {Request K : Type*} [DecidableEq K]

def RateLimiter.exactAnswer (self : RateLimiter Request K)
    (pk : Option Text) (level : ℚ) (jitter : Duration) : Option Answer := do
  let reset ← exactSecs jitter (self.quota.fullWait level)
  let retryAfter ←
    if 1 ≤ level then some none
    else (exactSecs jitter (self.quota.retryWait level)).map some
  return self.advertise pk (saturateU64 ⌊leftOf level⌋) reset retryAfter

def RateLimiter.exactServe (self : RateLimiter Request K)
    (encode : List UInt8 → Text) (store : Store (Option K)) (key : Option K)
    (now : Instant) (draw : UInt64) : Store (Option K) × Reply :=
  let level := (store.found key now).levelAt self.quota now
  ({ store with
      entries := Function.update store.entries key
        (some ⟨⟨leftOf level, now⟩, now⟩) },
    { admitted := 1 ≤ level
      answer := self.exactAnswer (self.pk encode key) level
        (self.randomJitter draw) })

end

/-! ## Against the limiter -/

theorem ceil_div_nanosPerSec (nanos : ℕ) :
    ⌈(nanos : ℚ) / nanosPerSec⌉₊ =
      (nanos + (nanosPerSec - 1)) / nanosPerSec := by
  have hceil (k : ℕ) : ⌈(nanos : ℚ) / nanosPerSec⌉₊ ≤ k ↔
      (nanos + (nanosPerSec - 1)) / nanosPerSec ≤ k := by
    rw [Nat.ceil_le, div_le_iff₀ nanosPerSec_pos]
    have hcast : (nanos : ℚ) ≤ k * nanosPerSec ↔ nanos ≤ k * nanosPerSec := by
      exact_mod_cast Iff.rfl
    rw [hcast]
    unfold nanosPerSec
    omega
  exact le_antisymm ((hceil _).mpr le_rfl) ((hceil _).mp le_rfl)

theorem advertisedSecs_eq_exactSecs {jitter : Duration} {wait : ℚ}
    (hwait : 0 ≤ wait) (hwhole : (roundHalfEven wait : ℚ) = wait) :
    advertisedSecs true jitter wait = exactSecs jitter wait := by
  obtain ⟨nanos, hnanos⟩ :=
    Int.eq_ofNat_of_zero_le (roundHalfEven_nonneg hwait)
  have hsum : wait + jitter.nanos = ((nanosWithJitter jitter wait : ℕ) : ℚ) := by
    rw [nanosWithJitter, hnanos, Int.toNat_natCast, ← hwhole, hnanos]
    push_cast
    rfl
  have hfits : (nanosWithJitter jitter wait + (nanosPerSec - 1)) / nanosPerSec <
      2 ^ 64 ↔ Representable true jitter wait := by
    simp only [Representable, forall_const]
    unfold secsLimit durationLimit nanosPerSec
    omega
  rw [exactSecs, hsum, ceil_div_nanosPerSec]
  apply Option.ext
  intro secs
  rw [advertisedSecs_eq_some_iff, ← hfits]
  by_cases hlt :
      (nanosWithJitter jitter wait + (nanosPerSec - 1)) / nanosPerSec < 2 ^ 64
  · have hle : nanosWithJitter jitter wait ≤ secsLimit := by
      unfold secsLimit nanosPerSec at *
      omega
    rw [if_pos hlt, if_pos hle, and_iff_right hlt, Option.some.injEq,
      ← UInt64.toNat_inj, UInt64.toNat_ofNat_of_lt' hlt, eq_comm]
  · rw [if_neg hlt]
    exact iff_of_false (fun h => hlt h.1) (by simp)

theorem exactSecs_le {jitter : Duration} {wait : ℚ} {secs : UInt64}
    (h : exactSecs jitter wait = some secs) :
    wait ≤ (Duration.fromSecs secs).nanos := by
  simp only [exactSecs, Option.ite_none_right_eq_some, Option.some.injEq] at h
  obtain ⟨hlt, rfl⟩ := h
  have hceil := Nat.le_ceil ((wait + jitter.nanos) / (nanosPerSec : ℚ))
  rw [div_le_iff₀ nanosPerSec_pos] at hceil
  have hjitter : (0 : ℚ) ≤ jitter.nanos := Nat.cast_nonneg _
  rw [Duration.fromSecs_nanos, UInt64.toNat_ofNat_of_lt' hlt]
  push_cast
  linarith

section

variable {Request K : Type*} [DecidableEq K]

/-- Where both waits are whole nanoseconds, a request that is answered is
answered exactly, and leaves the same store. -/
theorem RateLimiter.serve_eq_exactServe {self : RateLimiter Request K}
    (hwindow : self.quota.window.nanos ≠ 0) {store : Store (Option K)}
    (hquota : store.quota = self.quota) {key : Option K} {now : Instant}
    {level : ℚ}
    (hlevel : level = (store.found key now).levelAt self.quota now)
    (hfull : (roundHalfEven (self.quota.fullWait level) : ℚ) =
      self.quota.fullWait level)
    (hretry : level < 1 → (roundHalfEven (self.quota.retryWait level) : ℚ) =
      self.quota.retryWait level)
    (encode : List UInt8 → Text) (draw : UInt64) :
    (self.serve encode true store key now draw).2 =
        (self.exactServe encode store key now draw).2.answer ∧
      ((self.serve encode true store key now draw).2.isSome →
        (self.serve encode true store key now draw).1 =
          (self.exactServe encode store key now draw).1) := by
  have hcap : level ≤ self.quota.cap :=
    hlevel.le.trans (Meter.levelAt_le_cap _ _ _)
  have hfullWait : 0 ≤ self.quota.fullWait level :=
    self.quota.nanosFor_nonneg
      (sub_nonneg.mpr ((leftOf_le level).trans hcap))
  constructor
  · simp only [RateLimiter.serve_eq, Store.consume_decision, hquota, ← hlevel,
      RateLimiter.answer_decisionAt hwindow hcap, RateLimiter.exactServe,
      RateLimiter.exactAnswer, advertisedSecs_eq_exactSecs hfullWait hfull]
    by_cases hle : 1 ≤ level
    · simp [hle]
    · have hretryWait : 0 ≤ self.quota.retryWait level :=
        self.quota.nanosFor_nonneg (by linarith)
      rw [advertisedSecs_eq_exactSecs hretryWait (hretry (not_le.mp hle))]
      cases exactSecs (self.randomJitter draw)
          (self.quota.retryWait level) with
      | none => simp [hle]
      | some secs => simp [hle]
  · intro hanswered
    obtain ⟨answer, hanswer⟩ := Option.isSome_iff_exists.mp hanswered
    obtain ⟨decision, hsome, _⟩ := Option.bind_eq_some_iff.mp hanswer
    have hdecision : (store.consume key now 1).2 = some decision := hsome
    rcases store.consume_cases key now 1 with
      ⟨_, hconsume⟩ | ⟨next, _, hnext, hconsume⟩
    · rw [hconsume] at hdecision
      simp at hdecision
    · have hleft := (store.found key now).tryConsume_one now store.quota
      rw [hnext, hquota, ← hlevel] at hleft
      simp only [RateLimiter.serve_eq, hconsume, RateLimiter.exactServe,
        ← hlevel, ← hleft]

end

end TrilliumRatelimit
