import TrilliumRatelimit.Throttle

/-!
# How fast the throttle paces

The pacing interval is `window / count` rounded to the nearest nanosecond.
Where that rounds up or is exact, no interval of a run holds more departures
than the quota allows.  Where it rounds down, each interval of the schedule is
a little too short, and the departures of a busy scope outrun the quota.
-/

namespace TrilliumRatelimit

open VirtualSchedule

/-- `window / count` in nanoseconds is whole, or rounds up to the nearest;
a tie rounds to even. -/
def Quota.roundsUp (quota : Quota) : Bool :=
  let rest := quota.window.nanos % quota.count.toNat
  rest = 0 || quota.count.toNat < 2 * rest ||
    (quota.count.toNat = 2 * rest &&
      quota.window.nanos / quota.count.toNat % 2 = 1)

/-- Departures of one scope within a closed interval. -/
def departuresWithin (start finish : Instant) (slots : List Slot) : ℕ :=
  within start finish (slots.map Slot.departs)

/-- In every run of claims, no closed interval holds more departures of a
scope than the quota allows in it. -/
def PacesWithinQuota {Url : Type*} (originScope : Url → String)
    (quota : Quota) : Prop :=
  ∀ (scope : String) (state : ThrottleState) (claims : List Claim),
    (claimTimes scope claims).Pairwise (· ≤ ·) →
    (Throttle.new originScope quota).allFit scope state claims = true →
    ∀ start finish : Instant, start ≤ finish →
      (departuresWithin start finish
        ((Throttle.new originScope quota).slots scope state claims) : ℚ) ≤
        intervalBudget quota start finish

/-! ## The rounded interval -/

theorem Quota.interval_nanos_of_count {quota : Quota}
    (hcount : quota.count ≠ 0) :
    (quota.interval.nanos : ℤ) =
      roundHalfEven (quota.window.nanos / quota.count.toNat : ℚ) := by
  rw [Quota.interval_nanos, max_eq_left (Quota.count_pos hcount)]
  exact Int.toNat_of_nonneg (roundHalfEven_nonneg (by positivity))

theorem roundHalfEven_div (a : ℕ) {b : ℕ} (hb : 0 < b) :
    roundHalfEven (a / b : ℚ) =
      if 2 * (a % b) < b then ((a / b : ℕ) : ℤ)
      else if b < 2 * (a % b) then ((a / b : ℕ) : ℤ) + 1
      else if a / b % 2 = 0 then ((a / b : ℕ) : ℤ)
      else ((a / b : ℕ) : ℤ) + 1 := by
  have hbRat : (0 : ℚ) < b := by exact_mod_cast hb
  have hfloor : ⌊(a / b : ℚ)⌋ = ((a / b : ℕ) : ℤ) := by
    exact Rat.floor_natCast_div_natCast a b
  have hsum : (a : ℚ) = b * (a / b : ℕ) + (a % b : ℕ) := by
    exact_mod_cast (Nat.div_add_mod a b).symm
  have hrest : (a / b : ℚ) - ((a / b : ℕ) : ℤ) = (a % b : ℕ) / b := by
    rw [eq_div_iff hbRat.ne', sub_mul, div_mul_cancel₀ _ hbRat.ne', Int.cast_natCast]
    linarith
  have hlow : (a % b : ℕ) / (b : ℚ) < 1 / 2 ↔ 2 * (a % b) < b := by
    rw [div_lt_div_iff₀ hbRat two_pos, one_mul, mul_comm]
    exact_mod_cast Iff.rfl
  have hhigh : 1 / 2 < (a % b : ℕ) / (b : ℚ) ↔ b < 2 * (a % b) := by
    rw [div_lt_div_iff₀ two_pos hbRat, one_mul, mul_comm]
    exact_mod_cast Iff.rfl
  have heven : Even ((a / b : ℕ) : ℤ) ↔ a / b % 2 = 0 := by
    rw [Int.even_coe_nat, Nat.even_iff]
  simp only [roundHalfEven, hfloor, hrest, hlow, hhigh, heven]

/-- Rounding up is what makes `count` intervals fill the window. -/
theorem Quota.window_le_of_roundsUp {quota : Quota}
    (hcount : quota.count ≠ 0) (hround : quota.roundsUp = true) :
    quota.window.nanos ≤ quota.interval.nanos * quota.count.toNat := by
  have hpos := Quota.count_pos hcount
  have hinterval := Quota.interval_nanos_of_count hcount
  have hsum := Nat.div_add_mod quota.window.nanos quota.count.toNat
  have hrest := Nat.mod_lt quota.window.nanos hpos
  rw [roundHalfEven_div _ hpos] at hinterval
  simp only [Quota.roundsUp, Bool.or_eq_true, Bool.and_eq_true,
    decide_eq_true_eq] at hround
  generalize quota.window.nanos % quota.count.toNat = rest at *
  generalize quota.window.nanos / quota.count.toNat = whole at *
  have hor : quota.interval.nanos = whole + 1 ∨
      (quota.interval.nanos = whole ∧ rest = 0) := by
    split_ifs at hinterval <;> omega
  rcases hor with hup | ⟨heq, hzero⟩
  · rw [hup, add_one_mul, mul_comm]
    omega
  · rw [heq, mul_comm]
    omega

theorem Quota.interval_of_not_roundsUp {quota : Quota}
    (hcount : quota.count ≠ 0) (hround : quota.roundsUp = false) :
    quota.interval.nanos = quota.window.nanos / quota.count.toNat ∧
      quota.interval.nanos * quota.count.toNat < quota.window.nanos := by
  have hpos := Quota.count_pos hcount
  have hinterval := Quota.interval_nanos_of_count hcount
  have hsum := Nat.div_add_mod quota.window.nanos quota.count.toNat
  have hrest := Nat.mod_lt quota.window.nanos hpos
  rw [roundHalfEven_div _ hpos] at hinterval
  simp only [Quota.roundsUp, Bool.or_eq_false_iff, Bool.and_eq_false_iff,
    decide_eq_false_iff_not] at hround
  generalize quota.window.nanos % quota.count.toNat = rest at *
  generalize quota.window.nanos / quota.count.toNat = whole at *
  have heq : quota.interval.nanos = whole := by
    split_ifs at hinterval <;> omega
  refine ⟨heq, ?_⟩
  rw [heq, mul_comm]
  omega

/-! ## Runs of claims -/

theorem departuresWithin_eq (start finish : Instant) (slots : List Slot) :
    departuresWithin start finish slots =
      within start.nanos finish.nanos
        (slots.map fun slot => slot.departs.nanos) := by
  simp only [departuresWithin, within, List.countP_map]
  rfl

theorem departuresWithin_mul_interval_le {Url : Type*}
    (originScope : Url → String) {quota : Quota}
    (hburst : 1 ≤ quota.burst.toNat) {scope : String} {state : ThrottleState}
    {claims : List Claim}
    (hfit : (Throttle.new originScope quota).allFit scope state claims = true)
    {start finish : Instant} (hle : start ≤ finish) :
    (departuresWithin start finish
        ((Throttle.new originScope quota).slots scope state claims) : ℤ) *
        quota.interval.nanos ≤
      finish.nanos - start.nanos +
        quota.burst.toNat * quota.interval.nanos := by
  have hslots : ∃ tat : Instant,
      ∀ now ∈ (claimTimes scope claims).head?, (state scope).getD now = tat := by
    cases (claimTimes scope claims).head? with
    | none => exact ⟨Instant.earliest, by simp⟩
    | some now => exact ⟨(state scope).getD now, by simp⟩
  obtain ⟨tat, hstart⟩ := hslots
  have htolerance : (quota.tolerance.nanos : ℤ) ≤
      quota.interval.nanos * (quota.burst.toNat - 1 : ℕ) := by
    exact_mod_cast quota.tolerance_nanos_le
  have hbound := within_departures_mul_le
    (Int.natCast_nonneg quota.tolerance.nanos)
    (Int.natCast_nonneg quota.interval.nanos)
    ((Instant.le_def start finish).mp hle)
    ((claimTimes scope claims).map Instant.nanos) tat.nanos
  rw [departuresWithin_eq, Throttle.slots_departures hfit tat hstart]
  change _ * (quota.interval.nanos : ℤ) ≤ _ at hbound
  refine hbound.trans ?_
  rw [Nat.cast_sub hburst] at htolerance
  push_cast at htolerance
  linarith

theorem pacesWithinQuota_of_roundsUp {Url : Type*}
    (originScope : Url → String) {quota : Quota}
    (hcount : quota.count ≠ 0) (hburst : 1 ≤ quota.burst.toNat)
    (hwindow : quota.window ≠ Duration.zero)
    (hround : quota.roundsUp = true) :
    PacesWithinQuota originScope quota := by
  intro scope state claims _ hfit start finish hle
  have hbound := departuresWithin_mul_interval_le originScope hburst hfit hle
  have hfill : (quota.window.nanos : ℚ) ≤
      quota.interval.nanos * quota.count.toNat := by
    exact_mod_cast Quota.window_le_of_roundsUp hcount hround
  have hpos : (0 : ℚ) < quota.window.nanos := by
    exact_mod_cast Duration.nanos_pos hwindow
  have htime : (0 : ℚ) ≤ ((finish.nanos - start.nanos : ℤ) : ℚ) := by
    exact_mod_cast sub_nonneg.mpr ((Instant.le_def start finish).mp hle)
  generalize departuresWithin start finish _ = number at *
  have hnumber : (number : ℚ) * quota.interval.nanos ≤
      ((finish.nanos - start.nanos : ℤ) : ℚ) +
        quota.burst.toNat * quota.interval.nanos := by
    exact_mod_cast hbound
  rw [intervalBudget, ← sub_le_iff_le_add', le_div_iff₀ hpos]
  rcases le_total (number : ℚ) quota.burst.toNat with hfew | hmany
  · have hleft := mul_nonpos_of_nonpos_of_nonneg (sub_nonpos.mpr hfew) hpos.le
    have hright : 0 ≤ ((finish.nanos - start.nanos : ℤ) : ℚ) *
        quota.count.toNat := by positivity
    linarith
  · calc ((number : ℚ) - quota.burst.toNat) * quota.window.nanos
        ≤ ((number : ℚ) - quota.burst.toNat) *
            (quota.interval.nanos * quota.count.toNat) :=
          mul_le_mul_of_nonneg_left hfill (sub_nonneg.mpr hmany)
      _ = ((number : ℚ) * quota.interval.nanos -
            quota.burst.toNat * quota.interval.nanos) *
            quota.count.toNat := by ring
      _ ≤ ((finish.nanos - start.nanos : ℤ) : ℚ) * quota.count.toNat := by
          apply mul_le_mul_of_nonneg_right _ (Nat.cast_nonneg _)
          linarith

/-! ## A busy scope -/

theorem claimTimes_replicate (scope : String) (now : Instant) (n : ℕ) :
    claimTimes scope (List.replicate n ⟨scope, now⟩) =
      List.replicate n now := by
  induction n with
  | zero => rfl
  | succ n ih =>
      simp [claimTimes]

theorem Throttle.allFit_replicate {Url : Type*} (self : Throttle Url)
    (scope : String) {state : ThrottleState} {now tat : Instant}
    (hentry : (state scope).getD now = tat) (hle : now ≤ tat) (n : ℕ)
    (hrange : tat.nanos + n * self.interval.nanos < instantLimit) :
    self.allFit scope state (List.replicate n ⟨scope, now⟩) = true := by
  induction n generalizing state tat with
  | zero => rfl
  | succ n ih =>
      have hmax : max tat now = tat := max_eq_left hle
      push_cast at hrange
      have hfits : self.fits tat now = true := by
        rw [Throttle.fits, hmax, Instant.checkedAdd_isSome_iff]
        have hn : (0 : ℤ) ≤ n * self.interval.nanos := by positivity
        linarith
      have hadvance := Throttle.advance_nanos hfits
      rw [VirtualSchedule.advance,
        max_eq_left ((Instant.le_def now tat).mp hle)] at hadvance
      simp only [List.replicate_succ, Throttle.allFit, hentry, hfits,
        Bool.or_true, Bool.true_and]
      apply ih
      · rw [Throttle.claim_same, Option.getD_some, hentry]
      · exact hle.trans (self.le_advance tat now)
      · rw [hadvance]
        linarith

/-- Where the interval is rounded down, one request more than the burst
departs within one interval. -/
theorem not_pacesWithinQuota {Url : Type*} (originScope : Url → String)
    {quota : Quota} (hcount : quota.count ≠ 0)
    (hburst : 1 ≤ quota.burst.toNat) (hround : quota.roundsUp = false)
    (hheadroom : quota.burst.toNat ≤ 2 ^ 32)
    (hrange : (quota.burst.toNat + 1) *
      (quota.window.nanos / quota.count.toNat) < durationLimit) :
    ¬ PacesWithinQuota originScope quota := by
  intro hpaces
  obtain ⟨hinterval, hshort⟩ := Quota.interval_of_not_roundsUp hcount hround
  rw [← hinterval] at hrange
  have hlimit : (durationLimit : ℤ) = 2 * instantLimit := by decide
  have hrangeInt : ((quota.burst.toNat : ℤ) + 1) * quota.interval.nanos <
      2 * instantLimit := by
    rw [← hlimit]
    exact_mod_cast hrange
  have htolerance : quota.tolerance.nanos =
      quota.interval.nanos * (quota.burst.toNat - 1) := by
    apply Quota.tolerance_nanos hheadroom
    refine lt_of_le_of_lt ?_ hrange
    rw [mul_comm]
    exact Nat.mul_le_mul_right _ (by omega)
  have hupper : Instant.earliest.nanos + (quota.interval.nanos : ℤ) <
      instantLimit := by
    have hinRange := quota.interval.inRange
    change -instantLimit + _ < _
    omega
  let finish : Instant :=
    ⟨Instant.earliest.nanos + quota.interval.nanos,
      by change -instantLimit ≤ -instantLimit + _; omega, hupper⟩
  have hle : Instant.earliest ≤ finish := Instant.earliest_le finish
  let claims : List Claim :=
    List.replicate (quota.burst.toNat + 1) ⟨"", Instant.earliest⟩
  have htimes : claimTimes "" claims =
      List.replicate (quota.burst.toNat + 1) Instant.earliest :=
    claimTimes_replicate _ _ _
  have hfit : (Throttle.new originScope quota).allFit "" (fun _ => none)
      claims = true := by
    apply Throttle.allFit_replicate _ _ rfl le_rfl
    change -instantLimit + _ * (quota.interval.nanos : ℤ) < _
    push_cast
    linarith
  have hcountAll : departuresWithin Instant.earliest finish
      ((Throttle.new originScope quota).slots "" (fun _ => none) claims) =
        quota.burst.toNat + 1 := by
    rw [departuresWithin_eq, Throttle.slots_departures hfit Instant.earliest
      (by rw [htimes]; simp [List.replicate_succ]), htimes, List.map_replicate]
    apply within_departures_replicate (Int.natCast_nonneg _) le_rfl hle
    change _ + _ * (quota.interval.nanos : ℤ) ≤
      Instant.earliest.nanos + (quota.interval.nanos : ℤ) +
        (quota.tolerance.nanos : ℤ) + quota.interval.nanos
    rw [htolerance]
    push_cast [Nat.cast_sub hburst]
    linarith
  have hbudget := hpaces "" (fun _ => none) claims
    (by rw [htimes]; exact List.pairwise_replicate.mpr (.inr le_rfl))
    hfit Instant.earliest finish hle
  have helapsed : finish.nanos - Instant.earliest.nanos =
      quota.interval.nanos := by
    simp [finish]
  have hwindow : (0 : ℚ) < quota.window.nanos := by
    exact_mod_cast Nat.zero_lt_of_lt hshort
  have hshortRat : (quota.interval.nanos : ℚ) * quota.count.toNat <
      quota.window.nanos := by
    exact_mod_cast hshort
  rw [hcountAll, intervalBudget, helapsed] at hbudget
  push_cast at hbudget
  have hratio := (div_lt_one hwindow).mpr hshortRat
  linarith

/-- The throttle keeps to its quota where the interval does not round down,
and for every quota in range only there. -/
theorem pacesWithinQuota_by_rounding {Url : Type*}
    (originScope : Url → String) {quota : Quota}
    (hcount : quota.count ≠ 0) (hburst : 1 ≤ quota.burst.toNat)
    (hwindow : quota.window ≠ Duration.zero) :
    (quota.roundsUp = true → PacesWithinQuota originScope quota) ∧
      (quota.roundsUp = false → quota.burst.toNat ≤ 2 ^ 32 →
        (quota.burst.toNat + 1) *
          (quota.window.nanos / quota.count.toNat) < durationLimit →
        ¬ PacesWithinQuota originScope quota) :=
  ⟨pacesWithinQuota_of_roundsUp originScope hcount hburst hwindow,
    not_pacesWithinQuota originScope hcount hburst⟩

/-- Sixty requests a minute keep to the quota, three a second do not. -/
theorem pacesWithinQuota_by_rounding_examples :
    PacesWithinQuota (fun url : String => url) (Quota.perMinute 60) ∧
      ¬ PacesWithinQuota (fun url : String => url) (Quota.perSecond 3) :=
  ⟨(pacesWithinQuota_by_rounding _ (by decide) (by decide) (by decide)).1
      (by decide),
    (pacesWithinQuota_by_rounding _ (by decide) (by decide) (by decide)).2
      (by decide) (by decide) (by decide)⟩

/-- Three requests a second, no burst: of four claims at once, all have
departed within `0.999999999 s`, where the quota allows less than four. -/
theorem throttle_outpaces_quota :
    ¬ ∀ quota : Quota, quota.count ≠ 0 → 1 ≤ quota.burst.toNat →
      quota.window ≠ Duration.zero →
      PacesWithinQuota (fun url : String => url) quota := by
  intro hclaim
  have hpaces := hclaim ((Quota.perSecond 3).allowBurst 1) (by decide)
    (by decide) (by decide)
  have hbound := hpaces "a" (fun _ => none)
    (List.replicate 4 ⟨"a", Instant.atSec 0⟩) (by decide) (by decide +kernel)
    (Instant.atSec 0) ⟨999999999, by decide, by decide⟩ (by decide)
  exact absurd hbound (by decide +kernel)

end TrilliumRatelimit
