import TrilliumRatelimit.ArrivalCurve
import TrilliumRatelimit.ThrottlePace
import TrilliumRatelimit.ThrottleSpacing

/-!
# The traffic of a throttle

What bounds the departures of a scope is their spacing, and that survives
claims that reach the lock out of clock order and back-offs at any point.  So
the pace holds in every run, and the departures are a stream whose burst and
rate are the quota's wherever the interval does not round down.
-/

namespace TrilliumRatelimit

open ArrivalCurve VirtualSchedule

/-- Departures as requests for one unit each, in nanoseconds. -/
def departureStream (slots : List Slot) : List (ℚ × ℚ) :=
  (slots.map fun slot => (slot.departs.nanos : ℚ)).map fun time => (time, 1)

theorem Spaced.intCast {slack step : ℤ} {times : List ℤ}
    (h : Spaced slack step times) :
    Spaced (slack : ℚ) step (times.map Int.cast) := by
  intro i n hn earlier later hearlier hlater
  rw [List.getElem?_map, Option.map_eq_some_iff] at hearlier hlater
  obtain ⟨first, hfirst, rfl⟩ := hearlier
  obtain ⟨second, hsecond, rfl⟩ := hlater
  exact_mod_cast h i n hn first second hfirst hsecond

section

variable {Url : Type*}

theorem Throttle.spaced_opSlots {self : Throttle Url}
    {state : ThrottleState} {ops : List ThrottleOp}
    (hfit : self.opsFit state ops = true) (scope : String) :
    Spaced (self.tolerance.nanos : ℤ) self.interval.nanos
      ((self.opSlots scope state ops).map fun slot => slot.departs.nanos) := by
  intro i n hn earlier later hearlier hlater
  rw [List.getElem?_map, Option.map_eq_some_iff] at hearlier hlater
  obtain ⟨first, hfirst, rfl⟩ := hearlier
  obtain ⟨second, hsecond, rfl⟩ := hlater
  exact Throttle.departs_add_mul_le hfit hn hfirst hsecond

variable {originScope : Url → String} {quota : Quota}

theorem Throttle.departuresWithin_opSlots_le (hburst : 1 ≤ quota.burst.toNat)
    {state : ThrottleState} {ops : List ThrottleOp}
    (hfit : (Throttle.new originScope quota).opsFit state ops = true)
    (scope : String) {start finish : Instant} (hle : start ≤ finish) :
    (departuresWithin start finish
        ((Throttle.new originScope quota).opSlots scope state ops) : ℤ) *
        quota.interval.nanos ≤
      finish.nanos - start.nanos +
        quota.burst.toNat * quota.interval.nanos := by
  have htolerance : (quota.tolerance.nanos : ℤ) ≤
      quota.interval.nanos * (quota.burst.toNat - 1 : ℕ) := by
    exact_mod_cast quota.tolerance_nanos_le
  have hbound := (Throttle.spaced_opSlots hfit scope).within_mul_le
    (Int.natCast_nonneg _) (Int.natCast_nonneg _)
    ((Instant.le_def start finish).mp hle)
  rw [departuresWithin_eq]
  refine hbound.trans ?_
  rw [Nat.cast_sub hburst] at htolerance
  push_cast at htolerance
  change _ + (quota.tolerance.nanos : ℤ) + (quota.interval.nanos : ℤ) ≤ _
  linarith

/-- A nonzero count makes every nanosecond of the window worth as much as
`count` intervals of it. -/
theorem Quota.interval_pos_of_roundsUp (hcount : quota.count ≠ 0)
    (hwindow : quota.window ≠ Duration.zero)
    (hround : quota.roundsUp = true) : 0 < quota.interval.nanos := by
  have hfill := Quota.window_le_of_roundsUp hcount hround
  have hpos := Duration.nanos_pos hwindow
  exact Nat.pos_of_mul_pos_right (hpos.trans_le hfill)

theorem Throttle.bounded_departureStream (hcount : quota.count ≠ 0)
    (hburst : 1 ≤ quota.burst.toNat) (hwindow : quota.window ≠ Duration.zero)
    (hround : quota.roundsUp = true) {state : ThrottleState}
    {ops : List ThrottleOp}
    (hfit : (Throttle.new originScope quota).opsFit state ops = true)
    (scope : String) :
    Bounded (quota.burst.toNat : ℚ)
      (quota.count.toNat / quota.window.nanos)
      (departureStream
        ((Throttle.new originScope quota).opSlots scope state ops)) := by
  have hinterval : (0 : ℚ) < quota.interval.nanos := by
    exact_mod_cast Quota.interval_pos_of_roundsUp hcount hwindow hround
  have hnanos : (0 : ℚ) < quota.window.nanos := by
    exact_mod_cast Duration.nanos_pos hwindow
  have hspaced := Spaced.intCast (Throttle.spaced_opSlots hfit scope)
  rw [List.map_map] at hspaced
  refine (bounded_of_spaced (Nat.cast_nonneg _) hinterval hspaced).mono ?_ ?_
  · have htolerance : (quota.tolerance.nanos : ℚ) ≤
        quota.interval.nanos * (quota.burst.toNat - 1 : ℕ) := by
      exact_mod_cast quota.tolerance_nanos_le
    rw [Nat.cast_sub hburst, Nat.cast_one] at htolerance
    have hslack : (quota.tolerance.nanos : ℚ) / quota.interval.nanos ≤
        quota.burst.toNat - 1 := by
      rw [div_le_iff₀ hinterval, mul_comm]
      exact htolerance
    change 1 + (quota.tolerance.nanos : ℚ) / quota.interval.nanos ≤ _
    linarith
  · have hfill : (quota.window.nanos : ℚ) ≤
        quota.interval.nanos * quota.count.toNat := by
      exact_mod_cast Quota.window_le_of_roundsUp hcount hround
    rw [div_le_div_iff₀ hinterval hnanos, one_mul, mul_comm]
    exact hfill

/-- In every run of claims and back-offs, in any lock order and with any clock
readings, no closed interval holds more departures of a scope than the burst
and one for every interval in it. -/
theorem throttle_traffic_bounded (hburst : 1 ≤ quota.burst.toNat)
    {state : ThrottleState} {ops : List ThrottleOp}
    (hfit : (Throttle.new originScope quota).opsFit state ops = true)
    (scope : String) {start finish : Instant} (hle : start ≤ finish) :
    (departuresWithin start finish
        ((Throttle.new originScope quota).opSlots scope state ops) : ℤ) *
        quota.interval.nanos ≤
      finish.nanos - start.nanos +
        quota.burst.toNat * quota.interval.nanos ∧
    (quota.count ≠ 0 → quota.window ≠ Duration.zero →
      quota.roundsUp = true →
        (departuresWithin start finish
          ((Throttle.new originScope quota).opSlots scope state ops) : ℚ) ≤
          intervalBudget quota start finish) := by
  refine ⟨Throttle.departuresWithin_opSlots_le hburst hfit scope hle, ?_⟩
  intro hcount hwindow hround
  have hbounded := Throttle.bounded_departureStream hcount hburst hwindow
    hround hfit scope start.nanos finish.nanos
      (by exact_mod_cast (Instant.le_def start finish).mp hle)
  rw [departureStream, volume_map_one] at hbounded
  have hwithin : departuresWithin start finish
      ((Throttle.new originScope quota).opSlots scope state ops) =
        within (start.nanos : ℚ) finish.nanos
          (((Throttle.new originScope quota).opSlots scope state ops).map
            fun slot => (slot.departs.nanos : ℚ)) := by
    rw [departuresWithin_eq, within, within, List.countP_map,
      List.countP_map]
    simp only [Function.comp_def, Int.cast_le]
  rw [hwithin]
  refine hbounded.trans (le_of_eq ?_)
  rw [intervalBudget]
  push_cast
  ring

end

/-- Three claims of a burst of two with the clock running backwards, behind a
back-off: two depart at four seconds, the third half a second later. -/
theorem throttle_traffic_bounded_backwards :
    (departuresWithin (Instant.atSec 4) (Instant.atSec 4)
      ((Throttle.new id (Quota.perSecond 2)).opSlots "a" (fun _ => none)
        [.backOff "a" (Instant.atSec 1) (Duration.fromSecs 3),
          .claim "a" (Instant.atSec 3), .claim "a" (Instant.atSec 2),
          .claim "a" (Instant.atSec 1)]) : ℚ) ≤
      intervalBudget (Quota.perSecond 2) (Instant.atSec 4)
        (Instant.atSec 4) := by
  have hfit : (Throttle.new id (Quota.perSecond 2)).opsFit (fun _ => none)
      [.backOff "a" (Instant.atSec 1) (Duration.fromSecs 3),
        .claim "a" (Instant.atSec 3), .claim "a" (Instant.atSec 2),
        .claim "a" (Instant.atSec 1)] = true := by decide +kernel
  exact (throttle_traffic_bounded (by decide) hfit "a" le_rfl).2 (by decide)
    (by decide) (by decide)

end TrilliumRatelimit
