import Mathlib.Data.Rat.Floor
import Mathlib.Tactic

/-!
# Durations and instants

The two clock types every other file computes with.  A `Duration` is a whole
number of nanoseconds below `2 ^ 64` seconds; an `Instant` is a signed 64-bit
number of seconds plus nanoseconds, as on Linux.  Both carry their range, so an
operation that can leave it returns an `Option`: the checked operations of the
standard library return `none`, and for the panicking ones (`+`,
`from_secs_f64`) `none` is the panic.

Floating-point seconds are read as exact rationals.  The only rounding kept is
the one of `Duration::from_secs_f64`, to the nearest nanosecond with ties to
even.
-/

namespace TrilliumRatelimit

def nanosPerSec : ℕ := 1000000000

/-- Nanoseconds in `2 ^ 64` seconds, the first value no `Duration` holds. -/
def durationLimit : ℕ := 2 ^ 64 * nanosPerSec

/-- Nanoseconds in `2 ^ 63` seconds: an `Instant` lies in
`[-instantLimit, instantLimit)`. -/
def instantLimit : ℤ := 2 ^ 63 * nanosPerSec

@[ext] structure Duration where
  nanos : ℕ
  inRange : nanos < durationLimit
  deriving DecidableEq

@[ext] structure Instant where
  nanos : ℤ
  lower : -instantLimit ≤ nanos
  upper : nanos < instantLimit
  deriving DecidableEq

instance : LinearOrder Duration :=
  LinearOrder.lift' Duration.nanos fun _ _ h => Duration.ext h

instance : LinearOrder Instant :=
  LinearOrder.lift' Instant.nanos fun _ _ h => Instant.ext h

theorem Duration.le_def (a b : Duration) : a ≤ b ↔ a.nanos ≤ b.nanos := Iff.rfl

theorem Instant.le_def (a b : Instant) : a ≤ b ↔ a.nanos ≤ b.nanos := Iff.rfl

@[simp] theorem Instant.max_nanos (a b : Instant) :
    (max a b).nanos = max a.nanos b.nanos := by
  rcases le_total a b with h | h
  · rw [max_eq_right h, max_eq_right ((Instant.le_def a b).mp h)]
  · rw [max_eq_left h, max_eq_left ((Instant.le_def b a).mp h)]

/-! ## Durations -/

def Duration.zero : Duration := ⟨0, by decide⟩

def Duration.max : Duration := ⟨durationLimit - 1, by decide⟩

def Duration.ofNanos? (nanos : ℕ) : Option Duration :=
  if h : nanos < durationLimit then some ⟨nanos, h⟩ else none

def Duration.fromSecs (secs : UInt64) : Duration :=
  ⟨secs.toNat * nanosPerSec,
    Nat.mul_lt_mul_of_pos_right secs.toNat_lt (by decide)⟩

def Duration.fromNanos (nanos : UInt64) : Duration :=
  ⟨nanos.toNat, nanos.toNat_lt.trans (by decide)⟩

def Duration.isZero (d : Duration) : Bool := d.nanos = 0

theorem Duration.secs_lt (d : Duration) : d.nanos / nanosPerSec < 2 ^ 64 :=
  Nat.div_lt_of_lt_mul (by rw [Nat.mul_comm]; exact d.inRange)

def Duration.asSecs (d : Duration) : UInt64 :=
  UInt64.ofNatLT (d.nanos / nanosPerSec) d.secs_lt

def Duration.subsecNanos (d : Duration) : ℕ := d.nanos % nanosPerSec

/-- `Duration + Duration` and `Duration::checked_add`. -/
def Duration.checkedAdd (a b : Duration) : Option Duration :=
  Duration.ofNanos? (a.nanos + b.nanos)

/-- `Duration::checked_mul` by a `u32`. -/
def Duration.checkedMul (d : Duration) (factor : UInt32) : Option Duration :=
  Duration.ofNanos? (d.nanos * factor.toNat)

@[simp] theorem Duration.asSecs_toNat (d : Duration) :
    d.asSecs.toNat = d.nanos / nanosPerSec := by
  simp [Duration.asSecs]

@[simp] theorem Duration.fromSecs_nanos (secs : UInt64) :
    (Duration.fromSecs secs).nanos = secs.toNat * nanosPerSec := rfl

theorem Duration.asSecs_fromSecs (secs : UInt64) :
    (Duration.fromSecs secs).asSecs = secs := by
  rw [← UInt64.toNat_inj, Duration.asSecs_toNat, Duration.fromSecs_nanos,
    Nat.mul_div_cancel _ (by decide)]

@[simp] theorem Duration.zero_nanos : Duration.zero.nanos = 0 := rfl

theorem Duration.nanos_pos {d : Duration} (h : d ≠ Duration.zero) :
    0 < d.nanos :=
  Nat.pos_of_ne_zero fun hzero => h (Duration.ext hzero)

theorem Duration.ofNanos?_eq_some_iff {nanos : ℕ} {d : Duration} :
    Duration.ofNanos? nanos = some d ↔ d.nanos = nanos := by
  unfold Duration.ofNanos?
  split
  next h =>
    rw [Option.some.injEq]
    exact ⟨fun heq => heq ▸ rfl, fun heq => Duration.ext heq.symm⟩
  next h =>
    simp only [reduceCtorEq, false_iff]
    intro heq
    exact h (heq ▸ d.inRange)

theorem Duration.ofNanos?_isSome_iff {nanos : ℕ} :
    (Duration.ofNanos? nanos).isSome ↔ nanos < durationLimit := by
  unfold Duration.ofNanos?
  split <;> simp_all

/-! ## Rounding to the nearest integer, ties to even -/

def roundHalfEven (x : ℚ) : ℤ :=
  if x - ⌊x⌋ < 1 / 2 then ⌊x⌋
  else if 1 / 2 < x - ⌊x⌋ then ⌊x⌋ + 1
  else if Even ⌊x⌋ then ⌊x⌋ else ⌊x⌋ + 1

theorem roundHalfEven_eq_or (x : ℚ) :
    roundHalfEven x = ⌊x⌋ ∨ roundHalfEven x = ⌊x⌋ + 1 := by
  unfold roundHalfEven
  split_ifs <;> simp

theorem abs_roundHalfEven_sub_le (x : ℚ) :
    |(roundHalfEven x : ℚ) - x| ≤ 1 / 2 := by
  have hfloor : (⌊x⌋ : ℚ) ≤ x := Int.floor_le x
  have hlt : x < ⌊x⌋ + 1 := Int.lt_floor_add_one x
  unfold roundHalfEven
  rw [abs_le]
  split_ifs with hlow hhigh heven
  · constructor <;> linarith
  · push_cast
    constructor <;> linarith
  · constructor <;> linarith
  · push_cast
    constructor <;> linarith

@[simp] theorem roundHalfEven_intCast (n : ℤ) :
    roundHalfEven (n : ℚ) = n := by
  simp [roundHalfEven]

@[simp] theorem roundHalfEven_natCast (n : ℕ) :
    roundHalfEven (n : ℚ) = n := by
  exact_mod_cast roundHalfEven_intCast n

theorem roundHalfEven_mono {x y : ℚ} (hxy : x ≤ y) :
    roundHalfEven x ≤ roundHalfEven y := by
  have hfloor : ⌊x⌋ ≤ ⌊y⌋ := Int.floor_le_floor hxy
  rcases hfloor.lt_or_eq with hlt | heq
  · rcases roundHalfEven_eq_or x with hx | hx <;>
      rcases roundHalfEven_eq_or y with hy | hy <;> omega
  · unfold roundHalfEven
    rw [heq]
    have hsub : x - ⌊y⌋ ≤ y - ⌊y⌋ := by linarith
    split_ifs <;> first | omega | linarith

theorem roundHalfEven_nonneg {x : ℚ} (hx : 0 ≤ x) : 0 ≤ roundHalfEven x := by
  have hzero : roundHalfEven 0 = 0 := by
    exact_mod_cast roundHalfEven_natCast 0
  exact hzero ▸ roundHalfEven_mono hx

/-! ## Seconds as rationals -/

def Duration.asSecsF64 (d : Duration) : ℚ := d.nanos / nanosPerSec

/-- `Duration::from_secs_f64`; `none` is the panic on a negative or too large
argument. -/
def Duration.fromSecsF64 (secs : ℚ) : Option Duration :=
  if secs < 0 then none
  else Duration.ofNanos? (roundHalfEven (secs * nanosPerSec)).toNat

theorem nanosPerSec_pos : (0 : ℚ) < nanosPerSec := by
  norm_num [nanosPerSec]

theorem Duration.fromSecsF64_div_nanosPerSec {x : ℚ} (hx : 0 ≤ x) :
    Duration.fromSecsF64 (x / nanosPerSec) =
      Duration.ofNanos? (roundHalfEven x).toNat := by
  have hsecs : ¬ x / nanosPerSec < 0 :=
    not_lt.mpr (div_nonneg hx nanosPerSec_pos.le)
  rw [Duration.fromSecsF64, if_neg hsecs,
    div_mul_cancel₀ x nanosPerSec_pos.ne']

theorem Duration.fromSecsF64_isSome_mono {x y : ℚ} (hx : 0 ≤ x)
    (hxy : x ≤ y) (hy : (Duration.fromSecsF64 y).isSome) :
    (Duration.fromSecsF64 x).isSome := by
  rw [Duration.fromSecsF64, if_neg (by linarith),
    Duration.ofNanos?_isSome_iff] at hy ⊢
  have hround : roundHalfEven (x * nanosPerSec) ≤
      roundHalfEven (y * nanosPerSec) :=
    roundHalfEven_mono (mul_le_mul_of_nonneg_right hxy nanosPerSec_pos.le)
  omega

/-! ## Instants -/

def Instant.ofNanos? (nanos : ℤ) : Option Instant :=
  if h : -instantLimit ≤ nanos ∧ nanos < instantLimit
  then some ⟨nanos, h.1, h.2⟩ else none

/-- `Instant::checked_add`, and `Instant + Duration` with `none` for its
panic. -/
def Instant.checkedAdd (t : Instant) (d : Duration) : Option Instant :=
  Instant.ofNanos? (t.nanos + d.nanos)

def Instant.checkedSub (t : Instant) (d : Duration) : Option Instant :=
  Instant.ofNanos? (t.nanos - d.nanos)

/-- The clock reading a whole number of seconds after the clock's origin. -/
def Instant.atSec (secs : UInt32) : Instant where
  nanos := secs.toNat * nanosPerSec
  lower := by
    have hlimit : -instantLimit ≤ 0 := by decide
    exact hlimit.trans (by positivity)
  upper := by
    have hsecs := secs.toNat_lt
    have hlimit : (2 : ℤ) ^ 32 * nanosPerSec < instantLimit := by decide
    have hnanos : (0 : ℤ) < nanosPerSec := by decide
    nlinarith

def Instant.earliest : Instant := ⟨-instantLimit, le_rfl, by decide⟩

theorem Instant.earliest_le (t : Instant) : Instant.earliest ≤ t := t.lower

theorem Instant.sub_toNat_lt (a b : Instant) :
    (a.nanos - b.nanos).toNat < durationLimit := by
  have ha := a.upper
  have hb := b.lower
  have hlimit : (durationLimit : ℤ) = 2 * instantLimit := by decide
  have hpos : (0 : ℤ) < durationLimit := by decide
  omega

def Instant.saturatingDurationSince (a b : Instant) : Duration :=
  ⟨(a.nanos - b.nanos).toNat, a.sub_toNat_lt b⟩

@[simp] theorem Instant.saturatingDurationSince_nanos (a b : Instant) :
    (a.saturatingDurationSince b).nanos = (a.nanos - b.nanos).toNat := rfl

theorem Instant.ofNanos?_eq_some_iff {nanos : ℤ} {t : Instant} :
    Instant.ofNanos? nanos = some t ↔ t.nanos = nanos := by
  unfold Instant.ofNanos?
  split
  next h =>
    rw [Option.some.injEq]
    exact ⟨fun heq => heq ▸ rfl, fun heq => Instant.ext heq.symm⟩
  next h =>
    simp only [reduceCtorEq, false_iff]
    intro heq
    exact h (heq ▸ ⟨t.lower, t.upper⟩)

theorem Instant.ofNanos?_eq_none_iff {nanos : ℤ} :
    Instant.ofNanos? nanos = none ↔
      nanos < -instantLimit ∨ instantLimit ≤ nanos := by
  unfold Instant.ofNanos?
  split
  next h => simp only [reduceCtorEq, false_iff]; omega
  next h => simp only [true_iff]; omega

theorem Instant.checkedAdd_eq_some_iff {t u : Instant} {d : Duration} :
    t.checkedAdd d = some u ↔ u.nanos = t.nanos + d.nanos :=
  Instant.ofNanos?_eq_some_iff

theorem Instant.checkedSub_eq_some_iff {t u : Instant} {d : Duration} :
    t.checkedSub d = some u ↔ u.nanos = t.nanos - d.nanos :=
  Instant.ofNanos?_eq_some_iff

/-- Durations are not negative, so an addition can only overflow upwards. -/
theorem Instant.checkedAdd_isSome_iff {t : Instant} {d : Duration} :
    (t.checkedAdd d).isSome ↔ t.nanos + d.nanos < instantLimit := by
  have hlower := t.lower
  cases hadd : t.checkedAdd d with
  | none =>
      rw [Instant.checkedAdd, Instant.ofNanos?_eq_none_iff] at hadd
      simp only [Option.isSome_none, Bool.false_eq_true, false_iff]
      omega
  | some u =>
      have hnanos := Instant.checkedAdd_eq_some_iff.mp hadd
      have hupper := u.upper
      simp only [Option.isSome_some, true_iff]
      omega

end TrilliumRatelimit
