import TrilliumRatelimit.Throttle

/-!
# Departures of one scope

Claims and back-offs in any order, on any scopes, with any clock readings: the
lock orders them, not the clock.  Whatever happens in between, the `n`-th
claim after a claim departs `n` intervals after it, the tolerance aside.
-/

namespace TrilliumRatelimit

inductive ThrottleOp where
  | claim (scope : String) (now : Instant)
  | backOff (scope : String) (now : Instant) (backoff : Duration)
  deriving DecidableEq

section

variable {Url : Type*}

/-- The map after an operation; a back-off that panics does not reach it. -/
def Throttle.apply (self : Throttle Url) (state : ThrottleState) :
    ThrottleOp → ThrottleState
  | .claim scope now => (self.claim state scope now).2
  | .backOff scope now backoff =>
      (self.backOff state scope now backoff).getD state

def Throttle.applyAll (self : Throttle Url) (state : ThrottleState)
    (ops : List ThrottleOp) : ThrottleState :=
  ops.foldl self.apply state

/-- The operation stays in the range of `Instant`. -/
def Throttle.opFits (self : Throttle Url) (state : ThrottleState) :
    ThrottleOp → Bool
  | .claim scope now => self.fits ((state scope).getD now) now
  | .backOff scope now backoff =>
      (self.backOff state scope now backoff).isSome

def Throttle.opsFit (self : Throttle Url) :
    ThrottleState → List ThrottleOp → Bool
  | _, [] => true
  | state, op :: rest =>
      self.opFits state op && self.opsFit (self.apply state op) rest

/-- The slots an operation hands out on a scope. -/
def Throttle.opSlot (self : Throttle Url) (scope : String)
    (state : ThrottleState) : ThrottleOp → Option Slot
  | .claim other now =>
      if other = scope then some (self.slot state ⟨other, now⟩) else none
  | .backOff _ _ _ => none

/-- The slots of one scope, in the order of their claims. -/
def Throttle.opSlots (self : Throttle Url) (scope : String) :
    ThrottleState → List ThrottleOp → List Slot
  | _, [] => []
  | state, op :: rest =>
      (self.opSlot scope state op).toList ++
        self.opSlots scope (self.apply state op) rest

/-! ## One operation -/

theorem ThrottleState.AtLeast.apply {state : ThrottleState} {scope : String}
    {nanos : ℤ} (hleast : state.AtLeast scope nanos) (self : Throttle Url)
    (op : ThrottleOp) : ThrottleState.AtLeast (self.apply state op) scope nanos := by
  cases op with
  | claim other now => exact hleast.claim self other now
  | backOff other now backoff =>
      simp only [Throttle.apply]
      cases hnext : self.backOff state other now backoff with
      | none => exact hleast
      | some next => exact hleast.backOff hnext

theorem ThrottleState.AtLeast.applyAll {state : ThrottleState}
    {scope : String} {nanos : ℤ} (hleast : state.AtLeast scope nanos)
    (self : Throttle Url) (ops : List ThrottleOp) :
    ThrottleState.AtLeast (self.applyAll state ops) scope nanos := by
  induction ops generalizing state with
  | nil => exact hleast
  | cons op rest ih => exact ih (hleast.apply self op)

/-- A claim departs no later than an interval before the time it leaves. -/
theorem Throttle.atLeast_claim {self : Throttle Url} {state : ThrottleState}
    {scope : String} {now : Instant}
    (hfits : self.opFits state (.claim scope now) = true) :
    ThrottleState.AtLeast (self.apply state (.claim scope now)) scope
      ((self.slot state ⟨scope, now⟩).departs.nanos +
        self.interval.nanos) := by
  refine ⟨_, self.claim_same scope state now, ?_⟩
  have hslot : (self.slot state ⟨scope, now⟩).departs.nanos =
      VirtualSchedule.departure (self.tolerance.nanos : ℤ)
        ((state scope).getD now).nanos now.nanos :=
    self.proceedAt_nanos _ _
  rw [hslot, Throttle.advance_nanos hfits]
  exact VirtualSchedule.departure_add_le_advance
    (Int.natCast_nonneg self.tolerance.nanos) _ _ _

theorem ThrottleState.AtLeast.claim_add {self : Throttle Url}
    {state : ThrottleState} {scope : String} {nanos : ℤ}
    (hleast : state.AtLeast scope nanos) {now : Instant}
    (hfits : self.opFits state (.claim scope now) = true) :
    ThrottleState.AtLeast (self.apply state (.claim scope now)) scope
      (nanos + self.interval.nanos) := by
  obtain ⟨tat, htat, hle⟩ := hleast
  refine ⟨_, self.claim_same scope state now, ?_⟩
  simp only [Throttle.opFits, htat, Option.getD_some] at hfits
  have hadvance := VirtualSchedule.add_le_advance (self.interval.nanos : ℤ)
    tat.nanos now.nanos
  rw [htat, Option.getD_some, Throttle.advance_nanos hfits]
  linarith

/-! ## Runs -/

theorem Throttle.applyAll_append (self : Throttle Url)
    (state : ThrottleState) (before after : List ThrottleOp) :
    self.applyAll state (before ++ after) =
      self.applyAll (self.applyAll state before) after :=
  List.foldl_append

@[simp] theorem Throttle.applyAll_singleton (self : Throttle Url)
    (state : ThrottleState) (op : ThrottleOp) :
    self.applyAll state [op] = self.apply state op := rfl

theorem Throttle.opsFit_append (self : Throttle Url) (state : ThrottleState)
    (before after : List ThrottleOp) :
    self.opsFit state (before ++ after) =
      (self.opsFit state before &&
        self.opsFit (self.applyAll state before) after) := by
  induction before generalizing state with
  | nil => rfl
  | cons op rest ih =>
      rw [List.cons_append, Throttle.opsFit, Throttle.opsFit, ih,
        Bool.and_assoc]
      rfl

/-- Only claims on the scope hand out slots. -/
theorem Throttle.opSlots_cons_cases (self : Throttle Url) (scope : String)
    (state : ThrottleState) (op : ThrottleOp) (rest : List ThrottleOp) :
    (∃ now, op = .claim scope now ∧
      self.opSlots scope state (op :: rest) =
        self.slot state ⟨scope, now⟩ ::
          self.opSlots scope (self.apply state op) rest) ∨
      self.opSlots scope state (op :: rest) =
        self.opSlots scope (self.apply state op) rest := by
  cases op with
  | claim other now =>
      by_cases hother : other = scope
      · subst hother
        exact .inl ⟨now, rfl, by simp [Throttle.opSlots, Throttle.opSlot]⟩
      · exact .inr (by simp [Throttle.opSlots, Throttle.opSlot, hother])
  | backOff => exact .inr rfl

theorem Throttle.add_mul_le_departs {self : Throttle Url} {scope : String}
    {state : ThrottleState} {nanos : ℤ} {ops : List ThrottleOp}
    (hleast : state.AtLeast scope nanos)
    (hfit : self.opsFit state ops = true) {k : ℕ} {slot : Slot}
    (hslot : (self.opSlots scope state ops)[k]? = some slot) :
    nanos + k * self.interval.nanos - self.tolerance.nanos ≤
      slot.departs.nanos := by
  induction ops generalizing state nanos k with
  | nil => simp [Throttle.opSlots] at hslot
  | cons op rest ih =>
      simp only [Throttle.opsFit, Bool.and_eq_true] at hfit
      rcases self.opSlots_cons_cases scope state op rest with
        ⟨now, rfl, hslots⟩ | hslots
      · rw [hslots] at hslot
        cases k with
        | zero =>
            rw [List.getElem?_cons_zero, Option.some.injEq] at hslot
            rw [Nat.cast_zero, zero_mul, add_zero, ← hslot]
            apply Throttle.slot_departs_of_atLeast
            rwa [sub_add_cancel]
        | succ k =>
            rw [List.getElem?_cons_succ] at hslot
            have hrest := ih (hleast.claim_add hfit.1) hfit.2 hslot
            push_cast
            linarith
      · rw [hslots] at hslot
        exact ih (hleast.apply self op) hfit.2 hslot

theorem Throttle.departs_add_mul_le {self : Throttle Url} {scope : String}
    {state : ThrottleState} {ops : List ThrottleOp}
    (hfit : self.opsFit state ops = true) {i n : ℕ} (hn : 1 ≤ n)
    {earlier later : Slot}
    (hearlier : (self.opSlots scope state ops)[i]? = some earlier)
    (hlater : (self.opSlots scope state ops)[i + n]? = some later) :
    earlier.departs.nanos + n * self.interval.nanos -
      self.tolerance.nanos ≤ later.departs.nanos := by
  induction ops generalizing state i with
  | nil => simp [Throttle.opSlots] at hearlier
  | cons op rest ih =>
      simp only [Throttle.opsFit, Bool.and_eq_true] at hfit
      rcases self.opSlots_cons_cases scope state op rest with
        ⟨now, rfl, hslots⟩ | hslots
      · rw [hslots] at hearlier hlater
        cases i with
        | zero =>
            obtain ⟨k, rfl⟩ := Nat.exists_eq_add_of_le' hn
            rw [List.getElem?_cons_zero, Option.some.injEq] at hearlier
            rw [Nat.zero_add, List.getElem?_cons_succ] at hlater
            have hleast := Throttle.atLeast_claim hfit.1
            have hdeparts := Throttle.add_mul_le_departs hleast hfit.2 hlater
            rw [hearlier] at hdeparts
            push_cast
            linarith
        | succ i =>
            rw [List.getElem?_cons_succ] at hearlier
            rw [Nat.add_right_comm, List.getElem?_cons_succ] at hlater
            exact ih hfit.2 hearlier hlater
      · rw [hslots] at hearlier hlater
        exact ih hfit.2 hearlier hlater

/-- The `n`-th claim after a claim departs `n` intervals after it, the
tolerance aside, and no operation moves a stored time back. -/
theorem departures_spaced (originScope : Url → String) (quota : Quota)
    (scope : String) (ops : List ThrottleOp)
    (hfit : (Throttle.new originScope quota).opsFit (fun _ => none) ops =
      true) :
    (∀ i n : ℕ, 1 ≤ n → ∀ earlier later : Slot,
      ((Throttle.new originScope quota).opSlots scope
        (fun _ => none) ops)[i]? = some earlier →
      ((Throttle.new originScope quota).opSlots scope
        (fun _ => none) ops)[i + n]? = some later →
      earlier.departs.nanos + n * quota.interval.nanos -
        quota.tolerance.nanos ≤ later.departs.nanos) ∧
    ∀ before after, ops = before ++ after → ∀ tat,
      (Throttle.new originScope quota).applyAll (fun _ => none) before
        scope = some tat →
      ∃ next, (Throttle.new originScope quota).applyAll (fun _ => none) ops
        scope = some next ∧ tat ≤ next := by
  constructor
  · intro i n hn earlier later hearlier hlater
    exact Throttle.departs_add_mul_le hfit hn hearlier hlater
  · rintro before after rfl tat htat
    have hleast := ThrottleState.AtLeast.applyAll ⟨tat, htat, le_rfl⟩
      (Throttle.new originScope quota) after
    rw [Throttle.applyAll_append]
    exact hleast

end

/-- Two claims with the clock running backwards, and a back-off in between. -/
theorem departures_spaced_backwards :
    ∃ earlier later,
      (Throttle.new id (Quota.perSecond 2)).opSlots "a" (fun _ => none)
        [.claim "a" (Instant.atSec 5),
          .backOff "a" (Instant.atSec 4) (Duration.fromSecs 3),
          .claim "a" (Instant.atSec 3)] = [earlier, later] ∧
      earlier.departs.nanos + (1 : ℕ) * (Quota.perSecond 2).interval.nanos -
        (Quota.perSecond 2).tolerance.nanos ≤ later.departs.nanos := by
  have hfit : (Throttle.new id (Quota.perSecond 2)).opsFit (fun _ => none)
      [.claim "a" (Instant.atSec 5),
        .backOff "a" (Instant.atSec 4) (Duration.fromSecs 3),
        .claim "a" (Instant.atSec 3)] = true := by decide +kernel
  have hspaced := (departures_spaced id (Quota.perSecond 2) "a" _ hfit).1 0 1
    le_rfl
  exact ⟨_, _, rfl, hspaced _ _ rfl rfl⟩

end TrilliumRatelimit
