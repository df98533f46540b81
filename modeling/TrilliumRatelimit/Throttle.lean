import TrilliumRatelimit.Bucket
import TrilliumRatelimit.VirtualSchedule

/-!
# The client throttle

`Throttle` paces the requests of each scope by one theoretical arrival time
per scope, the map behind the lock.  `claim` and `back_off` run under that
lock and are functions on the map here; the clock reading is an argument.

What a claim does to its scope is one step of a `VirtualSchedule` in
nanoseconds, as long as the arrival time does not leave the range of
`Instant`.
-/

namespace TrilliumRatelimit

open VirtualSchedule

structure Throttle (Url : Type*) where
  quota : Quota
  interval : Duration
  tolerance : Duration
  scope : Url → String
  honorServerSignals : Bool

/-- The map from scopes to theoretical arrival times. -/
abbrev ThrottleState := String → Option Instant

/-- The local `interval` of `Throttle::new`; `none` is the panic of
`from_secs_f64`. -/
def Quota.interval? (quota : Quota) : Option Duration :=
  Duration.fromSecsF64
    (quota.window.asSecsF64 / (max quota.count 1).toNat)

theorem count_max_one_toNat (quota : Quota) :
    (max quota.count 1).toNat = max quota.count.toNat 1 := by
  change (if quota.count ≤ 1 then 1 else quota.count).toNat = _
  split
  next hle =>
    rw [UInt64.le_iff_toNat_le] at hle
    exact (max_eq_right hle).symm
  next hnot =>
    rw [UInt64.le_iff_toNat_le, not_le] at hnot
    exact (max_eq_left hnot.le).symm

theorem Quota.interval?_eq (quota : Quota) :
    quota.interval? = Duration.ofNanos?
      (roundHalfEven
        (quota.window.nanos / (max quota.count.toNat 1 : ℕ) : ℚ)).toNat := by
  rw [Quota.interval?, count_max_one_toNat, Duration.asSecsF64,
    div_right_comm, Duration.fromSecsF64_div_nanosPerSec (by positivity)]

/-- The interval is at most the window, so `Throttle::new` never panics. -/
theorem Quota.interval?_isSome (quota : Quota) : quota.interval?.isSome := by
  have hle : (quota.window.nanos / (max quota.count.toNat 1 : ℕ) : ℚ) ≤
      quota.window.nanos := by
    apply div_le_self (Nat.cast_nonneg _)
    exact_mod_cast le_max_right _ _
  have hround := roundHalfEven_mono hle
  rw [roundHalfEven_natCast] at hround
  have hrange := quota.window.inRange
  rw [Quota.interval?_eq, Duration.ofNanos?_isSome_iff]
  omega

def Quota.interval (quota : Quota) : Duration :=
  quota.interval?.get quota.interval?_isSome

/-- `u32::try_from(burst.saturating_sub(1)).unwrap_or(u32::MAX)`. -/
def Quota.burstHeadroom (quota : Quota) : UInt32 :=
  UInt32.ofNat (min (quota.burst.toNat - 1) (2 ^ 32 - 1))

def Quota.tolerance (quota : Quota) : Duration :=
  (quota.interval.checkedMul quota.burstHeadroom).getD Duration.max

section

variable {Url : Type*}

/-- The source's default scope is the origin of the request's URL, computed by
another crate. -/
def Throttle.new (originScope : Url → String) (quota : Quota) :
    Throttle Url where
  quota := quota
  interval := quota.interval
  tolerance := quota.tolerance
  scope := originScope
  honorServerSignals := true

def Throttle.withScope (self : Throttle Url) (scope : Url → String) :
    Throttle Url :=
  { self with scope := scope }

def Throttle.withoutServerSignals (self : Throttle Url) : Throttle Url :=
  { self with honorServerSignals := false }

def Throttle.proceedAt (self : Throttle Url) (tat now : Instant) : Instant :=
  match tat.checkedSub self.tolerance with
  | none => now
  | some earliest => max earliest now

def Throttle.advance (self : Throttle Url) (tat now : Instant) : Instant :=
  ((max tat now).checkedAdd self.interval).getD tat

def Throttle.claim (self : Throttle Url) (state : ThrottleState)
    (scope : String) (now : Instant) : Duration × ThrottleState :=
  let tat := (state scope).getD now
  ((self.proceedAt tat now).saturatingDurationSince now,
    Function.update state scope (some (self.advance tat now)))

/-- `none` is the panic of `Instant + Duration`, raised before the lock is
taken. -/
def Throttle.backOff (self : Throttle Url) (state : ThrottleState)
    (scope : String) (now : Instant) (backoff : Duration) :
    Option ThrottleState := do
  let resumed ← now.checkedAdd backoff
  let target ← resumed.checkedAdd self.tolerance
  let tat := (state scope).getD target
  return Function.update state scope (some (max tat target))

/-- `ClientHandler::run`: the delay the request sleeps for. -/
def Throttle.run (self : Throttle Url) (state : ThrottleState) (url : Url)
    (now : Instant) : Duration × ThrottleState :=
  self.claim state (self.scope url) now

/-- `ClientHandler::after_response`, given what `server_backoff` reads from
the response. -/
def Throttle.afterResponse (self : Throttle Url) (state : ThrottleState)
    (url : Url) (now : Instant) (serverBackoff : Option Duration) :
    Option ThrottleState :=
  if self.honorServerSignals then
    match serverBackoff with
    | none => some state
    | some backoff => self.backOff state (self.scope url) now backoff
  else some state

/-! ## What a back-off does -/

theorem Throttle.backOff_eq_some_iff {self : Throttle Url}
    {state next : ThrottleState} {scope : String} {now : Instant}
    {backoff : Duration} :
    self.backOff state scope now backoff = some next ↔
      ∃ target : Instant,
        target.nanos =
          now.nanos + backoff.nanos + self.tolerance.nanos ∧
        next = Function.update state scope
          (some (max ((state scope).getD target) target)) := by
  simp only [Throttle.backOff, Option.bind_eq_bind, Option.bind_eq_some_iff,
    Option.pure_def, Option.some.injEq]
  constructor
  · rintro ⟨resumed, hresumed, target, htarget, rfl⟩
    rw [Instant.checkedAdd_eq_some_iff] at hresumed htarget
    exact ⟨target, by rw [htarget, hresumed], rfl⟩
  · rintro ⟨target, htarget, rfl⟩
    have hupper := target.upper
    have hlower := now.lower
    have hsome : (now.checkedAdd backoff).isSome := by
      rw [Instant.checkedAdd_isSome_iff]
      omega
    obtain ⟨resumed, hresumed⟩ := Option.isSome_iff_exists.mp hsome
    refine ⟨resumed, hresumed, target, ?_, rfl⟩
    rw [Instant.checkedAdd_eq_some_iff] at hresumed ⊢
    rw [htarget, hresumed]

/-- The only failure is the overflow of the sum. -/
theorem Throttle.backOff_isSome_iff {self : Throttle Url}
    {state : ThrottleState} {scope : String} {now : Instant}
    {backoff : Duration} :
    (self.backOff state scope now backoff).isSome ↔
      now.nanos + backoff.nanos + self.tolerance.nanos < instantLimit := by
  rw [Option.isSome_iff_exists]
  constructor
  · rintro ⟨next, hnext⟩
    obtain ⟨target, htarget, _⟩ := Throttle.backOff_eq_some_iff.mp hnext
    rw [← htarget]
    exact target.upper
  · intro hrange
    have hlower := now.lower
    exact ⟨_, Throttle.backOff_eq_some_iff.mpr
      ⟨⟨_, by omega, hrange⟩, rfl, rfl⟩⟩

/-! ## Claims as a virtual schedule -/

/-- The arrival time can be moved on by the interval. -/
def Throttle.fits (self : Throttle Url) (tat now : Instant) : Bool :=
  ((max tat now).checkedAdd self.interval).isSome

/-- An arrival time too early for the subtraction is too early to wait
for. -/
theorem Throttle.proceedAt_nanos (self : Throttle Url) (tat now : Instant) :
    (self.proceedAt tat now).nanos =
      departure (self.tolerance.nanos : ℤ) tat.nanos now.nanos := by
  unfold Throttle.proceedAt departure
  cases hsub : tat.checkedSub self.tolerance with
  | none =>
      rw [Instant.checkedSub, Instant.ofNanos?_eq_none_iff] at hsub
      have htat := tat.upper
      have hnow := now.lower
      simp only
      omega
  | some earliest =>
      have hnanos := Instant.checkedSub_eq_some_iff.mp hsub
      rw [Instant.max_nanos, hnanos, max_comm]

theorem Throttle.now_le_proceedAt (self : Throttle Url) (tat now : Instant) :
    now ≤ self.proceedAt tat now := by
  rw [Instant.le_def, Throttle.proceedAt_nanos]
  exact le_max_left _ _

theorem Throttle.advance_nanos {self : Throttle Url} {tat now : Instant}
    (hfits : self.fits tat now = true) :
    (self.advance tat now).nanos =
      VirtualSchedule.advance (self.interval.nanos : ℤ) tat.nanos
        now.nanos := by
  obtain ⟨next, hnext⟩ := Option.isSome_iff_exists.mp hfits
  rw [Throttle.advance, hnext, Option.getD_some,
    Instant.checkedAdd_eq_some_iff.mp hnext, Instant.max_nanos,
    VirtualSchedule.advance]

/-- With or without overflow, a claim never moves the arrival time back. -/
theorem Throttle.le_advance (self : Throttle Url) (tat now : Instant) :
    tat ≤ self.advance tat now := by
  unfold Throttle.advance
  cases hadd : (max tat now).checkedAdd self.interval with
  | none => exact le_rfl
  | some next =>
      have hnanos := Instant.checkedAdd_eq_some_iff.mp hadd
      rw [Option.getD_some, Instant.le_def, hnanos, Instant.max_nanos]
      omega

/-! ## Runs of claims -/

structure Claim where
  scope : String
  now : Instant
  deriving DecidableEq

/-- A claimed slot: the request departs once it has slept for the delay. -/
structure Slot where
  now : Instant
  delay : Duration
  departs : Instant
  departs_eq : departs.nanos = now.nanos + delay.nanos
  deriving DecidableEq

theorem Throttle.claim_departs (self : Throttle Url) (state : ThrottleState)
    (scope : String) (now : Instant) :
    (self.proceedAt ((state scope).getD now) now).nanos =
      now.nanos + (self.claim state scope now).1.nanos := by
  have hle := (Instant.le_def _ _).mp
    (self.now_le_proceedAt ((state scope).getD now) now)
  simp only [Throttle.claim, Instant.saturatingDurationSince_nanos]
  omega

def Throttle.slot (self : Throttle Url) (state : ThrottleState)
    (claim : Claim) : Slot where
  now := claim.now
  delay := (self.claim state claim.scope claim.now).1
  departs := self.proceedAt ((state claim.scope).getD claim.now) claim.now
  departs_eq := self.claim_departs state claim.scope claim.now

/-- The slots one scope gets in a run of claims on any scopes. -/
def Throttle.slots (self : Throttle Url) (scope : String) :
    ThrottleState → List Claim → List Slot
  | _, [] => []
  | state, claim :: rest =>
      let next := (self.claim state claim.scope claim.now).2
      if claim.scope = scope
      then self.slot state claim :: self.slots scope next rest
      else self.slots scope next rest

/-- No claim on the scope overflows its arrival time. -/
def Throttle.allFit (self : Throttle Url) (scope : String) :
    ThrottleState → List Claim → Bool
  | _, [] => true
  | state, claim :: rest =>
      let next := (self.claim state claim.scope claim.now).2
      (claim.scope ≠ scope ||
        self.fits ((state claim.scope).getD claim.now) claim.now) &&
      self.allFit scope next rest

/-- The clock readings of the claims on one scope. -/
def claimTimes (scope : String) (claims : List Claim) : List Instant :=
  (claims.filter fun claim => claim.scope = scope).map Claim.now

theorem Throttle.claim_other (self : Throttle Url) {scope other : String}
    (hother : scope ≠ other) (state : ThrottleState) (now : Instant) :
    (self.claim state scope now).2 other = state other :=
  Function.update_of_ne hother.symm _ _

@[simp] theorem Throttle.claim_same (self : Throttle Url) (scope : String)
    (state : ThrottleState) (now : Instant) :
    (self.claim state scope now).2 scope =
      some (self.advance ((state scope).getD now) now) :=
  Function.update_self _ _ _

/-- A run of claims, seen from one scope, is a run of claims on that scope
alone. -/
theorem Throttle.slots_induction {self : Throttle Url} {scope : String}
    {motive : Option Instant → List Instant → List Slot → Prop}
    (hnil : ∀ entry, motive entry [] [])
    (hcons : ∀ (entry : Option Instant) (now : Instant) (rest slots) (slot),
      slot.now = now →
      slot.departs = self.proceedAt (entry.getD now) now →
      self.fits (entry.getD now) now = true →
      motive (some (self.advance (entry.getD now) now)) rest slots →
      motive entry (now :: rest) (slot :: slots))
    (state : ThrottleState) (claims : List Claim)
    (hfit : self.allFit scope state claims = true) :
    motive (state scope) (claimTimes scope claims)
      (self.slots scope state claims) := by
  induction claims generalizing state with
  | nil => exact hnil _
  | cons claim rest ih =>
      simp only [Throttle.allFit, Bool.and_eq_true] at hfit
      have hrest := ih _ hfit.2
      by_cases hscope : claim.scope = scope
      · subst hscope
        have hslot : self.fits ((state claim.scope).getD claim.now)
            claim.now = true := by
          simpa using hfit.1
        rw [Throttle.claim_same] at hrest
        simp only [claimTimes, List.filter_cons, decide_true, if_true,
          List.map_cons, Throttle.slots]
        exact hcons _ _ _ _ _ rfl rfl hslot hrest
      · rw [self.claim_other hscope] at hrest
        simp only [claimTimes, List.filter_cons, hscope, decide_false,
          Bool.false_eq_true, if_false, Throttle.slots]
        exact hrest

theorem Throttle.slots_departures {self : Throttle Url} {scope : String}
    {state : ThrottleState} {claims : List Claim}
    (hfit : self.allFit scope state claims = true) (tat : Instant)
    (hstart : ∀ now ∈ (claimTimes scope claims).head?,
      (state scope).getD now = tat) :
    (self.slots scope state claims).map (fun slot => slot.departs.nanos) =
      departures (self.tolerance.nanos : ℤ) self.interval.nanos tat.nanos
        ((claimTimes scope claims).map Instant.nanos) := by
  revert tat
  refine Throttle.slots_induction
    (motive := fun entry nows slots => ∀ tat : Instant,
      (∀ now ∈ nows.head?, entry.getD now = tat) →
      slots.map (fun slot => slot.departs.nanos) =
        departures (self.tolerance.nanos : ℤ) self.interval.nanos tat.nanos
          (nows.map Instant.nanos)) ?_ ?_ state claims hfit
  · intro entry tat _
    rfl
  · intro entry now rest slots slot _ hdeparts hfits ih tat hstart
    have htat : entry.getD now = tat := hstart now rfl
    rw [htat] at hdeparts hfits ih
    have hrest := ih (self.advance tat now) (fun _ _ => rfl)
    rw [Throttle.advance_nanos hfits] at hrest
    rw [List.map_cons, List.map_cons, departures, hdeparts,
      self.proceedAt_nanos, hrest]

/-! ## Arrival times never move back -/

/-- The stored time of a scope is at least this many nanoseconds. -/
def ThrottleState.AtLeast (state : ThrottleState) (scope : String)
    (nanos : ℤ) : Prop :=
  ∃ tat, state scope = some tat ∧ nanos ≤ tat.nanos

theorem ThrottleState.AtLeast.claim {state : ThrottleState} {scope : String}
    {nanos : ℤ} (hleast : state.AtLeast scope nanos)
    (throttle : Throttle Url) (other : String) (now : Instant) :
    ThrottleState.AtLeast (throttle.claim state other now).2 scope nanos := by
  obtain ⟨tat, htat, hle⟩ := hleast
  by_cases hother : other = scope
  · subst hother
    refine ⟨throttle.advance tat now, ?_, ?_⟩
    · rw [Throttle.claim_same, htat, Option.getD_some]
    · exact hle.trans (throttle.le_advance tat now)
  · exact ⟨tat, by rw [throttle.claim_other hother, htat], hle⟩

theorem ThrottleState.AtLeast.backOff {state next : ThrottleState}
    {scope : String} {nanos : ℤ} (hleast : state.AtLeast scope nanos)
    {throttle : Throttle Url} {other : String} {now : Instant}
    {backoff : Duration}
    (hnext : throttle.backOff state other now backoff = some next) :
    next.AtLeast scope nanos := by
  obtain ⟨tat, htat, hle⟩ := hleast
  obtain ⟨target, _, rfl⟩ := Throttle.backOff_eq_some_iff.mp hnext
  by_cases hother : scope = other
  · subst hother
    refine ⟨_, Function.update_self _ _ _, ?_⟩
    rw [htat, Option.getD_some, Instant.max_nanos]
    exact hle.trans (le_max_left _ _)
  · exact ⟨tat, by rw [Function.update_of_ne hother, htat], hle⟩

theorem ThrottleState.atLeast_backOff {state next : ThrottleState}
    {throttle : Throttle Url} {scope : String} {now : Instant}
    {backoff : Duration}
    (hnext : throttle.backOff state scope now backoff = some next) :
    next.AtLeast scope
      (now.nanos + backoff.nanos + throttle.tolerance.nanos) := by
  obtain ⟨target, htarget, rfl⟩ := Throttle.backOff_eq_some_iff.mp hnext
  refine ⟨_, Function.update_self _ _ _, ?_⟩
  rw [Instant.max_nanos, ← htarget]
  exact le_max_right _ _

theorem ThrottleState.AtLeast.afterResponse {state next : ThrottleState}
    {scope : String} {nanos : ℤ} (hleast : state.AtLeast scope nanos)
    {throttle : Throttle Url} {url : Url} {now : Instant}
    {serverBackoff : Option Duration}
    (hnext : throttle.afterResponse state url now serverBackoff = some next) :
    next.AtLeast scope nanos := by
  unfold Throttle.afterResponse at hnext
  split at hnext
  · cases serverBackoff with
    | none =>
        rw [Option.some.injEq] at hnext
        exact hnext ▸ hleast
    | some backoff => exact hleast.backOff hnext
  · rw [Option.some.injEq] at hnext
    exact hnext ▸ hleast

/-- The tolerance added to a back-off is what a claim may take off again. -/
theorem Throttle.slot_departs_of_atLeast {state : ThrottleState}
    {scope : String} {nanos : ℤ} {throttle : Throttle Url}
    (hleast : state.AtLeast scope (nanos + throttle.tolerance.nanos))
    (now : Instant) :
    nanos ≤ (throttle.slot state ⟨scope, now⟩).departs.nanos := by
  obtain ⟨tat, htat, hle⟩ := hleast
  have hdeparts : (throttle.slot state ⟨scope, now⟩).departs =
      throttle.proceedAt tat now := by
    simp only [Throttle.slot, htat, Option.getD_some]
  have hdeparture := sub_le_departure (throttle.tolerance.nanos : ℤ)
    tat.nanos now.nanos
  rw [hdeparts, Throttle.proceedAt_nanos]
  linarith

end

/-! ## The configured pace -/

theorem Quota.interval_nanos (quota : Quota) :
    quota.interval.nanos = (roundHalfEven
      (quota.window.nanos / (max quota.count.toNat 1 : ℕ) : ℚ)).toNat := by
  rw [← Duration.ofNanos?_eq_some_iff, ← Quota.interval?_eq,
    Quota.interval, Option.some_get]

theorem Quota.burstHeadroom_toNat (quota : Quota) :
    quota.burstHeadroom.toNat = min (quota.burst.toNat - 1) (2 ^ 32 - 1) :=
  UInt32.toNat_ofNat_of_lt' (by simp only [UInt32.size]; omega)

theorem Quota.tolerance_nanos_le (quota : Quota) :
    quota.tolerance.nanos ≤
      quota.interval.nanos * (quota.burst.toNat - 1) := by
  have hheadroom : quota.interval.nanos * quota.burstHeadroom.toNat ≤
      quota.interval.nanos * (quota.burst.toNat - 1) := by
    rw [Quota.burstHeadroom_toNat]
    exact Nat.mul_le_mul_left _ (min_le_left _ _)
  unfold Quota.tolerance
  cases hmul : quota.interval.checkedMul quota.burstHeadroom with
  | none =>
      have hnot := Duration.ofNanos?_isSome_iff.not.mp
        (Option.not_isSome_iff_eq_none.mpr hmul)
      change durationLimit - 1 ≤ _
      omega
  | some tolerance =>
      rw [Option.getD_some, Duration.ofNanos?_eq_some_iff.mp hmul]
      exact hheadroom

theorem Quota.tolerance_nanos {quota : Quota}
    (hburst : quota.burst.toNat ≤ 2 ^ 32)
    (hrange : quota.interval.nanos * (quota.burst.toNat - 1) <
      durationLimit) :
    quota.tolerance.nanos =
      quota.interval.nanos * (quota.burst.toNat - 1) := by
  have hheadroom : quota.burstHeadroom.toNat = quota.burst.toNat - 1 := by
    rw [Quota.burstHeadroom_toNat]
    omega
  obtain ⟨tolerance, hmul⟩ := Option.isSome_iff_exists.mp
    (Duration.ofNanos?_isSome_iff.mpr hrange)
  rw [Quota.tolerance, Duration.checkedMul, hheadroom, hmul,
    Option.getD_some, Duration.ofNanos?_eq_some_iff.mp hmul]

end TrilliumRatelimit
