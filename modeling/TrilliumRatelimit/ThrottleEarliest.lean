import TrilliumRatelimit.ThrottleSpacing

/-!
# When a claim departs

The map of arrival times in closed form.  Every claim and every back-off of a
scope is a floor under the departures of the claims after it: a claim at `t`
with `n` claims in between keeps the next from departing before `t` and `n + 1`
intervals, less the tolerance, and a back-off before what it asked for and
`n` intervals.  A claim departs at the earliest time that is above all floors
and not in the past, so the throttle holds nothing back for longer than one
of them demands.
-/

namespace TrilliumRatelimit

def ThrottleOp.claims (scope : String) : ThrottleOp → Bool
  | .claim other _ => other = scope
  | .backOff _ _ _ => false

/-- Claims of the scope. -/
def claimsOf (scope : String) (ops : List ThrottleOp) : ℕ :=
  ops.countP (ThrottleOp.claims scope)

section

variable {Url : Type*}

/-- The floor an operation puts under the claim that follows it after this
many others. -/
def Throttle.floor (self : Throttle Url) (scope : String) (between : ℕ) :
    ThrottleOp → Option ℤ
  | .claim other now =>
      if other = scope
      then some (now.nanos + (between + 1) * self.interval.nanos -
        self.tolerance.nanos)
      else none
  | .backOff other now backoff =>
      if other = scope
      then some (now.nanos + backoff.nanos + between * self.interval.nanos)
      else none

/-- The floors under the next claim of the scope. -/
def Throttle.floors (self : Throttle Url) (scope : String) :
    List ThrottleOp → List ℤ
  | [] => []
  | op :: rest =>
      (self.floor scope (claimsOf scope rest) op).toList ++
        self.floors scope rest

theorem claimsOf_cons (scope : String) (op : ThrottleOp)
    (rest : List ThrottleOp) :
    claimsOf scope (op :: rest) =
      claimsOf scope rest + if op.claims scope then 1 else 0 :=
  List.countP_cons

theorem max_add_le_iff (a b c bound : ℤ) :
    max a b + c ≤ bound ↔ a + c ≤ bound ∧ b + c ≤ bound := by
  omega

/-! ## The stored time -/

/-- How far one operation moves the stored time, as far as a bound on it `n`
claims later can tell. -/
theorem Throttle.apply_le_iff {self : Throttle Url} {state : ThrottleState}
    {op : ThrottleOp} (hfit : self.opFits state op = true) (scope : String)
    (n : ℕ) (bound : ℤ) :
    (∀ tat, self.apply state op scope = some tat →
        tat.nanos + n * self.interval.nanos ≤ bound) ↔
      (∀ tat, state scope = some tat →
        tat.nanos + (n + if op.claims scope then 1 else 0 : ℕ) *
          self.interval.nanos ≤ bound) ∧
      ∀ floor ∈ self.floor scope n op,
        floor + self.tolerance.nanos ≤ bound := by
  cases op with
  | claim other now =>
      by_cases hother : other = scope
      · subst hother
        have hadvance := Throttle.advance_nanos hfit
        simp only [Throttle.apply, Throttle.claim_same, ThrottleOp.claims,
          Throttle.floor, decide_true, if_true, Option.mem_def,
          Option.some.injEq, forall_eq', hadvance, VirtualSchedule.advance]
        push_cast
        cases state other with
        | none =>
            simp only [Option.getD_none, max_self, reduceCtorEq,
              false_imp_iff, implies_true, true_and]
            constructor <;> intro h <;> linarith
        | some tat =>
            simp only [Option.getD_some, Option.some.injEq, forall_eq']
            rw [add_assoc, max_add_le_iff]
            apply and_congr
            · constructor <;> intro h <;> linarith
            · constructor <;> intro h <;> linarith
      · simp only [Throttle.apply, self.claim_other hother,
          ThrottleOp.claims, Throttle.floor, hother, decide_false, if_false,
          Bool.false_eq_true, add_zero]
        simp
  | backOff other now backoff =>
      obtain ⟨next, hnext⟩ := Option.isSome_iff_exists.mp hfit
      obtain ⟨target, htarget, rfl⟩ := Throttle.backOff_eq_some_iff.mp hnext
      rw [Throttle.apply, hnext, Option.getD_some]
      by_cases hother : other = scope
      · subst hother
        simp only [Function.update_self, ThrottleOp.claims, Throttle.floor,
          if_true, Bool.false_eq_true, if_false, add_zero, Option.mem_def,
          Option.some.injEq, forall_eq', Instant.max_nanos]
        cases state other with
        | none =>
            simp only [Option.getD_none, max_self, reduceCtorEq,
              false_imp_iff, implies_true, true_and]
            constructor <;> intro h <;> linarith
        | some tat =>
            simp only [Option.getD_some, Option.some.injEq, forall_eq']
            rw [max_add_le_iff]
            apply and_congr_right
            intro _
            constructor <;> intro h <;> linarith
      · simp only [Function.update_of_ne (Ne.symm hother),
          ThrottleOp.claims, Throttle.floor, hother, if_false,
          Bool.false_eq_true, add_zero]
        simp

theorem Throttle.applyAll_le_iff {self : Throttle Url}
    {state : ThrottleState} {ops : List ThrottleOp}
    (hfit : self.opsFit state ops = true) (scope : String) (bound : ℤ) :
    (∀ tat, self.applyAll state ops scope = some tat →
        tat.nanos ≤ bound) ↔
      (∀ tat, state scope = some tat →
        tat.nanos + claimsOf scope ops * self.interval.nanos ≤ bound) ∧
      ∀ floor ∈ self.floors scope ops,
        floor + self.tolerance.nanos ≤ bound := by
  induction ops generalizing state with
  | nil => simp [Throttle.applyAll, claimsOf, Throttle.floors]
  | cons op rest ih =>
      simp only [Throttle.opsFit, Bool.and_eq_true] at hfit
      have hstep := Throttle.apply_le_iff hfit.1 scope (claimsOf scope rest)
        bound
      have hrest := ih hfit.2
      simp only [Throttle.applyAll, List.foldl_cons] at hrest ⊢
      rw [hrest, hstep, claimsOf_cons, Throttle.floors]
      simp only [List.mem_append, Option.mem_toList, Option.mem_def, or_imp,
        forall_and, and_assoc]

/-! ## Departures -/

theorem Throttle.slot_departs_le_iff (self : Throttle Url)
    (state : ThrottleState) (scope : String) (now : Instant) (nanos : ℤ) :
    (self.slot state ⟨scope, now⟩).departs.nanos ≤ nanos ↔
      now.nanos ≤ nanos ∧
        ∀ tat, state scope = some tat →
          tat.nanos ≤ nanos + self.tolerance.nanos := by
  have hslot : (self.slot state ⟨scope, now⟩).departs.nanos =
      VirtualSchedule.departure (self.tolerance.nanos : ℤ)
        ((state scope).getD now).nanos now.nanos :=
    self.proceedAt_nanos _ _
  rw [hslot, VirtualSchedule.departure, max_le_iff]
  apply and_congr_right
  intro hnow
  cases state scope with
  | none => simp; omega
  | some tat => simp

/-- A claim is handed its slot in the order of the claims of its scope. -/
theorem Throttle.opSlots_getElem?_claimsOf (self : Throttle Url)
    (scope : String) (state : ThrottleState) (now : Instant)
    (before after : List ThrottleOp) :
    (self.opSlots scope state
        (before ++ .claim scope now :: after))[claimsOf scope before]? =
      some (self.slot (self.applyAll state before) ⟨scope, now⟩) := by
  induction before generalizing state with
  | nil =>
      simp [claimsOf, Throttle.opSlots, Throttle.opSlot, Throttle.applyAll]
  | cons op rest ih =>
      have hrest := ih (self.apply state op)
      rw [List.cons_append, claimsOf_cons, Throttle.opSlots,
        Throttle.applyAll, List.foldl_cons, ← Throttle.applyAll]
      cases op with
      | claim other time =>
          by_cases hother : other = scope
          · simpa [Throttle.opSlot, ThrottleOp.claims, hother] using hrest
          · simpa [Throttle.opSlot, ThrottleOp.claims, hother] using hrest
      | backOff other time backoff =>
          simpa [Throttle.opSlot, ThrottleOp.claims] using hrest

/-- Each claim of any run departs at the earliest time that is not in the past
and respects every earlier claim and back-off of its scope. -/
theorem claims_depart_earliest (originScope : Url → String) (quota : Quota)
    {scope : String} {now : Instant} {before after : List ThrottleOp}
    (hfit : (Throttle.new originScope quota).opsFit (fun _ => none)
      (before ++ .claim scope now :: after) = true) :
    ∃ slot,
      ((Throttle.new originScope quota).opSlots scope (fun _ => none)
        (before ++ .claim scope now :: after))[claimsOf scope before]? =
          some slot ∧
      slot.now = now ∧
      IsLeast {nanos : ℤ | now.nanos ≤ nanos ∧
        ∀ floor ∈ (Throttle.new originScope quota).floors scope before,
          floor ≤ nanos} slot.departs.nanos := by
  rw [Throttle.opsFit_append, Bool.and_eq_true] at hfit
  have hleast : ∀ nanos : ℤ,
      ((Throttle.new originScope quota).slot
        ((Throttle.new originScope quota).applyAll (fun _ => none) before)
          ⟨scope, now⟩).departs.nanos ≤ nanos ↔
        now.nanos ≤ nanos ∧
          ∀ floor ∈ (Throttle.new originScope quota).floors scope before,
            floor ≤ nanos := by
    intro nanos
    have hstored := Throttle.applyAll_le_iff hfit.1 scope
      (nanos + (Throttle.new originScope quota).tolerance.nanos)
    rw [Throttle.slot_departs_le_iff, hstored]
    simp
  refine ⟨_, Throttle.opSlots_getElem?_claimsOf _ _ _ _ _ _, rfl, ?_, ?_⟩
  · exact (hleast _).mp le_rfl
  · exact fun nanos hnanos => (hleast nanos).mpr hnanos

end

/-- Two a second, no burst: a claim behind a back-off of three seconds and
another claim departs half a second after the back-off ends. -/
theorem claims_depart_earliest_backOff :
    IsLeast {nanos : ℤ | (Instant.atSec 2).nanos ≤ nanos ∧
      ∀ floor ∈ (Throttle.new id ((Quota.perSecond 2).allowBurst 1)).floors
        "a" [.backOff "a" (Instant.atSec 1) (Duration.fromSecs 3),
          .claim "b" (Instant.atSec 2), .claim "a" (Instant.atSec 1)],
        floor ≤ nanos} 4500000000 := by
  have hfit : (Throttle.new id ((Quota.perSecond 2).allowBurst 1)).opsFit
      (fun _ => none)
      ([.backOff "a" (Instant.atSec 1) (Duration.fromSecs 3),
        .claim "b" (Instant.atSec 2), .claim "a" (Instant.atSec 1)] ++
          [.claim "a" (Instant.atSec 2)]) = true := by decide +kernel
  obtain ⟨slot, hslot, _, hleast⟩ := claims_depart_earliest id _ hfit
  have hdeparts : slot.departs.nanos = 4500000000 := by
    have hsome := Option.some.inj hslot
    rw [← hsome]
    decide +kernel
  rwa [hdeparts] at hleast

end TrilliumRatelimit
