import TrilliumRatelimit.ThrottleSpacing

/-!
# Back-offs only slow a client down

Two runs of the same claims, one with back-offs put in between.  The stored
times of the second are never earlier, so none of its claims departs earlier
than in the first.
-/

namespace TrilliumRatelimit

def ThrottleOp.isClaim : ThrottleOp → Bool
  | .claim _ _ => true
  | .backOff _ _ _ => false

/-- Every stored time of the slower map is at least the faster map's. -/
def ThrottleState.LeSlower (state slower : ThrottleState) : Prop :=
  ∀ scope tat, state scope = some tat → slower.AtLeast scope tat.nanos

section

variable {Url : Type*} {self : Throttle Url}

theorem ThrottleState.LeSlower.refl (state : ThrottleState) :
    state.LeSlower state := fun _ tat htat => ⟨tat, htat, le_rfl⟩

theorem ThrottleState.LeSlower.backOff {state slower : ThrottleState}
    (hle : state.LeSlower slower) (scope : String) (now : Instant)
    (backoff : Duration) :
    state.LeSlower (self.apply slower (.backOff scope now backoff)) :=
  fun other tat htat => (hle other tat htat).apply self _

/-- A claim finds a time that is no earlier in the slower map, or none in the
faster. -/
theorem ThrottleState.LeSlower.max_le {state slower : ThrottleState}
    (hle : state.LeSlower slower) (scope : String) (now : Instant) :
    max ((state scope).getD now) now ≤ max ((slower scope).getD now) now := by
  cases htat : state scope with
  | none =>
      rw [Option.getD_none, max_self]
      exact le_max_right _ _
  | some tat =>
      obtain ⟨later, hlater, htats⟩ := hle scope tat htat
      rw [hlater, Option.getD_some, Option.getD_some]
      exact max_le_max_right now ((Instant.le_def _ _).mpr htats)

theorem ThrottleState.LeSlower.opFits {state slower : ThrottleState}
    (hle : state.LeSlower slower) {scope : String} {now : Instant}
    (hfits : self.opFits slower (.claim scope now) = true) :
    self.opFits state (.claim scope now) = true := by
  have hmax := (Instant.le_def _ _).mp (hle.max_le scope now)
  simp only [Throttle.opFits, Throttle.fits,
    Instant.checkedAdd_isSome_iff] at hfits ⊢
  linarith

theorem ThrottleState.LeSlower.claim {state slower : ThrottleState}
    (hle : state.LeSlower slower) {scope : String} {now : Instant}
    (hfits : self.opFits slower (.claim scope now) = true) :
    ThrottleState.LeSlower (self.apply state (.claim scope now))
      (self.apply slower (.claim scope now)) := by
  intro other tat htat
  by_cases hother : scope = other
  · subst hother
    simp only [Throttle.apply, Throttle.claim_same, Option.some.injEq] at htat
    refine ⟨_, self.claim_same scope slower now, ?_⟩
    have hmax := (Instant.le_def _ _).mp (hle.max_le scope now)
    simp only [Instant.max_nanos] at hmax
    rw [← htat, Throttle.advance_nanos (hle.opFits hfits),
      Throttle.advance_nanos hfits, VirtualSchedule.advance,
      VirtualSchedule.advance]
    linarith
  · simp only [Throttle.apply, self.claim_other hother] at htat
    obtain ⟨later, hlater, htats⟩ := hle other tat htat
    exact ⟨later, by rw [Throttle.apply, self.claim_other hother, hlater],
      htats⟩

theorem ThrottleState.LeSlower.departs_le {state slower : ThrottleState}
    (hle : state.LeSlower slower) (scope : String) (now : Instant) :
    (self.slot state ⟨scope, now⟩).departs ≤
      (self.slot slower ⟨scope, now⟩).departs := by
  rw [Instant.le_def]
  change (self.proceedAt _ _).nanos ≤ (self.proceedAt _ _).nanos
  rw [Throttle.proceedAt_nanos, Throttle.proceedAt_nanos]
  cases htat : state scope with
  | none =>
      -- the faster map has no entry, so the claim departs at once
      rw [Option.getD_none, VirtualSchedule.departure,
        max_eq_left (sub_le_self _ (Int.natCast_nonneg _))]
      exact le_max_left _ _
  | some tat =>
      obtain ⟨later, hlater, htats⟩ := hle scope tat htat
      rw [hlater]
      exact VirtualSchedule.departure_mono htats le_rfl

/-! ## Runs -/

theorem Throttle.forall₂_departs_le {state slower : ThrottleState}
    (hle : state.LeSlower slower) (scope : String) {ops : List ThrottleOp}
    (hfit : self.opsFit slower ops = true) :
    List.Forall₂ (fun slot slower => slot.departs ≤ slower.departs)
      (self.opSlots scope state (ops.filter ThrottleOp.isClaim))
      (self.opSlots scope slower ops) := by
  induction ops generalizing state slower with
  | nil => exact .nil
  | cons op rest ih =>
      simp only [Throttle.opsFit, Bool.and_eq_true] at hfit
      cases op with
      | backOff other now backoff =>
          exact ih (hle.backOff other now backoff) hfit.2
      | claim other now =>
          have hrest := ih (hle.claim hfit.1) hfit.2
          rw [List.filter_cons_of_pos (by rfl), Throttle.opSlots,
            Throttle.opSlots]
          by_cases hother : other = scope
          · subst hother
            simp only [Throttle.opSlot, if_true, Option.toList_some,
              List.singleton_append]
            exact .cons (hle.departs_le other now) hrest
          · simp only [Throttle.opSlot, hother, if_false, Option.toList_none,
              List.nil_append]
            exact hrest

/-- After a back-off every claim of the scope departs when it is over, with
any clock reading and for the rest of the run. -/
theorem Throttle.add_le_departs_of_backOff {scope : String}
    {state : ThrottleState} {now : Instant} {backoff : Duration}
    (hfits : self.opFits state (.backOff scope now backoff) = true)
    (ops : List ThrottleOp) :
    ∀ slot ∈ self.opSlots scope
        (self.apply state (.backOff scope now backoff)) ops,
      now.nanos + backoff.nanos ≤ slot.departs.nanos := by
  obtain ⟨next, hnext⟩ := Option.isSome_iff_exists.mp hfits
  have hleast := ThrottleState.atLeast_backOff hnext
  have happly : self.apply state (.backOff scope now backoff) = next := by
    rw [Throttle.apply, hnext, Option.getD_some]
  rw [happly]
  clear happly hnext hfits
  induction ops generalizing next with
  | nil => simp [Throttle.opSlots]
  | cons op rest ih =>
      intro slot hslot
      rcases self.opSlots_cons_cases scope next op rest with
        ⟨later, rfl, hslots⟩ | hslots
      · rw [hslots] at hslot
        rcases List.mem_cons.mp hslot with rfl | hslot
        · exact Throttle.slot_departs_of_atLeast hleast later
        · exact ih _ (hleast.apply self _) slot hslot
      · rw [hslots] at hslot
        exact ih _ (hleast.apply self op) slot hslot

/-- Putting back-offs into a run of claims delays departures only, and a
back-off holds every later claim of its scope until it is over. -/
theorem backOffs_only_delay (originScope : Url → String) (quota : Quota)
    (scope : String) (ops : List ThrottleOp)
    (hfit : (Throttle.new originScope quota).opsFit (fun _ => none) ops =
      true) :
    List.Forall₂ (fun slot slower => slot.departs ≤ slower.departs)
      ((Throttle.new originScope quota).opSlots scope (fun _ => none)
        (ops.filter ThrottleOp.isClaim))
      ((Throttle.new originScope quota).opSlots scope (fun _ => none) ops) ∧
    ∀ before now backoff after,
      ops = before ++ .backOff scope now backoff :: after →
      ∀ slot ∈ (Throttle.new originScope quota).opSlots scope
          ((Throttle.new originScope quota).applyAll (fun _ => none)
            (before ++ [.backOff scope now backoff])) after,
        now.nanos + backoff.nanos ≤ slot.departs.nanos := by
  constructor
  · exact Throttle.forall₂_departs_le (.refl _) scope hfit
  · rintro before now backoff after rfl
    simp only [Throttle.opsFit_append, Throttle.opsFit, Bool.and_eq_true]
      at hfit
    rw [Throttle.applyAll_append, Throttle.applyAll_singleton]
    exact Throttle.add_le_departs_of_backOff hfit.2.1 after

end

/-- A back-off of three seconds before the first claim of a scope, with all of
the burst unused, and one of a second between two claims. -/
theorem backOffs_only_delay_burst :
    List.Forall₂ (fun slot slower => slot.departs ≤ slower.departs)
      ((Throttle.new id (Quota.perSecond 2)).opSlots "a" (fun _ => none)
        [.claim "a" (Instant.atSec 1), .claim "a" (Instant.atSec 1)])
      ((Throttle.new id (Quota.perSecond 2)).opSlots "a" (fun _ => none)
        [.backOff "a" (Instant.atSec 0) (Duration.fromSecs 3),
          .claim "a" (Instant.atSec 1),
          .backOff "a" (Instant.atSec 3) (Duration.fromSecs 1),
          .claim "a" (Instant.atSec 1)]) ∧
    ∀ slot ∈ (Throttle.new id (Quota.perSecond 2)).opSlots "a"
        ((Throttle.new id (Quota.perSecond 2)).applyAll (fun _ => none)
          [.backOff "a" (Instant.atSec 0) (Duration.fromSecs 3)])
        [.claim "a" (Instant.atSec 1),
          .backOff "a" (Instant.atSec 3) (Duration.fromSecs 1),
          .claim "a" (Instant.atSec 1)],
      (Instant.atSec 0).nanos + (Duration.fromSecs 3).nanos ≤
        slot.departs.nanos := by
  have hfit : (Throttle.new id (Quota.perSecond 2)).opsFit (fun _ => none)
      [.backOff "a" (Instant.atSec 0) (Duration.fromSecs 3),
        .claim "a" (Instant.atSec 1),
        .backOff "a" (Instant.atSec 3) (Duration.fromSecs 1),
        .claim "a" (Instant.atSec 1)] = true := by decide +kernel
  obtain ⟨hdelay, hheld⟩ :=
    backOffs_only_delay id (Quota.perSecond 2) "a" _ hfit
  exact ⟨hdelay, hheld [] _ _ _ rfl⟩

end TrilliumRatelimit
