import TrilliumRatelimit.BucketConformance
import TrilliumRatelimit.Throttle

/-!
# The throttle and the bucket are dual

For a quota whose interval is a whole number of nanoseconds, the throttle
releases a request at the first moment the server's bucket for the same quota
would allow it.  Both keep one number: in tokens, the bucket is as far below
its burst as the arrival time is ahead of the clock.
-/

namespace TrilliumRatelimit

open CappedLevel VirtualSchedule

/-- The quotas the duality is exact for. -/
structure Quota.ExactPace (quota : Quota) : Prop where
  count : quota.count ≠ 0
  window : quota.window ≠ Duration.zero
  burst : 1 ≤ quota.burst.toNat
  headroom : quota.burst.toNat ≤ 2 ^ 32
  divides : quota.count.toNat ∣ quota.window.nanos
  tolerance :
    (quota.burst.toNat - 1) * quota.window.nanos / quota.count.toNat <
      durationLimit

def Slot.toCall (slot : Slot) : Call := ⟨slot.departs, 1⟩

/-! ## The pace in tokens -/

theorem Quota.ExactPace.count_pos {quota : Quota} (hexact : quota.ExactPace) :
    0 < quota.count.toNat := Quota.count_pos hexact.count

theorem Quota.ExactPace.window_ne {quota : Quota} (hexact : quota.ExactPace) :
    quota.window.nanos ≠ 0 := (Duration.nanos_pos hexact.window).ne'

theorem Quota.ExactPace.interval_mul {quota : Quota}
    (hexact : quota.ExactPace) :
    quota.interval.nanos * quota.count.toNat = quota.window.nanos := by
  have hpos := hexact.count_pos
  have hquotient : (quota.window.nanos / (max quota.count.toNat 1 : ℕ) : ℚ) =
      (quota.window.nanos / quota.count.toNat : ℕ) := by
    rw [max_eq_left hpos, Nat.cast_div hexact.divides (by positivity)]
  rw [Quota.interval_nanos, hquotient, roundHalfEven_natCast,
    Int.toNat_natCast, Nat.div_mul_cancel hexact.divides]

theorem Quota.ExactPace.tolerance_nanos {quota : Quota}
    (hexact : quota.ExactPace) :
    quota.tolerance.nanos =
      quota.interval.nanos * (quota.burst.toNat - 1) := by
  apply Quota.tolerance_nanos hexact.headroom
  have htolerance := hexact.tolerance
  rw [← hexact.interval_mul, ← mul_assoc, Nat.mul_div_cancel _
    hexact.count_pos, mul_comm] at htolerance
  exact htolerance

theorem Quota.ExactPace.cap_eq {quota : Quota} (hexact : quota.ExactPace) :
    quota.cap = (quota.burst.toNat - 1 : ℕ) + 1 := by
  have hburst := hexact.burst
  rw [Quota.cap]
  exact_mod_cast (Nat.sub_add_cancel hburst).symm

/-- Nanoseconds, counted in tokens. -/
def Quota.unitsOf (quota : Quota) (nanos : ℤ) : ℚ :=
  nanos * quota.count.toNat / quota.window.nanos

theorem Quota.unitsOf_interval_mul {quota : Quota} (hexact : quota.ExactPace)
    (n : ℕ) : quota.unitsOf (quota.interval.nanos * n : ℕ) = n := by
  have hwindow : (quota.window.nanos : ℚ) ≠ 0 := by
    exact_mod_cast hexact.window_ne
  rw [Quota.unitsOf, div_eq_iff hwindow, ← hexact.interval_mul]
  push_cast
  ring

theorem Quota.unitsOf_strictMono {quota : Quota} (hexact : quota.ExactPace) :
    StrictMono quota.unitsOf := by
  intro a b hab
  have hcount : (0 : ℚ) < quota.count.toNat := by
    exact_mod_cast hexact.count_pos
  have hwindow : (0 : ℚ) < quota.window.nanos := by
    exact_mod_cast Nat.pos_of_ne_zero hexact.window_ne
  have hlt : (a : ℚ) < b := by exact_mod_cast hab
  unfold Quota.unitsOf
  gcongr

theorem Quota.unitsOf_max {quota : Quota} (hexact : quota.ExactPace)
    (a b : ℤ) :
    quota.unitsOf (max a b) = max (quota.unitsOf a) (quota.unitsOf b) :=
  (Quota.unitsOf_strictMono hexact).monotone.map_max

theorem Quota.units_lt_iff {quota : Quota} (hexact : quota.ExactPace)
    {a b : Instant} : quota.units a < quota.units b ↔ a < b :=
  (Quota.unitsOf_strictMono hexact).lt_iff_lt

section

variable {Url : Type*} {originScope : Url → String} {quota : Quota}

theorem units_proceedAt (hexact : quota.ExactPace)
    (originScope : Url → String) (tat now : Instant) :
    quota.units ((Throttle.new originScope quota).proceedAt tat now) =
      departure (quota.cap - 1) (quota.units tat) (quota.units now) := by
  have htolerance := Quota.unitsOf_interval_mul hexact
    (quota.burst.toNat - 1)
  rw [← hexact.tolerance_nanos] at htolerance
  have hsub : quota.unitsOf (tat.nanos - (quota.tolerance.nanos : ℤ)) =
      quota.unitsOf tat.nanos - quota.unitsOf quota.tolerance.nanos := by
    simp only [Quota.unitsOf]
    push_cast
    ring
  change quota.unitsOf _ = _
  rw [Throttle.proceedAt_nanos, departure, Quota.unitsOf_max hexact]
  change max _ (quota.unitsOf (tat.nanos - (quota.tolerance.nanos : ℤ))) = _
  rw [hsub, htolerance, hexact.cap_eq, add_sub_cancel_right]
  rfl

theorem units_advance (hexact : quota.ExactPace) {tat now : Instant}
    (hfits : (Throttle.new originScope quota).fits tat now = true) :
    quota.units ((Throttle.new originScope quota).advance tat now) =
      VirtualSchedule.advance 1 (quota.units tat) (quota.units now) := by
  have hinterval := Quota.unitsOf_interval_mul hexact 1
  rw [mul_one, Nat.cast_one] at hinterval
  have hadd (a : ℤ) : quota.unitsOf (a + (quota.interval.nanos : ℤ)) =
      quota.unitsOf a + quota.unitsOf quota.interval.nanos := by
    simp only [Quota.unitsOf]
    push_cast
    ring
  change quota.unitsOf _ = _
  rw [Throttle.advance_nanos hfits, VirtualSchedule.advance]
  change quota.unitsOf (_ + (quota.interval.nanos : ℤ)) = _
  rw [hadd, hinterval, Quota.unitsOf_max hexact]
  rfl

/-! ## No decision panics -/

theorem secondsToRefill_units (hexact : quota.ExactPace) {tokens : ℚ}
    (start finish : Instant)
    (htokens : tokens ≤ max (quota.units finish - quota.units start) 0) :
    (secondsToRefill tokens (refillPerSecond quota)).isSome := by
  have hcount : (0 : ℚ) < quota.count.toNat := by
    exact_mod_cast hexact.count_pos
  have hwindow : (quota.window.nanos : ℚ) ≠ 0 := by
    exact_mod_cast hexact.window_ne
  have hnanos : quota.nanosFor (quota.units finish - quota.units start) =
      ((finish.nanos - start.nanos : ℤ) : ℚ) := by
    rw [Quota.units_sub, Quota.nanosFor]
    field_simp
  have hrange : finish.nanos - start.nanos ≤ (durationLimit - 1 : ℕ) := by
    have hfinish := finish.upper
    have hstart := start.lower
    have hlimit : ((durationLimit - 1 : ℕ) : ℤ) = 2 * instantLimit - 1 := by
      decide
    omega
  rcases le_max_iff.mp htokens with hle | hle
  · apply secondsToRefill_isSome_mono hle
    apply secondsToRefill_isSome hexact.count hexact.window_ne
    rw [hnanos]
    exact_mod_cast hrange
  · rw [secondsToRefill_of_nonpos hle]
    rfl

theorem decisionAt_isSome {level : ℚ} {cost : UInt64}
    (hcost : (cost.toNat : ℚ) ≤ quota.cap)
    (hfull : (secondsToRefill
      (quota.cap - if (cost.toNat : ℚ) ≤ level then level - cost.toNat
        else level) (refillPerSecond quota)).isSome) :
    (quota.decisionAt level cost).isSome := by
  refine Quota.decisionAt_isSome_iff.mpr ⟨hfull, fun hlt => ?_⟩
  rw [if_neg hlt.not_ge] at hfull
  exact secondsToRefill_isSome_mono (sub_le_sub_right hcost level) hfull

/-! ## One claim -/

/-- What links the bucket to the scope's arrival time when a request arrives
at `now`. -/
structure Paced (originScope : Url → String) (quota : Quota)
    (bucket : Bucket) (tat now : Instant) : Prop where
  dual : Dual quota.cap (bucket.toMeter quota) (quota.units tat)
  behind : bucket.lastUpdate ≤
    (Throttle.new originScope quota).proceedAt tat now

theorem Paced.levelAt {bucket : Bucket} {tat now t : Instant}
    (hpaced : Paced originScope quota bucket tat now)
    (hlast : bucket.lastUpdate ≤ t) :
    bucket.levelAt quota t =
      quota.cap - max (quota.units tat - quota.units t) 0 :=
  hpaced.dual _ (quota.units_mono hlast)

/-- The bucket answers a unit request at `now` with `allowed`. -/
def Bucket.Answers (quota : Quota) (bucket : Bucket) (now : Instant)
    (allowed : Bool) : Prop :=
  ∃ decision, (bucket.tryConsume now quota 1).2 = some decision ∧
    decision.allowed = allowed

/-- The departures the bucket allows one by one, each at the first moment it
would. -/
def DualRun (quota : Quota) : Bucket → List Slot → Prop
  | _, [] => True
  | bucket, slot :: rest =>
      bucket.lastUpdate ≤ slot.departs ∧
      bucket.Answers quota slot.departs true ∧
      (∀ t, slot.now ≤ t → bucket.lastUpdate ≤ t → t < slot.departs →
        bucket.Answers quota t false) ∧
      DualRun quota (bucket.tryConsume slot.departs quota 1).1 rest

theorem Bucket.answers_iff {bucket : Bucket} {now : Instant} {allowed : Bool}
    (hsome : (quota.decisionAt (bucket.levelAt quota now) 1).isSome) :
    bucket.Answers quota now allowed ↔
      decide (1 ≤ bucket.levelAt quota now) = allowed := by
  obtain ⟨decision, hdecision⟩ := Option.isSome_iff_exists.mp hsome
  have hallowed := Quota.decisionAt_allowed hdecision
  rw [UInt64.toNat_one, Nat.cast_one] at hallowed
  rw [Bucket.Answers, Bucket.tryConsume_decision, hdecision]
  simp [hallowed]

theorem Quota.ExactPace.one_le_cap (hexact : quota.ExactPace) :
    (1 : ℚ) ≤ quota.cap := by
  rw [hexact.cap_eq]
  exact le_add_of_nonneg_left (Nat.cast_nonneg _)

theorem Paced.answers_departure (hexact : quota.ExactPace) {bucket : Bucket}
    {tat now : Instant}
    (hpaced : Paced originScope quota bucket tat now)
    (hfits : (Throttle.new originScope quota).fits tat now = true) :
    bucket.Answers quota ((Throttle.new originScope quota).proceedAt tat now)
      true := by
  have hcap := hexact.one_le_cap
  have hslack : 0 ≤ quota.cap - 1 := sub_nonneg.mpr hcap
  have hmark := quota.units_mono hpaced.behind
  have hdepart := units_proceedAt hexact originScope tat now
  have hadvance := units_advance hexact hfits
  have hlevel := hpaced.levelAt hpaced.behind
  have hcovered : 1 ≤ bucket.levelAt quota
      ((Throttle.new originScope quota).proceedAt tat now) := by
    apply (hpaced.dual.le_levelAt_iff hmark hcap).mpr
    change _ ≤ quota.units _
    rw [hdepart]
    exact sub_le_departure _ _ _
  rw [Bucket.answers_iff]
  · exact decide_eq_true hcovered
  · apply decisionAt_isSome
    · rwa [UInt64.toNat_one, Nat.cast_one]
    · rw [UInt64.toNat_one, Nat.cast_one, if_pos hcovered]
      -- the bucket is full again at the new arrival time
      apply secondsToRefill_units hexact
        ((Throttle.new originScope quota).proceedAt tat now)
        ((Throttle.new originScope quota).advance tat now)
      rw [hlevel, hadvance, VirtualSchedule.advance,
        ← max_departure hslack (quota.units tat) (quota.units now), ← hdepart]
      apply le_max_of_le_left
      rw [add_sub_right_comm, ← max_sub_sub_right, sub_self]
      linarith

theorem Paced.answers_early (hexact : quota.ExactPace) {bucket : Bucket}
    {tat now t : Instant}
    (hpaced : Paced originScope quota bucket tat now)
    (harrived : now ≤ t) (hlast : bucket.lastUpdate ≤ t)
    (hearly : t < (Throttle.new originScope quota).proceedAt tat now) :
    bucket.Answers quota t false := by
  have hcap := hexact.one_le_cap
  have hmark := quota.units_mono hlast
  have hnow := quota.units_mono harrived
  have hdepart := units_proceedAt hexact originScope tat now
  have hlt := (Quota.units_lt_iff hexact).mpr hearly
  rw [hdepart, departure, lt_max_iff] at hlt
  have hdenied : ¬ 1 ≤ bucket.levelAt quota t := by
    intro hcovered
    have hle := (hpaced.dual.le_levelAt_iff hmark hcap).mp hcovered
    rcases hlt with hlt | hlt
    · exact hlt.not_ge hnow
    · exact hlt.not_ge hle
  rw [Bucket.answers_iff]
  · exact decide_eq_false hdenied
  · apply decisionAt_isSome
    · rwa [UInt64.toNat_one, Nat.cast_one]
    · rw [UInt64.toNat_one, Nat.cast_one, if_neg hdenied]
      apply secondsToRefill_units hexact t tat
      rw [hpaced.levelAt hlast]
      exact (sub_sub_cancel _ _).le

theorem Paced.claim (hexact : quota.ExactPace) {bucket : Bucket}
    {tat now later : Instant}
    (hpaced : Paced originScope quota bucket tat now)
    (hfits : (Throttle.new originScope quota).fits tat now = true)
    (hlater : now ≤ later) :
    Paced originScope quota
      (bucket.tryConsume ((Throttle.new originScope quota).proceedAt tat now)
        quota 1).1
      ((Throttle.new originScope quota).advance tat now) later where
  dual := by
    have hmark := quota.units_mono hpaced.behind
    have hdepart := units_proceedAt hexact originScope tat now
    rw [Bucket.tryConsume_toMeter, units_advance hexact hfits, hdepart,
      UInt64.toNat_one, Nat.cast_one]
    rw [hdepart] at hmark
    exact hpaced.dual.spend hexact.one_le_cap hmark
  behind := by
    rw [Bucket.tryConsume_lastUpdate, Instant.le_def,
      Throttle.proceedAt_nanos, Throttle.proceedAt_nanos]
    exact departure_mono ((Throttle.new originScope quota).le_advance tat now)
      hlater

/-! ## Runs of claims -/

theorem Throttle.slots_dualRun (hexact : quota.ExactPace) (scope : String)
    (state : ThrottleState) (claims : List Claim)
    (hfit : (Throttle.new originScope quota).allFit scope state claims = true)
    (hsorted : (claimTimes scope claims).Pairwise (· ≤ ·))
    (bucket : Bucket)
    (hpaced : ∀ now ∈ (claimTimes scope claims).head?,
      Paced originScope quota bucket
        ((state scope).getD now) now) :
    DualRun quota bucket
      ((Throttle.new originScope quota).slots scope state claims) := by
  revert hsorted bucket
  refine Throttle.slots_induction
    (motive := fun entry nows slots => nows.Pairwise (· ≤ ·) →
      ∀ bucket, (∀ now ∈ nows.head?,
        Paced originScope quota bucket (entry.getD now) now) →
      DualRun quota bucket slots) ?_ ?_ state claims hfit
  · intro entry _ bucket _
    trivial
  · intro entry now rest slots slot hnow hdeparts hfits ih hsorted bucket hpaced
    rw [List.pairwise_cons] at hsorted
    have hhead : Paced originScope quota bucket
        (entry.getD now) now := hpaced now rfl
    refine ⟨?_, ?_, ?_, ?_⟩
    · rw [hdeparts]
      exact hhead.behind
    · rw [hdeparts]
      exact hhead.answers_departure hexact hfits
    · intro t harrived hlast hearly
      rw [hnow] at harrived
      rw [hdeparts] at hearly
      exact hhead.answers_early hexact harrived hlast hearly
    · rw [hdeparts]
      apply ih hsorted.2
      intro later hlater
      exact hhead.claim hexact hfits
        (hsorted.1 later (List.mem_of_mem_head? hlater))

end

theorem DualRun.departs_le {quota : Quota} {bucket : Bucket}
    {slots : List Slot} (hrun : DualRun quota bucket slots) :
    ∀ slot ∈ slots, bucket.lastUpdate ≤ slot.departs := by
  induction slots generalizing bucket with
  | nil => simp
  | cons slot rest ih =>
      obtain ⟨hfirst, _, _, hrest⟩ := hrun
      intro other hmem
      rcases List.mem_cons.mp hmem with rfl | hmem
      · exact hfirst
      · have hnext := ih hrest other hmem
        rw [Bucket.tryConsume_lastUpdate] at hnext
        exact hfirst.trans hnext

theorem DualRun.sorted {quota : Quota} {bucket : Bucket} {slots : List Slot}
    (hrun : DualRun quota bucket slots) :
    slots.Pairwise fun a b => a.departs ≤ b.departs := by
  induction slots generalizing bucket with
  | nil => exact .nil
  | cons slot rest ih =>
      obtain ⟨_, _, _, hrest⟩ := hrun
      refine .cons ?_ (ih hrest)
      intro other hmem
      have hnext := hrest.departs_le other hmem
      rwa [Bucket.tryConsume_lastUpdate] at hnext

theorem DualRun.allowed {quota : Quota} {bucket : Bucket}
    {slots : List Slot} (hrun : DualRun quota bucket slots) :
    ∀ outcome ∈ bucket.trace quota (slots.map Slot.toCall),
      ∃ decision, outcome.decision = some decision ∧
        decision.allowed = true := by
  induction slots generalizing bucket with
  | nil => simp [Bucket.trace]
  | cons slot rest ih =>
      obtain ⟨_, hanswer, _, hrest⟩ := hrun
      intro outcome hmem
      simp only [List.map_cons, Bucket.trace, List.mem_cons] at hmem
      rcases hmem with rfl | hmem
      · exact hanswer
      · exact ih hrest outcome hmem

/-- Between the previous departure and its own, a request that has arrived is
denied. -/
theorem DualRun.earliest {quota : Quota} {bucket : Bucket}
    {slots before after : List Slot} {slot : Slot}
    (hrun : DualRun quota bucket slots)
    (hsplit : slots = before ++ slot :: after) {t : Instant}
    (harrived : slot.now ≤ t) (hstart : bucket.lastUpdate ≤ t)
    (hbefore : ∀ earlier ∈ before, earlier.departs ≤ t)
    (hearly : t < slot.departs) :
    (bucket.after quota (before.map Slot.toCall)).Answers quota t false := by
  induction before generalizing bucket slots with
  | nil =>
      subst hsplit
      obtain ⟨_, _, hdenied, _⟩ := hrun
      exact hdenied t harrived hstart hearly
  | cons first before ih =>
      subst hsplit
      obtain ⟨_, _, _, hrest⟩ := hrun
      rw [List.forall_mem_cons] at hbefore
      apply ih hrest rfl
      · rw [Bucket.tryConsume_lastUpdate]
        exact hbefore.1
      · exact hbefore.2

theorem Throttle.slots_head {Url : Type*} {self : Throttle Url}
    {scope : String} {state : ThrottleState} (hempty : state scope = none)
    {claims : List Claim} (hfit : self.allFit scope state claims = true)
    {first : Slot} {rest : List Slot}
    (hslots : self.slots scope state claims = first :: rest) :
    first.departs = first.now ∧
      (claimTimes scope claims).head? = some first.now := by
  have hhead := Throttle.slots_induction
    (motive := fun entry nows slots => entry = none →
      ∀ first ∈ slots.head?, first.departs = first.now ∧
        nows.head? = some first.now)
    (fun _ _ => by simp)
    (by
      intro entry now rest slots slot hnow hdeparts _ _ hentry first hfirst
      simp only [List.head?_cons, Option.mem_def,
        Option.some.injEq] at hfirst ⊢
      subst hfirst hentry
      refine ⟨?_, hnow.symm⟩
      rw [hdeparts, hnow, Option.getD_none]
      apply Instant.ext
      rw [self.proceedAt_nanos, departure]
      omega)
    state claims hfit hempty
  rw [hslots] at hhead
  exact hhead first rfl

theorem throttle_is_dual_of_bucket {Url : Type*} (originScope : Url → String)
    {quota : Quota} (hexact : quota.ExactPace) (scope : String)
    {state : ThrottleState} (hempty : state scope = none)
    {claims : List Claim}
    (hsorted : (claimTimes scope claims).Pairwise (· ≤ ·))
    (hfit : (Throttle.new originScope quota).allFit scope state claims = true)
    {first : Slot} {rest : List Slot}
    (hslots : (Throttle.new originScope quota).slots scope state claims =
      first :: rest) :
    (first :: rest).Pairwise (fun a b => a.departs ≤ b.departs) ∧
    (∀ outcome ∈ (Bucket.new first.departs quota).trace quota
        ((first :: rest).map Slot.toCall),
      ∃ decision, outcome.decision = some decision ∧
        decision.allowed = true) ∧
    ∀ before slot after, first :: rest = before ++ slot :: after →
      ∀ t, slot.now ≤ t → (∀ last ∈ before.getLast?, last.departs ≤ t) →
        t < slot.departs →
        ((Bucket.new first.departs quota).after quota
          (before.map Slot.toCall)).Answers quota t false := by
  obtain ⟨hdeparts, hhead⟩ := Throttle.slots_head hempty hfit hslots
  have hrun : DualRun quota (Bucket.new first.departs quota)
      (first :: rest) := by
    rw [← hslots]
    apply Throttle.slots_dualRun hexact scope state claims hfit hsorted
    intro now hnow
    rw [hhead, Option.mem_some_iff] at hnow
    subst hnow
    rw [hempty, hdeparts]
    exact ⟨Dual.full _ _, Throttle.now_le_proceedAt _ _ _⟩
  refine ⟨hrun.sorted, hrun.allowed, ?_⟩
  intro before slot after hsplit t harrived hlast hearly
  have hearlier : ∀ earlier ∈ before, earlier.departs ≤ t := by
    have hpaced := hrun.sorted
    rw [hsplit, List.pairwise_append] at hpaced
    rcases List.eq_nil_or_concat before with rfl | ⟨init, last, rfl⟩
    · simp
    · have hlast := hlast last (by simp)
      simp only [List.concat_eq_append, List.pairwise_append] at hpaced
      intro earlier hmem
      simp only [List.concat_eq_append, List.mem_append,
        List.mem_singleton] at hmem
      rcases hmem with hmem | rfl
      · exact (hpaced.1.2.2 earlier hmem last (by simp)).trans hlast
      · exact hlast
  apply hrun.earliest hsplit harrived ?_ hearlier hearly
  -- the first slot departs when it arrives, so it is never early
  cases before with
  | nil =>
      rw [List.nil_append, List.cons.injEq] at hsplit
      rw [← hsplit.1, ← hdeparts] at harrived
      exact harrived
  | cons head before =>
      rw [List.cons_append, List.cons.injEq] at hsplit
      rw [hsplit.1]
      exact hearlier head (by simp)

/-- One request a second: of two requests at once, the second departs a second
later, and until then the bucket would deny it. -/
theorem throttle_is_dual_of_bucket_perSecond :
    ((Bucket.new (Instant.atSec 0) (Quota.perSecond 1)).after
      (Quota.perSecond 1) [⟨Instant.atSec 0, 1⟩]).Answers (Quota.perSecond 1)
        (Instant.atSec 0) false := by
  have hslots : (Throttle.new id (Quota.perSecond 1)).slots "a" (fun _ => none)
      [⟨"a", Instant.atSec 0⟩, ⟨"b", Instant.atSec 0⟩,
        ⟨"a", Instant.atSec 0⟩] =
      [⟨Instant.atSec 0, Duration.zero, Instant.atSec 0, by decide⟩,
        ⟨Instant.atSec 0, Duration.fromSecs 1, Instant.atSec 1,
          by decide⟩] := by
    decide +kernel
  have hexact : (Quota.perSecond 1).ExactPace :=
    ⟨by decide, by decide, by decide, by decide, by decide, by decide⟩
  have hdual := throttle_is_dual_of_bucket id hexact "a" rfl (by decide)
    (by decide +kernel) hslots
  exact hdual.2.2 [_] _ [] rfl (Instant.atSec 0) le_rfl (by decide)
    (by decide)

end TrilliumRatelimit
