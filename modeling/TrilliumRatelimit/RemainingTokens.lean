import TrilliumRatelimit.AdvertisedWaits
import TrilliumRatelimit.BucketConformance
import TrilliumRatelimit.CapacityEviction

/-!
# What `remaining` is worth

The remaining count is the whole part of the level an attempt leaves.  As many
further attempts of cost one are allowed at the same instant, each of which
takes a whole token, and at least as many at any later times.  The fraction of
a token stays, so the longest wait to be reported is the one for a bucket that
holds nothing else.  Where that wait is no `Duration`, one of these attempts
panics instead.
-/

namespace TrilliumRatelimit

open CappedLevel

def Decision.verdict (decision : Decision) : Bool × ℕ :=
  (decision.allowed, decision.remaining.toNat)

/-- From now on a caller can spend `r`.  An attempt that panics has no
decision, and is neither allowed nor denied. -/
structure Bucket.Spends (quota : Quota) (bucket : Bucket) (now : Instant)
    (r : ℕ) : Prop where
  atOnce : ∀ n, (bucket.trace quota (List.replicate n ⟨now, 1⟩)).map
      (fun outcome => outcome.decision.map Decision.verdict) =
    (List.range n).map fun i => some (decide (i < r), r - 1 - i)
  later : ∀ calls : List Call,
    (∀ call ∈ calls, call.cost = 1 ∧ now ≤ call.now) →
    calls.Pairwise (fun a b => a.now ≤ b.now) → r ≤ calls.length →
      ∀ outcome ∈ (bucket.trace quota calls).take r,
        outcome.decision.any Decision.allowed = true

/-! ## Whole tokens -/

theorem leftOf_nonneg {level : ℚ} (hlevel : 0 ≤ level) : 0 ≤ leftOf level := by
  unfold leftOf
  split <;> linarith

theorem floor_leftOf (level : ℚ) : ⌊leftOf level⌋₊ = ⌊level⌋₊ - 1 := by
  unfold leftOf
  split
  · exact Nat.floor_sub_one level
  next hlt =>
    rw [Nat.floor_eq_zero.mpr (not_le.mp hlt)]

theorem fract_leftOf (level : ℚ) : Int.fract (leftOf level) = Int.fract level := by
  unfold leftOf
  split
  · exact Int.fract_sub_one level
  · rfl

theorem floor_add_fract {level : ℚ} (hlevel : 0 ≤ level) :
    ⌊level⌋₊ + Int.fract level = level := by
  rw [natCast_floor_eq_intCast_floor hlevel, Int.floor_add_fract]

theorem fract_le {level : ℚ} (hlevel : 0 ≤ level) : Int.fract level ≤ level := by
  have hsum := floor_add_fract hlevel
  have hfloor : (0 : ℚ) ≤ ⌊level⌋₊ := Nat.cast_nonneg _
  linarith

/-- An attempt takes the first of the tokens that are taken. -/
theorem leftOf_sub_min (level : ℚ) (i : ℕ) :
    leftOf level - (min i ⌊leftOf level⌋₊ : ℕ) =
      level - (min (i + 1) ⌊level⌋₊ : ℕ) := by
  rw [floor_leftOf]
  by_cases hle : 1 ≤ level
  · have hpos : 1 ≤ ⌊level⌋₊ := (Nat.one_le_floor_iff level).mpr hle
    have hmin : min (i + 1) ⌊level⌋₊ = min i (⌊level⌋₊ - 1) + 1 := by omega
    rw [hmin, leftOf, if_pos hle]
    push_cast
    ring
  · have hzero : ⌊level⌋₊ = 0 := Nat.floor_eq_zero.mpr (not_le.mp hle)
    rw [hzero, leftOf, if_neg hle]
    simp

/-! ## Decisions at one instant -/

theorem Bucket.levelAt_lastUpdate {quota : Quota} {tokens : ℚ}
    (htokens : tokens ≤ quota.cap) (now : Instant) :
    (⟨tokens, now⟩ : Bucket).levelAt quota now = tokens := by
  rw [Bucket.levelAt_of_le le_rfl, sub_self, add_zero]
  exact min_eq_left htokens

/-- Attempts at one instant take the whole tokens one by one. -/
theorem Bucket.trace_atOnce {quota : Quota} {bucket : Bucket} {now : Instant}
    {level : ℚ} (hlevel : bucket.levelAt quota now = level) (n : ℕ) :
    (bucket.trace quota (List.replicate n ⟨now, 1⟩)).map Outcome.decision =
      (List.range n).map fun i =>
        quota.decisionAt (level - (min i ⌊level⌋₊ : ℕ)) 1 := by
  induction n generalizing bucket level with
  | zero => rfl
  | succ n ih =>
      have hcap : leftOf level ≤ quota.cap :=
        (leftOf_le level).trans (hlevel ▸ Meter.levelAt_le_cap _ _ _)
      have hnext : (bucket.tryConsume now quota 1).1.levelAt quota now =
          leftOf level := by
        rw [Bucket.tryConsume_one, hlevel,
          Bucket.levelAt_lastUpdate hcap now]
      rw [List.replicate_succ, Bucket.trace, List.map_cons,
        List.range_succ_eq_map, List.map_cons, List.map_map, ih hnext,
        Bucket.tryConsume_decision, hlevel]
      simp only [leftOf_sub_min, Nat.zero_min, Nat.cast_zero, sub_zero,
        Function.comp_def, Nat.succ_eq_add_one]

theorem Bucket.verdicts_atOnce {quota : Quota} {bucket : Bucket}
    {now : Instant} {level : ℚ} (hlevel : bucket.levelAt quota now = level)
    (n : ℕ) :
    (bucket.trace quota (List.replicate n ⟨now, 1⟩)).map
        (fun outcome => outcome.decision.map Decision.verdict) =
      (List.range n).map fun i =>
        (quota.decisionAt (level - (min i ⌊level⌋₊ : ℕ)) 1).map
          Decision.verdict := by
  have hdecisions := congrArg (List.map (Option.map Decision.verdict))
    (Bucket.trace_atOnce hlevel n)
  rwa [List.map_map, List.map_map] at hdecisions

section

variable {quota : Quota} (hwindow : quota.window.nanos ≠ 0)

include hwindow

/-- The wait for one token never overflows. -/
theorem Quota.decisionAt_one_isSome_iff {level : ℚ} (hlevel : 0 ≤ level)
    (hcap : level ≤ quota.cap) :
    (quota.decisionAt level 1).isSome ↔
      quota.WaitFits (quota.cap - leftOf level) := by
  have hleft : 0 ≤ quota.cap - leftOf level :=
    sub_nonneg.mpr ((leftOf_le level).trans hcap)
  rw [Quota.decisionAt_isSome_iff, UInt64.toNat_one, Nat.cast_one,
    ← secondsToRefill_isSome_iff hwindow hleft]
  refine and_iff_left fun hlt => ?_
  rw [secondsToRefill_isSome_iff hwindow (sub_nonneg.mpr hlt.le)]
  exact (quota.round_retryWait_le hlevel).trans_lt quota.window.inRange

/-! ## Whatever fits refilling all but the fraction -/

/-- What the attempt that finds `i` of the whole tokens taken is told. -/
theorem Quota.verdict_decisionAt {level : ℚ} (hlevel : 0 ≤ level)
    (hcap : level ≤ quota.cap)
    (hfits : quota.WaitFits (quota.cap - Int.fract level)) (i : ℕ) :
    (quota.decisionAt (level - (min i ⌊level⌋₊ : ℕ)) 1).map
        Decision.verdict =
      some (decide (i < ⌊level⌋₊), ⌊level⌋₊ - 1 - i) := by
  have htaken : ((min i ⌊level⌋₊ : ℕ) : ℚ) ≤ level :=
    (Nat.cast_le.mpr (min_le_right _ _)).trans (Nat.floor_le hlevel)
  have hpos : 0 ≤ level - (min i ⌊level⌋₊ : ℕ) := sub_nonneg.mpr htaken
  have hle : level - (min i ⌊level⌋₊ : ℕ) ≤ quota.cap :=
    (sub_le_self _ (Nat.cast_nonneg _)).trans hcap
  have hfloor : ⌊level - (min i ⌊level⌋₊ : ℕ)⌋₊ =
      ⌊level⌋₊ - min i ⌊level⌋₊ := Nat.floor_sub_natCast _ _
  have hfract : Int.fract level ≤ leftOf (level - (min i ⌊level⌋₊ : ℕ)) := by
    have hself := fract_le (leftOf_nonneg hpos)
    rwa [fract_leftOf, Int.fract_sub_natCast] at hself
  obtain ⟨decision, hdecision⟩ := Option.isSome_iff_exists.mp
    ((Quota.decisionAt_one_isSome_iff hwindow hpos hle).mpr
      (hfits.mono (by linarith)))
  have hallowed : decision.allowed = decide (i < ⌊level⌋₊) := by
    rw [Quota.decisionAt_allowed hdecision, decide_eq_decide,
      UInt64.toNat_one, Nat.cast_one, ← Nat.one_le_floor_iff, hfloor]
    omega
  have hremaining : decision.remaining.toNat = ⌊level⌋₊ - 1 - i := by
    rw [Quota.decisionAt_remaining hdecision,
      saturateU64_floor ((leftOf_le _).trans hle), floor_leftOf, hfloor]
    omega
  rw [hdecision, Option.map_some, Decision.verdict, hallowed, hremaining]

/-- Time passes between the attempts, and refills at most add to what is
left. -/
theorem Bucket.first_allowed {fraction : ℚ} (hfraction : 0 ≤ fraction)
    (hfits : quota.WaitFits (quota.cap - fraction)) {bucket : Bucket}
    {start : Instant} {r : ℕ}
    (hlevel : r + fraction ≤ bucket.levelAt quota start) {calls : List Call}
    (hcalls : ∀ call ∈ calls, call.cost = 1 ∧ start ≤ call.now)
    (hsorted : calls.Pairwise fun a b => a.now ≤ b.now) :
    ∀ outcome ∈ (bucket.trace quota calls).take r,
      outcome.decision.any Decision.allowed = true := by
  induction calls generalizing bucket start r with
  | nil => simp [Bucket.trace]
  | cons call rest ih =>
      cases r with
      | zero => simp
      | succ r =>
          obtain ⟨hcost, hstart⟩ := hcalls call List.mem_cons_self
          have hcap : bucket.levelAt quota call.now ≤ quota.cap :=
            Meter.levelAt_le_cap _ _ _
          have hmono := bucket.levelAt_mono quota hstart
          have hr : (0 : ℚ) ≤ r := Nat.cast_nonneg _
          push_cast at hlevel
          rw [Bucket.trace, List.take_succ_cons, List.forall_mem_cons, hcost]
          constructor
          · rw [Bucket.tryConsume_decision]
            refine (quota.grants_iff _).mpr ⟨by linarith, ?_⟩
            rw [secondsToRefill_isSome_iff hwindow (by linarith)]
            exact hfits.mono (by linarith)
          · have hnext : r + fraction ≤
                (bucket.tryConsume call.now quota 1).1.levelAt quota
                  call.now := by
              rw [Bucket.tryConsume_one, Bucket.levelAt_lastUpdate
                ((leftOf_le _).trans hcap), leftOf, if_pos (by linarith)]
              linarith
            obtain ⟨hlater, hrest⟩ := List.pairwise_cons.mp hsorted
            exact ih hnext (fun later hmem =>
              ⟨(hcalls later (List.mem_cons_of_mem _ hmem)).1,
                hlater later hmem⟩) hrest

/-- The attempt behind the whole tokens is denied, and leaves the fraction. -/
theorem Bucket.Spends.waitFits {bucket : Bucket} {now : Instant} {left : ℚ}
    (hleft : 0 ≤ left) (hlevel : bucket.levelAt quota now = left)
    (hspends : bucket.Spends quota now ⌊left⌋₊) :
    quota.WaitFits (quota.cap - Int.fract left) := by
  have hcap : left ≤ quota.cap := hlevel ▸ Meter.levelAt_le_cap _ _ _
  have hsame := (Bucket.verdicts_atOnce hlevel (⌊left⌋₊ + 1)).symm.trans
    (hspends.atOnce _)
  have hlast := List.map_inj_left.mp hsame ⌊left⌋₊
    (List.mem_range.mpr (Nat.lt_succ_self _))
  have hfraction : left - (min ⌊left⌋₊ ⌊left⌋₊ : ℕ) = Int.fract left := by
    have hsum := floor_add_fract hleft
    rw [min_self]
    linarith
  have hkept : leftOf (Int.fract left) = Int.fract left :=
    if_neg (Int.fract_lt_one left).not_ge
  rw [hfraction] at hlast
  have hsome := Option.isSome_of_eq_some hlast
  rw [Option.isSome_map, Quota.decisionAt_one_isSome_iff hwindow
    (Int.fract_nonneg left) ((fract_le hleft).trans hcap), hkept] at hsome
  exact hsome

theorem Bucket.spends_iff {bucket : Bucket} {now : Instant} {left : ℚ}
    (hleft : 0 ≤ left) (hlevel : bucket.levelAt quota now = left) :
    bucket.Spends quota now ⌊left⌋₊ ↔
      quota.WaitFits (quota.cap - Int.fract left) := by
  refine ⟨Bucket.Spends.waitFits hwindow hleft hlevel, fun hfits => ?_⟩
  have hcap : left ≤ quota.cap := hlevel ▸ Meter.levelAt_le_cap _ _ _
  constructor
  · intro n
    rw [Bucket.verdicts_atOnce hlevel]
    exact List.map_congr_left fun i _ =>
      Quota.verdict_decisionAt hwindow hleft hcap hfits i
  · intro calls hcalls hsorted _
    refine Bucket.first_allowed hwindow (Int.fract_nonneg left) hfits ?_
      hcalls hsorted
    rw [hlevel, floor_add_fract hleft]

end

/-- After any calls, as much can be spent as a decision says exactly if
refilling the burst but for the level's fraction takes no longer than a
`Duration` can say. -/
theorem remaining_spendable_iff {quota : Quota}
    (hwindow : quota.window ≠ Duration.zero) (start : Instant)
    (calls : List Call) (now : Instant) (cost : UInt64) {decision : Decision}
    (h : (((Bucket.new start quota).after quota calls).tryConsume now quota
      cost).2 = some decision) :
    let bucket := (Bucket.new start quota).after quota calls
    (bucket.tryConsume now quota cost).1.Spends quota now
        decision.remaining.toNat ↔
      quota.WaitFits
        (quota.cap - Int.fract (bucket.levelAt quota now)) := by
  intro bucket
  have htokens : bucket.tokens ∈ Set.Icc 0 quota.cap :=
    Bucket.after_tokens_mem (Bucket.new_tokens_mem start quota) calls
  have hnonneg : 0 ≤ (bucket.tryConsume now quota cost).1.tokens :=
    Bucket.tryConsume_tokens_nonneg htokens.1 now quota cost
  have hcap := Bucket.tryConsume_tokens_le bucket now quota cost
  rw [Bucket.tryConsume_decision] at h
  obtain ⟨left, hleft, _, hremaining, _⟩ := Quota.decisionAt_eq_some_iff.mp h
  rw [Bucket.tryConsume_eq, ← hleft] at hnonneg hcap ⊢
  have hfract : Int.fract left = Int.fract (bucket.levelAt quota now) := by
    rw [hleft]
    split
    · exact Int.fract_sub_natCast _ _
    · rfl
  rw [hremaining, saturateU64_floor hcap, ← hfract]
  exact Bucket.spends_iff (Duration.nanos_pos hwindow).ne' hnonneg
    (Bucket.levelAt_lastUpdate hcap now)

/-- Two and a half of three tokens: behind a call for one, the next attempt is
allowed, and half a token stays. -/
theorem remaining_spendable_iff_half :
    (⟨3 / 2, Instant.atSec 1⟩ : Bucket).Spends
      (Quota.per 3 (Duration.fromSecs 2)) (Instant.atSec 1) 1 := by
  have hcall :
      ((Bucket.new (Instant.atSec 0) (Quota.per 3 (Duration.fromSecs 2))).after
          (Quota.per 3 (Duration.fromSecs 2)) [⟨Instant.atSec 0, 2⟩]).tryConsume
        (Instant.atSec 1) (Quota.per 3 (Duration.fromSecs 2)) 1 =
      (⟨3 / 2, Instant.atSec 1⟩,
        some ⟨true, 1, Duration.fromSecs 1, none⟩) := by
    decide +kernel
  have hspends := (remaining_spendable_iff (by decide) (Instant.atSec 0)
    [⟨Instant.atSec 0, 2⟩] (Instant.atSec 1) 1
    (congrArg Prod.snd hcall)).mpr (by decide +kernel)
  rw [hcall] at hspends
  exact hspends

/-- A token takes a century.  The call leaves a wait of just under `2 ^ 64`
seconds, and the next attempt, which finds a token, panics. -/
theorem remaining_not_spendable :
    ¬ ∀ quota : Quota, quota.window ≠ Duration.zero →
      ∀ (start : Instant) (calls : List Call) (now : Instant) (cost : UInt64)
        (decision : Decision),
        (((Bucket.new start quota).after quota calls).tryConsume now quota
          cost).2 = some decision →
        (((Bucket.new start quota).after quota calls).tryConsume now quota
          cost).1.Spends quota now decision.remaining.toNat := by
  intro hclaim
  let quota :=
    (Quota.per 1 (Duration.fromSecs 3153600000)).allowBurst 6000000000
  let spent := (Bucket.new (Instant.atSec 0) quota).tryConsume
    (Instant.atSec 0) quota 5849424173
  have hremaining : spent.2.map Decision.remaining = some 150575827 := by
    decide +kernel
  obtain ⟨decision, hdecision, hcount⟩ := Option.map_eq_some_iff.mp hremaining
  have hspends := hclaim quota (by decide) (Instant.atSec 0) []
    (Instant.atSec 0) 5849424173 decision hdecision
  have hfirst := hspends.atOnce 1
  have hpanic : (spent.1.trace quota
      (List.replicate 1 ⟨Instant.atSec 0, 1⟩)).map
        (fun outcome => outcome.decision.map Decision.verdict) = [none] := by
    decide +kernel
  rw [hcount] at hfirst
  exact absurd (hpanic.symm.trans hfirst) (by simp)

end TrilliumRatelimit
