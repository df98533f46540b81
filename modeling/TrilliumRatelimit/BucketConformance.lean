import TrilliumRatelimit.Bucket

/-!
# Runs of one bucket

A run calls `try_consume` again and again on one bucket.  A call is allowed by
the decision it returns.  One whose duration arithmetic panics returns none,
although the bucket has been charged by then.

Where no call that fits the bucket panics, the bucket follows the abstract
meter, and therefore allows exactly the requests that conform on every earlier
interval.  The first that does panic is a request that conforms and is not
allowed.
-/

namespace TrilliumRatelimit

open CappedLevel

structure Call where
  now : Instant
  cost : UInt64
  deriving DecidableEq

/-- `taken` is what the call takes off the level it finds. -/
structure Outcome where
  call : Call
  taken : ℚ
  decision : Option Decision
  deriving DecidableEq

def Outcome.allowed (outcome : Outcome) : Bool :=
  outcome.decision.any Decision.allowed

def Bucket.trace (quota : Quota) : Bucket → List Call → List Outcome
  | _, [] => []
  | bucket, call :: rest =>
      let next := bucket.tryConsume call.now quota call.cost
      ⟨call, bucket.levelAt quota call.now - next.1.tokens, next.2⟩ ::
        Bucket.trace quota next.1 rest

/-- The bucket after a sequence of calls. -/
def Bucket.after (quota : Quota) (bucket : Bucket) (calls : List Call) :
    Bucket :=
  calls.foldl
    (fun bucket call => (bucket.tryConsume call.now quota call.cost).1) bucket

/-- Total cost of the allowed calls. -/
def allowedCost : List Outcome → ℚ
  | [] => 0
  | outcome :: rest =>
      (if outcome.allowed then (outcome.call.cost.toNat : ℚ) else 0) +
        allowedCost rest

def Outcome.toAttempt (quota : Quota) (outcome : Outcome) : Attempt ℚ :=
  ⟨quota.units outcome.call.now, outcome.call.cost.toNat, outcome.allowed⟩

theorem spent_map_toAttempt (quota : Quota) (outcomes : List Outcome) :
    spent (outcomes.map (Outcome.toAttempt quota)) = allowedCost outcomes := by
  induction outcomes with
  | nil => rfl
  | cons outcome rest ih =>
      simp only [List.map_cons, spent, allowedCost, ih]
      rfl

theorem Bucket.trace_append (quota : Quota) (bucket : Bucket)
    (calls more : List Call) :
    bucket.trace quota (calls ++ more) =
      bucket.trace quota calls ++
        (bucket.after quota calls).trace quota more := by
  induction calls generalizing bucket with
  | nil => rfl
  | cons call rest ih =>
      rw [List.cons_append, Bucket.trace, Bucket.trace, ih, List.cons_append]
      rfl

theorem Bucket.after_concat (quota : Quota) (bucket : Bucket)
    (calls : List Call) (call : Call) :
    bucket.after quota (calls ++ [call]) =
      ((bucket.after quota calls).tryConsume call.now quota call.cost).1 := by
  rw [Bucket.after, List.foldl_append]
  rfl

theorem Bucket.after_tokens_mem {quota : Quota} {bucket : Bucket}
    (htokens : bucket.tokens ∈ Set.Icc 0 quota.cap) (calls : List Call) :
    (bucket.after quota calls).tokens ∈ Set.Icc 0 quota.cap := by
  induction calls generalizing bucket with
  | nil => exact htokens
  | cons call rest ih =>
      exact ih ⟨Bucket.tryConsume_tokens_nonneg htokens.1 _ _ _,
        Bucket.tryConsume_tokens_le _ _ _ _⟩

theorem Bucket.new_tokens_mem (start : Instant) (quota : Quota) :
    (Bucket.new start quota).tokens ∈ Set.Icc 0 quota.cap :=
  ⟨quota.cap_nonneg, le_rfl⟩

theorem Bucket.after_lastUpdate_le {quota : Quota} {bucket : Bucket}
    {now : Instant} (hstart : bucket.lastUpdate ≤ now) {calls : List Call}
    (hcalls : ∀ call ∈ calls, call.now ≤ now) :
    (bucket.after quota calls).lastUpdate ≤ now := by
  cases calls using List.reverseRecOn with
  | nil => exact hstart
  | append_singleton init last =>
      rw [Bucket.after_concat, Bucket.tryConsume_lastUpdate]
      exact hcalls last (by simp)

/-! ## Conforming requests -/

/-- The call fits the burst, and fits it together with everything allowed
since any earlier allowed call, with the sustained rate over the time since
then added. -/
def Conforming (quota : Quota) (before : List Outcome) (call : Call) : Prop :=
  call.cost ≤ quota.burst ∧
    ∀ earlier entry between, before = earlier ++ entry :: between →
      entry.allowed = true →
        allowedCost (entry :: between) + call.cost.toNat ≤
          quota.burst.toNat +
            ((call.now.nanos - entry.call.now.nanos : ℤ) : ℚ) *
              quota.count.toNat / quota.window.nanos

theorem conforms_map_toAttempt (quota : Quota) (before : List Outcome)
    (call : Call) :
    Conforms quota.cap (before.map (Outcome.toAttempt quota))
        (quota.units call.now) call.cost.toNat ↔
      Conforming quota before call := by
  refine and_congr ?_ ⟨?_, ?_⟩
  · change (call.cost.toNat : ℚ) ≤ quota.burst.toNat ↔ _
    rw [Nat.cast_le]
    exact UInt64.le_iff_toNat_le.symm
  · intro hall earlier entry between hbefore hallowed
    have hentry := hall (earlier.map (Outcome.toAttempt quota))
      (entry.toAttempt quota) (between.map (Outcome.toAttempt quota))
      (by rw [hbefore, List.map_append, List.map_cons]) hallowed
    rw [← List.map_cons, spent_map_toAttempt] at hentry
    rwa [← Quota.units_sub]
  · intro hall earlier entry between hbefore hallowed
    obtain ⟨pre, rest, rfl, rfl, hcons⟩ := List.map_eq_append_iff.mp hbefore
    obtain ⟨outcome, after, rfl, rfl, rfl⟩ := List.map_eq_cons_iff.mp hcons
    have hentry := hall pre outcome after rfl hallowed
    rw [← List.map_cons, spent_map_toAttempt]
    rwa [← Quota.units_sub] at hentry

/-- Wherever a call fits the bucket it finds, the wait for a full bucket
behind it is a `Duration`. -/
def Bucket.FullWaitsFit (quota : Quota) (bucket : Bucket)
    (calls : List Call) : Prop :=
  ∀ before call after, calls = before ++ call :: after →
    let level := (bucket.after quota before).levelAt quota call.now
    (call.cost.toNat : ℚ) ≤ level →
      quota.WaitFits (quota.cap - (level - call.cost.toNat))

/-- A wait for the whole burst is the longest there is. -/
theorem Bucket.fullWaitsFit_of_cap {quota : Quota}
    (hcap : quota.WaitFits quota.cap) (bucket : Bucket) (calls : List Call) :
    bucket.FullWaitsFit quota calls := by
  intro before call after _ level hle
  exact hcap.mono (sub_le_self _ (sub_nonneg.mpr hle))

/-! ## The bucket admits exactly the conforming requests -/

theorem forall_split_concat_iff {α : Type*} {P : List α → α → Prop}
    {init : List α} {last : α} :
    (∀ before x after, init ++ [last] = before ++ x :: after → P before x) ↔
      (∀ before x after, init = before ++ x :: after → P before x) ∧
        P init last := by
  constructor
  · intro hall
    refine ⟨fun before x after hsplit => ?_, hall init last [] rfl⟩
    exact hall before x (after ++ [last]) (by simp [hsplit])
  · rintro ⟨hinit, hlast⟩ before x after hsplit
    rcases List.eq_nil_or_concat after with rfl | ⟨rest, final, rfl⟩
    · obtain ⟨rfl, hx⟩ := List.append_inj' hsplit rfl
      obtain rfl : last = x := by simpa using hx
      exact hlast
    · have hconcat : init ++ [last] = (before ++ x :: rest) ++ [final] := by
        simpa using hsplit
      exact hinit before x rest (List.append_inj' hconcat rfl).1

section

variable {quota : Quota} (hwindow : quota.window.nanos ≠ 0) {bucket : Bucket}

include hwindow

theorem Bucket.outcome_allowed_iff (bucket : Bucket) (call : Call)
    (taken : ℚ) :
    (⟨call, taken, (bucket.tryConsume call.now quota call.cost).2⟩ :
        Outcome).allowed = true ↔
      (call.cost.toNat : ℚ) ≤ bucket.levelAt quota call.now ∧
        quota.WaitFits (quota.cap -
          (bucket.levelAt quota call.now - call.cost.toNat)) := by
  rw [Outcome.allowed, Bucket.tryConsume_decision]
  exact Quota.any_allowed_iff_waitFits hwindow (Meter.levelAt_le_cap _ _ _) _

/-- As long as no call that fits panics, the history is the meter's. -/
theorem Bucket.FullWaitsFit.tracks {calls : List Call}
    (hfits : bucket.FullWaitsFit quota calls)
    (htracks : Tracks quota.cap (bucket.toMeter quota) [])
    (hstart : ∀ call ∈ calls, bucket.lastUpdate ≤ call.now)
    (hsorted : calls.Pairwise fun a b => a.now ≤ b.now) :
    Tracks quota.cap ((bucket.after quota calls).toMeter quota)
      ((bucket.trace quota calls).map (Outcome.toAttempt quota)) := by
  induction calls using List.reverseRecOn with
  | nil => exact htracks
  | append_singleton init last ih =>
      obtain ⟨hinit, hlast⟩ := forall_split_concat_iff.mp hfits
      obtain ⟨hsorted, -, hbefore⟩ := List.pairwise_append.mp hsorted
      have hupdate : (bucket.after quota init).lastUpdate ≤ last.now :=
        Bucket.after_lastUpdate_le (hstart last (by simp))
          fun call hmem => hbefore call hmem last (by simp)
      have hspent := (ih hinit (fun call hmem => hstart call (by simp [hmem]))
        hsorted).spend (last.cost.toNat : ℚ) (quota.units_mono hupdate)
      have hallowed := Bucket.outcome_allowed_iff hwindow
        (bucket.after quota init) last 0
      rw [and_iff_left_of_imp hlast] at hallowed
      rw [Bucket.after_concat, Bucket.tryConsume_toMeter, Bucket.trace_append,
        List.map_append]
      convert hspent using 2
      simp only [Bucket.trace, List.map_cons, List.map_nil,
        Outcome.toAttempt, List.cons.injEq, and_true, Attempt.mk.injEq,
        true_and]
      exact Bool.eq_iff_iff.mpr (hallowed.trans decide_eq_true_iff.symm)

theorem Bucket.allows_conforming_iff {calls : List Call}
    (htracks : Tracks quota.cap (bucket.toMeter quota) [])
    (hstart : ∀ call ∈ calls, bucket.lastUpdate ≤ call.now)
    (hsorted : calls.Pairwise fun a b => a.now ≤ b.now) :
    (∀ before outcome after,
        bucket.trace quota calls = before ++ outcome :: after →
          (outcome.allowed = true ↔
            Conforming quota before outcome.call)) ↔
      bucket.FullWaitsFit quota calls := by
  induction calls using List.reverseRecOn with
  | nil => simp [Bucket.trace, Bucket.FullWaitsFit]
  | append_singleton init last ih =>
      obtain ⟨hsortedInit, -, hbefore⟩ := List.pairwise_append.mp hsorted
      have hstartInit : ∀ call ∈ init, bucket.lastUpdate ≤ call.now :=
        fun call hmem => hstart call (by simp [hmem])
      have hupdate : (bucket.after quota init).lastUpdate ≤ last.now :=
        Bucket.after_lastUpdate_le (hstart last (by simp))
          fun call hmem => hbefore call hmem last (by simp)
      rw [Bucket.trace_append, Bucket.trace, Bucket.trace,
        forall_split_concat_iff, ih hstartInit hsortedInit]
      unfold Bucket.FullWaitsFit
      rw [forall_split_concat_iff]
      refine and_congr_right fun hinit => ?_
      have hconforms := (Bucket.FullWaitsFit.tracks hwindow hinit htracks
        hstartInit hsortedInit) _ (quota.units_mono hupdate) last.cost.toNat
      rw [conforms_map_toAttempt] at hconforms
      rw [Bucket.outcome_allowed_iff hwindow, ← hconforms]
      exact and_iff_left_iff_imp

end

/-- The decisions allow exactly the conforming requests of a run, exactly if
no wait for a full bucket behind a request that fits is too long for a
`Duration`. -/
theorem tryConsume_allows_conforming_iff {quota : Quota}
    (hwindow : quota.window ≠ Duration.zero) {first : Call} {rest : List Call}
    (hsorted : (first :: rest).Pairwise fun a b => a.now ≤ b.now) :
    (∀ before outcome after,
        (Bucket.new first.now quota).trace quota (first :: rest) =
            before ++ outcome :: after →
          (outcome.allowed = true ↔
            Conforming quota before outcome.call)) ↔
      (Bucket.new first.now quota).FullWaitsFit quota (first :: rest) := by
  apply Bucket.allows_conforming_iff (Duration.nanos_pos hwindow).ne' _ _
    hsorted
  · rw [Bucket.new_toMeter]
    exact Tracks.full _ _
  · rw [List.forall_mem_cons]
    exact ⟨le_rfl, (List.pairwise_cons.mp hsorted).1⟩

/-- Ten tokens a second: after a cost of ten, one more at the same instant does
not conform. -/
theorem tryConsume_allows_conforming_iff_perSecond :
    ¬ Conforming (Quota.perSecond 10)
      [⟨⟨Instant.atSec 0, 10⟩, 10,
        some ⟨true, 0, Duration.fromSecs 1, none⟩⟩]
      ⟨Instant.atSec 0, 1⟩ := by
  have hsplit :
      (Bucket.new (Instant.atSec 0) (Quota.perSecond 10)).trace
          (Quota.perSecond 10)
          [⟨Instant.atSec 0, 10⟩, ⟨Instant.atSec 0, 1⟩] =
        [⟨⟨Instant.atSec 0, 10⟩, 10,
          some ⟨true, 0, Duration.fromSecs 1, none⟩⟩] ++
        ⟨⟨Instant.atSec 0, 1⟩, 0,
          some ⟨false, 0, Duration.fromSecs 1,
            some (Duration.fromNanos 100000000)⟩⟩ :: [] := by
    decide +kernel
  have hcap : (Quota.perSecond 10).WaitFits (Quota.perSecond 10).cap := by
    decide +kernel
  have hexact := (tryConsume_allows_conforming_iff (by decide) (by simp)).mpr
    (Bucket.fullWaitsFit_of_cap hcap _ _) _ _ _ hsplit
  intro hconforming
  exact absurd (hexact.mpr hconforming) (by decide)

/-- A token takes a century.  Behind the first call the bucket still holds
more than enough for the second, which conforms and panics. -/
theorem conforming_call_panics :
    ¬ ∀ quota : Quota, quota.window ≠ Duration.zero →
      ∀ (first : Call) (rest : List Call),
        (first :: rest).Pairwise (fun a b => a.now ≤ b.now) →
      ∀ before outcome after,
        (Bucket.new first.now quota).trace quota (first :: rest) =
            before ++ outcome :: after →
          (outcome.allowed = true ↔
            Conforming quota before outcome.call) := by
  intro hclaim
  let quota :=
    (Quota.per 1 (Duration.fromSecs 3153600000)).allowBurst 6000000000
  let spent : Call := ⟨Instant.atSec 0, 5849424173⟩
  let next : Call := ⟨Instant.atSec 0, 1⟩
  have houtcomes : ((Bucket.new spent.now quota).trace quota
      [spent, next]).map (fun outcome => (outcome.call, outcome.allowed)) =
        [(spent, true), (next, false)] := by
    decide +kernel
  obtain ⟨first, rest, hsplit, hfirst, hrest⟩ :=
    List.map_eq_cons_iff.mp houtcomes
  obtain ⟨second, rest, rfl, hsecond, hnil⟩ := List.map_eq_cons_iff.mp hrest
  obtain rfl := List.map_eq_nil_iff.mp hnil
  obtain ⟨hfirstCall, hfirstAllowed⟩ := Prod.mk.inj hfirst
  obtain ⟨hsecondCall, hsecondAllowed⟩ := Prod.mk.inj hsecond
  have hexact := hclaim quota (by decide) spent [next] (by decide) [first]
    second [] hsplit
  have hconforming : Conforming quota [first] second.call := by
    rw [hsecondCall]
    refine ⟨by decide, fun earlier entry between hbefore _ => ?_⟩
    obtain ⟨rfl, hone⟩ : earlier = [] ∧ entry :: between = [first] := by
      cases earlier with
      | nil => exact ⟨rfl, hbefore.symm⟩
      | cons other more => simp at hbefore
    obtain ⟨rfl, rfl⟩ := List.cons.inj hone
    simp only [allowedCost, hfirstAllowed, hfirstCall]
    decide +kernel
  exact absurd (hexact.mpr hconforming) (by rw [hsecondAllowed]; decide)

end TrilliumRatelimit
