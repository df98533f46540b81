import TrilliumRatelimit.BucketConformance

/-!
# Denied calls leave no trace

A denied call does change the bucket: it refills it, caps it and moves
`last_update`.  None of this shows in a later decision, since refilling over
an interval is refilling over its two parts.  So denied calls can be left out
of a run, and those that are left are answered as before.
-/

namespace TrilliumRatelimit

open CappedLevel

/-- A run on a bucket that is created at the first call. -/
def bucketRun (quota : Quota) : List Call → List Outcome
  | [] => []
  | first :: rest => (Bucket.new first.now quota).trace quota (first :: rest)

/-- The call is denied.  One that panicked counts if it took nothing. -/
def Outcome.Denied (outcome : Outcome) : Prop :=
  match outcome.decision with
  | some decision => decision.allowed = false
  | none => outcome.taken = 0

/-- What is left of a run without some of its denied calls. -/
inductive DropsDenied : List Outcome → List Outcome → Prop
  | nil : DropsDenied [] []
  | keep (outcome : Outcome) {outcomes kept : List Outcome} :
      DropsDenied outcomes kept →
        DropsDenied (outcome :: outcomes) (outcome :: kept)
  | drop {outcome : Outcome} {outcomes kept : List Outcome} :
      outcome.Denied → DropsDenied outcomes kept →
        DropsDenied (outcome :: outcomes) kept

/-- From this instant on, both buckets are filled to the same level. -/
def Bucket.AgreesFrom (quota : Quota) (bucket other : Bucket)
    (start : Instant) : Prop :=
  ∀ now, start ≤ now → bucket.levelAt quota now = other.levelAt quota now

theorem Bucket.new_agreesFrom (quota : Quota) (first second start : Instant) :
    (Bucket.new first quota).AgreesFrom quota (Bucket.new second quota)
      start := by
  intro now _
  rw [Bucket.new_levelAt, Bucket.new_levelAt]

/-- A denied call leaves the level it found. -/
theorem Outcome.Denied.tokens_eq {quota : Quota} {bucket : Bucket}
    {call : Call}
    (h : (⟨call, bucket.levelAt quota call.now -
        (bucket.tryConsume call.now quota call.cost).1.tokens,
      (bucket.tryConsume call.now quota call.cost).2⟩ : Outcome).Denied) :
    (bucket.tryConsume call.now quota call.cost).1.tokens =
      bucket.levelAt quota call.now := by
  unfold Outcome.Denied at h
  cases hdecision : (bucket.tryConsume call.now quota call.cost).2 with
  | none =>
      simp only [hdecision] at h
      exact (sub_eq_zero.mp h).symm
  | some decision =>
      simp only [hdecision] at h
      rw [Bucket.tryConsume_decision] at hdecision
      rw [Quota.decisionAt_allowed hdecision, decide_eq_false_iff_not] at h
      rw [Bucket.tryConsume_eq, if_neg h]

theorem Bucket.AgreesFrom.tryConsume_of_denied {quota : Quota}
    {bucket other : Bucket} {start now : Instant} {cost : UInt64}
    (hagrees : bucket.AgreesFrom quota other start)
    (hlast : bucket.lastUpdate ≤ now) (hstart : start ≤ now)
    (hkept : (bucket.tryConsume now quota cost).1.tokens =
      bucket.levelAt quota now) :
    (bucket.tryConsume now quota cost).1.AgreesFrom quota other now := by
  intro later hlater
  have hmark : (bucket.toMeter quota).mark ≤ quota.units now :=
    quota.units_mono hlast
  rw [← hagrees later (hstart.trans hlater), Bucket.levelAt, Bucket.toMeter,
    hkept, Bucket.tryConsume_lastUpdate]
  exact Meter.levelAt_levelAt hmark (quota.units_mono hlater)

/-- The run that leaves the calls out may start from any bucket that agrees
with the full one from the first call on. -/
theorem Bucket.AgreesFrom.trace_eq {quota : Quota} {bucket other : Bucket}
    {start : Instant} (hagrees : bucket.AgreesFrom quota other start)
    (hlast : bucket.lastUpdate ≤ start) {calls : List Call}
    (hstart : ∀ call ∈ calls, start ≤ call.now)
    (hsorted : calls.Pairwise fun a b => a.now ≤ b.now) {kept : List Outcome}
    (hkept : DropsDenied (bucket.trace quota calls) kept) :
    other.trace quota (kept.map Outcome.call) = kept := by
  induction calls generalizing bucket other start kept with
  | nil =>
      rw [Bucket.trace] at hkept
      cases hkept
      rfl
  | cons call rest ih =>
      rw [List.forall_mem_cons] at hstart
      rw [List.pairwise_cons] at hsorted
      have hlevel := hagrees call.now hstart.1
      rw [Bucket.trace] at hkept
      cases hkept with
      | @keep _ _ kept hrest =>
          have hnext : (bucket.tryConsume call.now quota call.cost).1.AgreesFrom
              quota (bucket.tryConsume call.now quota call.cost).1 call.now :=
            fun _ _ => rfl
          rw [List.map_cons, Bucket.trace,
            ← Bucket.tryConsume_congr hlevel, ← hlevel,
            ih hnext (Bucket.tryConsume_lastUpdate _ _ _ _).le hsorted.1
              hsorted.2 hrest]
      | drop hdenied hrest =>
          have hnext := hagrees.tryConsume_of_denied (hlast.trans hstart.1)
            hstart.1 hdenied.tokens_eq
          exact ih hnext (Bucket.tryConsume_lastUpdate _ _ _ _).le hsorted.1
            hsorted.2 hrest

/-- Without some of its denied calls, a run answers the others as before. -/
theorem denied_calls_leave_no_trace (quota : Quota) {calls : List Call}
    (hsorted : calls.Pairwise fun a b => a.now ≤ b.now)
    {kept : List Outcome} (hkept : DropsDenied (bucketRun quota calls) kept) :
    bucketRun quota (kept.map Outcome.call) = kept := by
  cases calls with
  | nil =>
      rw [bucketRun] at hkept
      cases hkept
      rfl
  | cons first rest =>
      have hstart : ∀ call ∈ first :: rest, first.now ≤ call.now := by
        rw [List.forall_mem_cons]
        exact ⟨le_rfl, (List.pairwise_cons.mp hsorted).1⟩
      cases kept with
      | nil => rfl
      | cons head tail =>
          have hagrees := Bucket.new_agreesFrom quota first.now head.call.now
            first.now
          exact hagrees.trace_eq le_rfl hstart hsorted hkept

/-- One token a second: the second of three calls is denied, and the third
does not notice. -/
theorem denied_calls_leave_no_trace_perSecond :
    bucketRun (Quota.perSecond 1)
        [⟨Instant.atSec 0, 1⟩, ⟨Instant.atSec 1, 1⟩] =
      [⟨⟨Instant.atSec 0, 1⟩, 1,
          some ⟨true, 0, Duration.fromSecs 1, none⟩⟩,
        ⟨⟨Instant.atSec 1, 1⟩, 1,
          some ⟨true, 0, Duration.fromSecs 1, none⟩⟩] := by
  have hkept : DropsDenied
      (bucketRun (Quota.perSecond 1)
        [⟨Instant.atSec 0, 1⟩, ⟨Instant.atSec 0, 1⟩, ⟨Instant.atSec 1, 1⟩])
      [⟨⟨Instant.atSec 0, 1⟩, 1,
          some ⟨true, 0, Duration.fromSecs 1, none⟩⟩,
        ⟨⟨Instant.atSec 1, 1⟩, 1,
          some ⟨true, 0, Duration.fromSecs 1, none⟩⟩] := by
    have hrun : bucketRun (Quota.perSecond 1)
        [⟨Instant.atSec 0, 1⟩, ⟨Instant.atSec 0, 1⟩, ⟨Instant.atSec 1, 1⟩] =
          [⟨⟨Instant.atSec 0, 1⟩, 1,
              some ⟨true, 0, Duration.fromSecs 1, none⟩⟩,
            ⟨⟨Instant.atSec 0, 1⟩, 0,
              some ⟨false, 0, Duration.fromSecs 1,
                some (Duration.fromSecs 1)⟩⟩,
            ⟨⟨Instant.atSec 1, 1⟩, 1,
              some ⟨true, 0, Duration.fromSecs 1, none⟩⟩] := by
      decide +kernel
    rw [hrun]
    exact .keep _ (.drop rfl (.keep _ .nil))
  exact denied_calls_leave_no_trace (Quota.perSecond 1) (by decide) hkept

end TrilliumRatelimit
