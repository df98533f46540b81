import TrilliumRatelimit.Store
import TrilliumRatelimit.Transitions

/-!
# Concurrent consumers of one key

A call of `Store::consume` is two steps: it reads the clock, and some time
later its closure runs under the lock of the key with the reading it has.
Calls may stall in between, so closures can commit in another order than their
clock readings.

The closure sets `last_update` to its own reading even when the bucket already
holds a later one.  The time in between is then refilled a second time, and
concurrent calls over-admit.  As long as every commit reads a clock value at
or after `last_update`, the total admitted in any interval stays within the
burst plus the sustained rate.
-/

namespace TrilliumRatelimit

open CappedLevel Transitions

/-- A call that has read the clock and not committed yet. -/
structure InFlight where
  id : ℕ
  readAt : Instant
  cost : UInt64
  deriving DecidableEq

structure Commit where
  readAt : Instant
  commitAt : Instant
  cost : UInt64
  decision : Option Decision
  deriving DecidableEq

structure KeyState where
  clock : Instant
  inFlight : List InFlight
  entry : Option Bucket
  log : List Commit
  deriving DecidableEq

inductive ConsumeAction where
  | read (id : ℕ) (cost : UInt64)
  | commit (id : ℕ)
  deriving DecidableEq

structure ConsumeEvent where
  now : Instant
  action : ConsumeAction
  deriving DecidableEq

def KeyState.init (clock : Instant) : KeyState := ⟨clock, [], none, []⟩

def KeyState.inFlightCall (state : KeyState) (id : ℕ) : Option InFlight :=
  state.inFlight.find? fun call => call.id = id

def KeyState.commitCall (quota : Quota) (state : KeyState) (now : Instant)
    (call : InFlight) : KeyState where
  clock := now
  inFlight := state.inFlight.filter fun other => other.id ≠ call.id
  entry := (computeEntry quota state.entry call.readAt call.cost).1
  log :=
    ⟨call.readAt, now, call.cost,
      (computeEntry quota state.entry call.readAt call.cost).2⟩ :: state.log

/-- The clock is monotone, a call id in flight is not reused, and a commit
needs a call in flight. -/
def KeyState.step (quota : Quota) (state : KeyState) (event : ConsumeEvent) :
    Option KeyState :=
  if state.clock ≤ event.now then
    match event.action with
    | .read id cost =>
        match state.inFlightCall id with
        | some _ => none
        | none => some { state with
            clock := event.now
            inFlight := ⟨id, event.now, cost⟩ :: state.inFlight }
    | .commit id =>
        match state.inFlightCall id with
        | none => none
        | some call => some (state.commitCall quota event.now call)
  else none

/-- What one commit admitted, if it read the clock and committed within
`[start, finish]`. -/
def Commit.admittedWithin (start finish : Instant) (commit : Commit) : ℚ :=
  if start ≤ commit.readAt ∧ commit.readAt ≤ finish ∧
      start ≤ commit.commitAt ∧ commit.commitAt ≤ finish ∧
      commit.decision.any Decision.allowed
  then commit.cost.toNat else 0

def admittedWithin (start finish : Instant) : List Commit → ℚ
  | [] => 0
  | commit :: rest =>
      commit.admittedWithin start finish + admittedWithin start finish rest

/-- The step does not move the bucket's last update back; with a zero count
there is nothing to refill twice. -/
def KeyState.inOrder (quota : Quota) (state : KeyState)
    (event : ConsumeEvent) : Bool :=
  match event.action with
  | .read _ _ => true
  | .commit id =>
      match state.inFlightCall id, state.entry with
      | some call, some bucket =>
          quota.count = 0 || bucket.lastUpdate ≤ call.readAt
      | _, _ => true

/-! ## Commits in clock order -/

/-- What the commits so far leave for `[start, finish]`. -/
structure KeyState.Budgeted (quota : Quota) (start finish : Instant)
    (state : KeyState) : Prop where
  nonneg : EntryNonneg state.entry
  bounded :
    admittedWithin start finish state.log ≤
      quota.cap + (quota.units finish - quota.units start)
  missing : state.entry = none → admittedWithin start finish state.log = 0
  covered : ∀ bucket, state.entry = some bucket →
    quota.units bucket.lastUpdate ≤ quota.units finish →
      Covered quota.cap (bucket.toMeter quota) (quota.units start)
        (admittedWithin start finish state.log)

theorem KeyState.init_budgeted (quota : Quota) {start finish : Instant}
    (hle : start ≤ finish) (clock : Instant) :
    (KeyState.init clock).Budgeted quota start finish where
  nonneg := by
    intro bucket hbucket
    simp [KeyState.init] at hbucket
  bounded := by
    have hcap := quota.cap_nonneg
    have hunits := quota.units_mono hle
    simp only [KeyState.init, admittedWithin]
    linarith
  missing := fun _ => rfl
  covered := by
    intro bucket hbucket
    simp [KeyState.init] at hbucket

/-- Before a commit, the bucket it works on covers what was admitted. -/
theorem KeyState.Budgeted.covered_getD {quota : Quota}
    {start finish readAt : Instant} {state : KeyState}
    (hgood : state.Budgeted quota start finish)
    (hbefore : EntryBefore quota state.entry readAt)
    (hread : quota.units readAt ≤ quota.units finish) :
    Covered quota.cap
      ((state.entry.getD (Bucket.new readAt quota)).toMeter quota)
      (quota.units start) (admittedWithin start finish state.log) := by
  cases hentry : state.entry with
  | none =>
      rw [hgood.missing hentry]
      exact Covered.nothing _ _ _
  | some bucket =>
      exact hgood.covered bucket hentry
        ((hbefore bucket hentry).trans hread)

theorem mark_getD_le {quota : Quota} {entry : Option Bucket}
    {readAt : Instant} (hbefore : EntryBefore quota entry readAt) :
    ((entry.getD (Bucket.new readAt quota)).toMeter quota).mark ≤
      quota.units readAt := by
  cases entry with
  | none => exact le_rfl
  | some bucket => exact hbefore bucket rfl

/-- The commit is counted in full, or not at all. -/
theorem Commit.admittedWithin_eq_or {quota : Quota}
    (start finish readAt now : Instant) {cost : UInt64} {level : ℚ}
    {decision : Decision}
    (hdecision : quota.decisionAt level cost = some decision) :
    Commit.admittedWithin start finish
        ⟨readAt, now, cost, some decision⟩ = 0 ∨
      (quota.units start ≤ quota.units readAt ∧
        quota.units readAt ≤ quota.units finish ∧
        Commit.admittedWithin start finish ⟨readAt, now, cost, some decision⟩ =
          if (cost.toNat : ℚ) ≤ level then (cost.toNat : ℚ) else 0) := by
  have hallowed := Quota.decisionAt_allowed hdecision
  by_cases hwithin : start ≤ readAt ∧ readAt ≤ finish ∧ start ≤ now ∧
      now ≤ finish
  · refine .inr ⟨quota.units_mono hwithin.1, quota.units_mono hwithin.2.1, ?_⟩
    obtain ⟨hstart, hfinish, hcommitStart, hcommitFinish⟩ := hwithin
    simp [Commit.admittedWithin, hstart, hfinish, hcommitStart,
      hcommitFinish, hallowed]
  · refine .inl ?_
    rw [Commit.admittedWithin, if_neg]
    intro hall
    exact hwithin ⟨hall.1, hall.2.1, hall.2.2.1, hall.2.2.2.1⟩

theorem KeyState.Budgeted.covered_commit {quota : Quota}
    {start finish : Instant} {state : KeyState} {call : InFlight}
    (hgood : state.Budgeted quota start finish) (now : Instant)
    (hbefore : EntryBefore quota state.entry call.readAt)
    (hread : quota.units call.readAt ≤ quota.units finish)
    {decision : Decision}
    (hdecision : quota.decisionAt
      (entryLevel quota state.entry call.readAt) call.cost = some decision) :
    Covered quota.cap
      (((state.entry.getD (Bucket.new call.readAt quota)).tryConsume
        call.readAt quota call.cost).1.toMeter quota)
      (quota.units start)
      (Commit.admittedWithin start finish
          ⟨call.readAt, now, call.cost, some decision⟩ +
        admittedWithin start finish state.log) := by
  have hcovered := hgood.covered_getD hbefore hread
  have hmark := mark_getD_le hbefore
  rw [Bucket.tryConsume_toMeter]
  rcases Commit.admittedWithin_eq_or start finish call.readAt now hdecision with
    hzero | ⟨hstart, _, hcounted⟩
  · rw [hzero, zero_add]
    exact hcovered.spend_uncounted hmark (Nat.cast_nonneg _)
  · rw [hcounted, add_comm]
    exact hcovered.spend hmark hstart

theorem KeyState.Budgeted.commitCall {quota : Quota}
    {start finish : Instant} (hle : start ≤ finish) {state : KeyState}
    (hgood : state.Budgeted quota start finish)
    (now : Instant) {call : InFlight}
    (hbefore : EntryBefore quota state.entry call.readAt) :
    (state.commitCall quota now call).Budgeted quota start finish := by
  have hnonneg : EntryNonneg (state.commitCall quota now call).entry :=
    hgood.nonneg.computeEntry call.readAt call.cost
  rcases computeEntry_cases quota state.entry call.readAt call.cost with
    ⟨_, hcompute⟩ | ⟨decision, hdecision, hcompute⟩
  · -- a panic admits nothing and keeps the entry
    have hlog : admittedWithin start finish
        (state.commitCall quota now call).log =
          admittedWithin start finish state.log := by
      simp [KeyState.commitCall, hcompute, admittedWithin,
        Commit.admittedWithin]
    have hentry : (state.commitCall quota now call).entry = state.entry := by
      simp [KeyState.commitCall, hcompute]
    refine ⟨hnonneg, ?_, ?_, ?_⟩
    · rw [hlog]
      exact hgood.bounded
    · rw [hlog, hentry]
      exact hgood.missing
    · rw [hlog, hentry]
      exact hgood.covered
  · have hlog : (state.commitCall quota now call).log =
        ⟨call.readAt, now, call.cost, some decision⟩ :: state.log := by
      simp [KeyState.commitCall, hcompute]
    have hentry : (state.commitCall quota now call).entry =
        some ((state.entry.getD (Bucket.new call.readAt quota)).tryConsume
          call.readAt quota call.cost).1 := by
      simp [KeyState.commitCall, hcompute]
    refine ⟨hnonneg, ?_, ?_, ?_⟩
    · rw [hlog, admittedWithin]
      by_cases hread : quota.units call.readAt ≤ quota.units finish
      · have hfinish := hgood.covered_commit now hbefore hread hdecision
          (quota.units finish) ((Bucket.tryConsume_mark _ _ _ _).le.trans hread)
          (quota.units_mono hle)
        have htokens := hnonneg _ hentry
        have hlevel : 0 ≤ Bucket.levelAt quota _ finish :=
          Bucket.levelAt_nonneg htokens finish
        exact (le_add_of_nonneg_left hlevel).trans hfinish
      · rcases Commit.admittedWithin_eq_or start finish call.readAt now
            hdecision with
          hzero | ⟨_, hfinish, _⟩
        · rw [hzero, zero_add]
          exact hgood.bounded
        · exact absurd hfinish hread
    · rw [hentry]
      simp
    · intro bucket hbucket hread
      rw [hentry, Option.some.injEq] at hbucket
      subst hbucket
      rw [Bucket.tryConsume_lastUpdate] at hread
      rw [hlog]
      exact hgood.covered_commit now hbefore hread hdecision

/-- Everything a step can do. -/
theorem KeyState.step_cases {quota : Quota} {state next : KeyState}
    {event : ConsumeEvent} (hstep : state.step quota event = some next) :
    (∃ id cost, event.action = .read id cost ∧
        next = { state with
          clock := event.now
          inFlight := ⟨id, event.now, cost⟩ :: state.inFlight }) ∨
      ∃ id call, event.action = .commit id ∧
        state.inFlightCall id = some call ∧
        next = state.commitCall quota event.now call := by
  unfold KeyState.step at hstep
  split at hstep
  next =>
    cases haction : event.action with
    | read id cost =>
        rw [haction] at hstep
        simp only at hstep
        split at hstep
        next => simp at hstep
        next => exact .inl ⟨id, cost, rfl, (Option.some.inj hstep).symm⟩
    | commit id =>
        rw [haction] at hstep
        simp only at hstep
        split at hstep
        next => simp at hstep
        next call hcall =>
          exact .inr ⟨id, call, rfl, hcall, (Option.some.inj hstep).symm⟩
  next => simp at hstep

theorem KeyState.Budgeted.step {quota : Quota} {start finish : Instant}
    (hle : start ≤ finish) {state next : KeyState} {event : ConsumeEvent}
    (hgood : state.Budgeted quota start finish)
    (horder : state.inOrder quota event = true)
    (hstep : state.step quota event = some next) :
    next.Budgeted quota start finish := by
  rcases KeyState.step_cases hstep with
    ⟨id, cost, _, rfl⟩ | ⟨id, call, haction, hcall, rfl⟩
  · exact ⟨hgood.nonneg, hgood.bounded, hgood.missing, hgood.covered⟩
  · apply hgood.commitCall hle
    intro bucket hbucket
    simp only [KeyState.inOrder, haction, hcall, hbucket, Bool.or_eq_true,
      decide_eq_true_eq] at horder
    rcases horder with hcount | hlast
    · rw [Quota.units_of_count_eq_zero hcount,
        Quota.units_of_count_eq_zero hcount]
    · exact quota.units_mono hlast

/-- In every run whose commits all read the clock at or after the bucket's
last update, no interval admits more than the burst and the sustained rate
allow. -/
theorem consume_never_overAdmits_of_inOrder (quota : Quota) {clock : Instant}
    {state : KeyState}
    (hreach : Reachable (KeyState.step quota)
      (fun state event => state.inOrder quota event = true)
      (KeyState.init clock) state)
    {start finish : Instant} (hle : start ≤ finish) :
    admittedWithin start finish state.log ≤
      intervalBudget quota start finish := by
  have hgood : state.Budgeted quota start finish :=
    hreach.invariant (KeyState.init_budgeted quota hle clock)
      (fun hgood horder hstep => hgood.step hle horder hstep)
  rw [intervalBudget_eq]
  exact hgood.bounded

/-- Ten tokens a second, two calls in clock order: a second admits at most
twenty. -/
theorem consume_never_overAdmits_of_inOrder_pair :
    ∃ state,
      run (restrict (KeyState.step (Quota.perSecond 10))
          (KeyState.inOrder (Quota.perSecond 10)))
        (KeyState.init (Instant.atSec 0))
        [⟨Instant.atSec 0, .read 0 10⟩, ⟨Instant.atSec 0, .commit 0⟩,
          ⟨Instant.atSec 1, .read 1 10⟩, ⟨Instant.atSec 1, .commit 1⟩] =
        some state ∧
      admittedWithin (Instant.atSec 0) (Instant.atSec 1) state.log ≤
        intervalBudget (Quota.perSecond 10) (Instant.atSec 0)
          (Instant.atSec 1) := by
  have hrun : (run (restrict (KeyState.step (Quota.perSecond 10))
      (KeyState.inOrder (Quota.perSecond 10)))
        (KeyState.init (Instant.atSec 0))
        [⟨Instant.atSec 0, .read 0 10⟩, ⟨Instant.atSec 0, .commit 0⟩,
          ⟨Instant.atSec 1, .read 1 10⟩,
          ⟨Instant.atSec 1, .commit 1⟩]).isSome := by
    decide +kernel
  obtain ⟨state, hstate⟩ := Option.isSome_iff_exists.mp hrun
  exact ⟨state, hstate, consume_never_overAdmits_of_inOrder _
    (reachable_of_run_restrict hstate) (by decide)⟩

/-! ## A stalled call -/

/-- Ten tokens a second.  Call 0 reads the clock and stalls; a second later
call 1 takes the burst; call 0 commits, is denied, and moves the last update
back to its own reading; call 2 finds the bucket full again. -/
def stalledCallRun : List ConsumeEvent :=
  [⟨Instant.atSec 0, .read 0 1⟩,
    ⟨Instant.atSec 1, .read 1 10⟩,
    ⟨Instant.atSec 1, .commit 1⟩,
    ⟨Instant.atSec 1, .commit 0⟩,
    ⟨Instant.atSec 1, .read 2 10⟩,
    ⟨Instant.atSec 1, .commit 2⟩]

theorem consume_overAdmits_after_stalled_call :
    ¬ ∀ (quota : Quota) (clock : Instant) (state : KeyState),
      quota.window ≠ Duration.zero →
      Reachable (KeyState.step quota) anyStep (KeyState.init clock) state →
      ∀ start finish, start ≤ finish →
        admittedWithin start finish state.log ≤
          intervalBudget quota start finish := by
  intro hclaim
  have hrun : (run (KeyState.step (Quota.perSecond 10))
      (KeyState.init (Instant.atSec 0)) stalledCallRun).isSome := by
    decide +kernel
  obtain ⟨state, hstate⟩ := Option.isSome_iff_exists.mp hrun
  have hlog : (run (KeyState.step (Quota.perSecond 10))
      (KeyState.init (Instant.atSec 0)) stalledCallRun).map
        (fun state => admittedWithin (Instant.atSec 1) (Instant.atSec 1)
          state.log) = some 20 := by
    decide +kernel
  rw [hstate, Option.map_some, Option.some.injEq] at hlog
  have hbound := hclaim (Quota.perSecond 10) (Instant.atSec 0) state
    (by decide) (reachable_of_run hstate) (Instant.atSec 1) (Instant.atSec 1)
    le_rfl
  rw [hlog] at hbound
  exact absurd hbound (by decide +kernel)

end TrilliumRatelimit
