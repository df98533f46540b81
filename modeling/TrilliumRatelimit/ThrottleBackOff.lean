import TrilliumRatelimit.Throttle
import TrilliumRatelimit.Transitions

/-!
# Back-offs among concurrent requests

Requests claim their slots one after the other under the lock and sleep
outside of it.  A response may push its scope's arrival time out while other
requests of the scope are asleep; those keep the slot they claimed.  What a
back-off does promise is about the requests that claim after it: none of them
departs before it is over.
-/

namespace TrilliumRatelimit

open Transitions VirtualSchedule

/-- A request that has claimed its slot and sleeps until it. -/
structure Waiting where
  id : ℕ
  scope : String
  slot : Slot
  deriving DecidableEq

structure Departed where
  id : ℕ
  scope : String
  departedAt : Instant
  deriving DecidableEq

structure ThrottleRun where
  clock : Instant
  tats : ThrottleState
  nextId : ℕ
  waiting : List Waiting
  departed : List Departed

inductive ThrottleAction (Url : Type*) where
  | claim (url : Url)
  | depart (id : ℕ)
  | respond (url : Url) (serverBackoff : Option Duration)

structure ThrottleEvent (Url : Type*) where
  now : Instant
  action : ThrottleAction Url

def ThrottleRun.init (clock : Instant) : ThrottleRun :=
  ⟨clock, fun _ => none, 0, [], []⟩

section

variable {Url : Type*}

/-- The clock is monotone and ids count the claims.  A sleep does not end
early; it may end late. -/
def ThrottleRun.step (throttle : Throttle Url) (state : ThrottleRun)
    (event : ThrottleEvent Url) : Option ThrottleRun :=
  if state.clock ≤ event.now then
    match event.action with
    | .claim url =>
        some { state with
          clock := event.now
          tats := (throttle.run state.tats url event.now).2
          nextId := state.nextId + 1
          waiting :=
            ⟨state.nextId, throttle.scope url,
              throttle.slot state.tats ⟨throttle.scope url, event.now⟩⟩ ::
              state.waiting }
    | .depart id =>
        match state.waiting.find? fun request => request.id = id with
        | none => none
        | some request =>
            if request.slot.departs ≤ event.now then
              some { state with
                clock := event.now
                waiting := state.waiting.filter fun other => other.id ≠ id
                departed :=
                  ⟨request.id, request.scope, event.now⟩ :: state.departed }
            else none
    | .respond url serverBackoff =>
        (throttle.afterResponse state.tats url event.now serverBackoff).map
          fun tats => { state with clock := event.now, tats := tats }
  else none

/-- Everything a step can do. -/
theorem ThrottleRun.step_cases {throttle : Throttle Url}
    {state next : ThrottleRun} {event : ThrottleEvent Url}
    (hstep : state.step throttle event = some next) :
    (∃ url, event.action = .claim url ∧
      next = { state with
        clock := event.now
        tats := (throttle.run state.tats url event.now).2
        nextId := state.nextId + 1
        waiting :=
          ⟨state.nextId, throttle.scope url,
            throttle.slot state.tats ⟨throttle.scope url, event.now⟩⟩ ::
            state.waiting }) ∨
    (∃ id request, event.action = .depart id ∧ request ∈ state.waiting ∧
      request.slot.departs ≤ event.now ∧
      next = { state with
        clock := event.now
        waiting := state.waiting.filter fun other => other.id ≠ id
        departed :=
          ⟨request.id, request.scope, event.now⟩ :: state.departed }) ∨
    (∃ url serverBackoff tats, event.action = .respond url serverBackoff ∧
      throttle.afterResponse state.tats url event.now serverBackoff =
        some tats ∧
      next = { state with clock := event.now, tats := tats }) := by
  unfold ThrottleRun.step at hstep
  split at hstep
  next =>
    cases haction : event.action with
    | claim url =>
        rw [haction] at hstep
        exact .inl ⟨url, rfl, (Option.some.inj hstep).symm⟩
    | depart id =>
        rw [haction] at hstep
        simp only at hstep
        cases hfind : state.waiting.find? fun request => request.id = id with
        | none => simp [hfind] at hstep
        | some request =>
            rw [hfind] at hstep
            simp only at hstep
            split at hstep
            next hdeparts =>
              exact .inr (.inl ⟨id, request, rfl,
                List.mem_of_find?_eq_some hfind, hdeparts,
                (Option.some.inj hstep).symm⟩)
            next => simp at hstep
    | respond url serverBackoff =>
        rw [haction] at hstep
        obtain ⟨tats, htats, rfl⟩ := Option.map_eq_some_iff.mp hstep
        exact .inr (.inr ⟨url, serverBackoff, tats, rfl, htats, rfl⟩)
  next => simp at hstep

/-! ## Requests that claim after a back-off -/

/-- Ids are handed out once. -/
structure ThrottleRun.Numbered (state : ThrottleRun) : Prop where
  waiting : ∀ request ∈ state.waiting, request.id < state.nextId
  departed : ∀ request ∈ state.departed, request.id < state.nextId

/-- Every request of the scope numbered from `first` on departs at `resume` or
later. -/
structure ThrottleRun.HeldBack (throttle : Throttle Url) (scope : String)
    (resume : ℤ) (first : ℕ) (state : ThrottleRun) : Prop where
  tat : state.tats.AtLeast scope (resume + throttle.tolerance.nanos)
  waiting : ∀ request ∈ state.waiting, request.scope = scope →
    first ≤ request.id → resume ≤ request.slot.departs.nanos
  departed : ∀ request ∈ state.departed, request.scope = scope →
    first ≤ request.id → resume ≤ request.departedAt.nanos

theorem ThrottleRun.init_numbered (clock : Instant) :
    (ThrottleRun.init clock).Numbered := by
  constructor <;> simp [ThrottleRun.init]

theorem ThrottleRun.Numbered.step {throttle : Throttle Url}
    {state next : ThrottleRun} {event : ThrottleEvent Url}
    (hnumbered : state.Numbered)
    (hstep : state.step throttle event = some next) : next.Numbered := by
  obtain ⟨hwaiting, hdeparted⟩ := hnumbered
  rcases ThrottleRun.step_cases hstep with
    ⟨url, _, rfl⟩ | ⟨id, request, _, hmem, _, rfl⟩ | ⟨url, _, tats, _, _, rfl⟩
  · constructor
    · intro request hrequest
      rcases List.mem_cons.mp hrequest with rfl | hrequest
      · exact Nat.lt_succ_self _
      · exact (hwaiting request hrequest).trans (Nat.lt_succ_self _)
    · intro request hrequest
      exact (hdeparted request hrequest).trans (Nat.lt_succ_self _)
  · constructor
    · intro other hother
      exact hwaiting other (List.mem_of_mem_filter hother)
    · intro other hother
      rcases List.mem_cons.mp hother with rfl | hother
      · exact hwaiting request hmem
      · exact hdeparted other hother
  · exact ⟨hwaiting, hdeparted⟩

theorem ThrottleRun.HeldBack.step {throttle : Throttle Url} {scope : String}
    {resume : ℤ} {first : ℕ} {state next : ThrottleRun}
    {event : ThrottleEvent Url}
    (hheld : state.HeldBack throttle scope resume first)
    (hstep : state.step throttle event = some next) :
    next.HeldBack throttle scope resume first := by
  obtain ⟨htat, hwaiting, hdeparted⟩ := hheld
  rcases ThrottleRun.step_cases hstep with
    ⟨url, _, rfl⟩ | ⟨id, request, _, hmem, hslot, rfl⟩ |
      ⟨url, _, tats, _, htats, rfl⟩
  · refine ⟨htat.claim throttle _ _, ?_, hdeparted⟩
    intro request hrequest hscope hfirst
    rcases List.mem_cons.mp hrequest with rfl | hrequest
    · simp only at hscope
      subst hscope
      exact Throttle.slot_departs_of_atLeast htat event.now
    · exact hwaiting request hrequest hscope hfirst
  · refine ⟨htat, ?_, ?_⟩
    · intro other hother
      exact hwaiting other (List.mem_of_mem_filter hother)
    · intro other hother hscope hfirst
      rcases List.mem_cons.mp hother with rfl | hother
      · exact (hwaiting request hmem hscope hfirst).trans hslot
      · exact hdeparted other hother hscope hfirst
  · exact ⟨htat.afterResponse htats, hwaiting, hdeparted⟩

/-- A response that backs its scope off holds every later claim back. -/
theorem ThrottleRun.heldBack_respond {throttle : Throttle Url}
    (hhonor : throttle.honorServerSignals = true)
    {state next : ThrottleRun} (hnumbered : state.Numbered) {now : Instant}
    {url : Url} {backoff : Duration}
    (hstep : state.step throttle ⟨now, .respond url (some backoff)⟩ =
      some next) :
    next.HeldBack throttle (throttle.scope url) (now.nanos + backoff.nanos)
      next.nextId := by
  rcases ThrottleRun.step_cases hstep with
    ⟨_, haction, _⟩ | ⟨_, _, haction, _⟩ |
      ⟨url', serverBackoff, tats, haction, htats, rfl⟩
  · simp at haction
  · simp at haction
  · simp only [ThrottleAction.respond.injEq] at haction
    obtain ⟨rfl, rfl⟩ := haction
    rw [Throttle.afterResponse, if_pos hhonor] at htats
    refine ⟨ThrottleState.atLeast_backOff htats, ?_, ?_⟩
    · intro request hrequest _ hfirst
      exact absurd (hnumbered.waiting request hrequest) hfirst.not_gt
    · intro request hrequest _ hfirst
      exact absurd (hnumbered.departed request hrequest) hfirst.not_gt

/-- Once a back-off has executed, no request of its scope that claims its slot
after it departs before the back-off is over. -/
theorem backOff_holds_later_claims {throttle : Throttle Url}
    (hhonor : throttle.honorServerSignals = true) {clock now : Instant}
    {state next final : ThrottleRun} {url : Url} {backoff : Duration}
    (hreach : Reachable (ThrottleRun.step throttle) anyStep
      (ThrottleRun.init clock) state)
    (hstep : state.step throttle ⟨now, .respond url (some backoff)⟩ =
      some next)
    (hlater : Reachable (ThrottleRun.step throttle) anyStep next final) :
    ∀ request ∈ final.departed, request.scope = throttle.scope url →
      next.nextId ≤ request.id →
      now.nanos + backoff.nanos ≤ request.departedAt.nanos := by
  have hnumbered : state.Numbered :=
    hreach.invariant (ThrottleRun.init_numbered clock)
      (fun hnumbered _ hstep => hnumbered.step hstep)
  have hheld : final.HeldBack throttle (throttle.scope url)
      (now.nanos + backoff.nanos) next.nextId :=
    hlater.invariant (ThrottleRun.heldBack_respond hhonor hnumbered hstep)
      (fun hheld _ hstep => hheld.step hstep)
  exact hheld.departed

end

/-- One request a second; the first response asks for ten seconds. -/
def backOffRun (before after : List (ThrottleEvent String)) :
    Option (ThrottleRun × ThrottleRun × ThrottleRun) := do
  let throttle := Throttle.new id (Quota.perSecond 1)
  let state ← run (ThrottleRun.step throttle)
    (ThrottleRun.init (Instant.atSec 0)) before
  let next ← state.step throttle
    ⟨Instant.atSec 0, .respond "a" (some (Duration.fromSecs 10))⟩
  let final ← run (ThrottleRun.step throttle) next after
  return (state, next, final)

theorem backOffRun_eq_some {before after : List (ThrottleEvent String)}
    {state next final : ThrottleRun}
    (hrun : backOffRun before after = some (state, next, final)) :
    Reachable (ThrottleRun.step (Throttle.new id (Quota.perSecond 1))) anyStep
        (ThrottleRun.init (Instant.atSec 0)) state ∧
      state.step (Throttle.new id (Quota.perSecond 1))
        ⟨Instant.atSec 0, .respond "a" (some (Duration.fromSecs 10))⟩ =
          some next ∧
      Reachable (ThrottleRun.step (Throttle.new id (Quota.perSecond 1)))
        anyStep next final := by
  simp only [backOffRun, Option.bind_eq_bind, Option.bind_eq_some_iff,
    Option.pure_def, Option.some.injEq, Prod.mk.injEq] at hrun
  obtain ⟨_, hbefore, _, hstep, _, hafter, rfl, rfl, rfl⟩ := hrun
  exact ⟨reachable_of_run hbefore, hstep, reachable_of_run hafter⟩

theorem backOff_holds_later_claims_once :
    ∃ state next final,
      backOffRun
          [⟨Instant.atSec 0, .claim "a"⟩, ⟨Instant.atSec 0, .depart 0⟩]
          [⟨Instant.atSec 1, .claim "a"⟩, ⟨Instant.atSec 10, .depart 1⟩] =
        some (state, next, final) ∧
      ∀ request ∈ final.departed, request.scope = "a" →
        next.nextId ≤ request.id →
        (Instant.atSec 0).nanos + (Duration.fromSecs 10).nanos ≤
          request.departedAt.nanos := by
  have hsome : (backOffRun
      [⟨Instant.atSec 0, .claim "a"⟩, ⟨Instant.atSec 0, .depart 0⟩]
      [⟨Instant.atSec 1, .claim "a"⟩,
        ⟨Instant.atSec 10, .depart 1⟩]).isSome := by
    decide +kernel
  obtain ⟨⟨state, next, final⟩, hrun⟩ := Option.isSome_iff_exists.mp hsome
  obtain ⟨hreach, hstep, hlater⟩ := backOffRun_eq_some hrun
  exact ⟨state, next, final, hrun,
    backOff_holds_later_claims rfl hreach hstep hlater⟩

/-- The second of two requests at once is asleep until `1 s` when the first
response asks for ten seconds, and departs in the middle of them. -/
theorem backOff_misses_waiting_request :
    ¬ ∀ (quota : Quota) (clock now : Instant)
        (state next final : ThrottleRun) (url : String) (backoff : Duration),
      Reachable (ThrottleRun.step (Throttle.new id quota)) anyStep
        (ThrottleRun.init clock) state →
      state.step (Throttle.new id quota)
        ⟨now, .respond url (some backoff)⟩ = some next →
      Reachable (ThrottleRun.step (Throttle.new id quota)) anyStep
        next final →
      ∀ request ∈ final.departed, request.scope = url →
        ¬ (now < request.departedAt ∧
          request.departedAt.nanos < now.nanos + backoff.nanos) := by
  intro hclaim
  have hdeparted : (backOffRun
      [⟨Instant.atSec 0, .claim "a"⟩, ⟨Instant.atSec 0, .claim "a"⟩,
        ⟨Instant.atSec 0, .depart 0⟩]
      [⟨Instant.atSec 1, .depart 1⟩]).map (fun states =>
        states.2.2.departed) =
      some [⟨1, "a", Instant.atSec 1⟩, ⟨0, "a", Instant.atSec 0⟩] := by
    decide +kernel
  obtain ⟨⟨state, next, final⟩, hrun, hfinal⟩ :=
    Option.map_eq_some_iff.mp hdeparted
  obtain ⟨hreach, hstep, hlater⟩ := backOffRun_eq_some hrun
  have hnever := hclaim (Quota.perSecond 1) (Instant.atSec 0)
    (Instant.atSec 0) state next final "a" (Duration.fromSecs 10) hreach
    hstep hlater ⟨1, "a", Instant.atSec 1⟩ (by rw [hfinal]; simp) rfl
  exact hnever (by decide)

end TrilliumRatelimit
