import Mathlib.Tactic

/-!
# Partial step functions

Runs and reachable states of a system given by a partial step function.  An
event that is not enabled has no successor.  Reachability takes a guard on the
steps, so that a result about every run and a result about the runs whose
steps all meet a condition use the same induction.
-/

namespace Transitions

variable {State Event : Type*}

def run (step : State → Event → Option State) :
    State → List Event → Option State
  | state, [] => some state
  | state, event :: rest =>
      match step state event with
      | none => none
      | some next => run step next rest

inductive Reachable (step : State → Event → Option State)
    (guard : State → Event → Prop) (start : State) : State → Prop
  | refl : Reachable step guard start start
  | tail {state next : State} {event : Event} :
      Reachable step guard start state → guard state event →
        step state event = some next → Reachable step guard start next

/-- Every step is admissible. -/
def anyStep : State → Event → Prop := fun _ _ => True

theorem Reachable.invariant {step : State → Event → Option State}
    {guard : State → Event → Prop} {start state : State}
    {Inv : State → Prop} (hreach : Reachable step guard start state)
    (hstart : Inv start)
    (hstep : ∀ {state event next}, Inv state → guard state event →
      step state event = some next → Inv next) :
    Inv state := by
  induction hreach with
  | refl => exact hstart
  | tail _ hguard htail ih => exact hstep ih hguard htail

theorem Reachable.trans {step : State → Event → Option State}
    {guard : State → Event → Prop} {start middle state : State}
    (hfirst : Reachable step guard start middle)
    (hsecond : Reachable step guard middle state) :
    Reachable step guard start state := by
  induction hsecond with
  | refl => exact hfirst
  | tail _ hguard htail ih => exact ih.tail hguard htail

theorem Reachable.mono {step : State → Event → Option State}
    {guard weaker : State → Event → Prop} {start state : State}
    (hreach : Reachable step guard start state)
    (hweaker : ∀ {state event}, guard state event → weaker state event) :
    Reachable step weaker start state := by
  induction hreach with
  | refl => exact .refl
  | tail _ hguard htail ih => exact ih.tail (hweaker hguard) htail

/-- The steps that meet a decidable guard. -/
def restrict (step : State → Event → Option State)
    (guard : State → Event → Bool) (state : State) (event : Event) :
    Option State :=
  if guard state event then step state event else none

theorem reachable_of_run_restrict {step : State → Event → Option State}
    {guard : State → Event → Bool} {start state : State}
    {events : List Event}
    (hrun : run (restrict step guard) start events = some state) :
    Reachable step (fun state event => guard state event = true)
      start state := by
  induction events generalizing start with
  | nil =>
      simp only [run, Option.some.injEq] at hrun
      subst hrun
      exact .refl
  | cons event rest ih =>
      simp only [run, restrict] at hrun
      by_cases hguard : guard start event = true
      · rw [if_pos hguard] at hrun
        cases hstep : step start event with
        | none => simp [hstep] at hrun
        | some next =>
            rw [hstep] at hrun
            have hfirst : Reachable step
                (fun state event => guard state event = true) start next :=
              .tail .refl hguard hstep
            exact hfirst.trans (ih hrun)
      · simp [if_neg hguard] at hrun

theorem reachable_of_run {step : State → Event → Option State}
    {start state : State} {events : List Event}
    (hrun : run step start events = some state) :
    Reachable step anyStep start state := by
  have hall : restrict step (fun _ _ => true) = step := by
    funext state event
    rfl
  rw [← hall] at hrun
  exact (reachable_of_run_restrict hrun).mono fun _ => trivial

/-! ## Simulation -/

variable {Concrete Abstract Output : Type*}

/-- What a machine answers to the events of a run. -/
def trace (step : Concrete → Event → Concrete × Output) :
    Concrete → List Event → List (Event × Output)
  | _, [] => []
  | state, event :: rest =>
      (event, (step state event).2) :: trace step (step state event).1 rest

/-- The answers are ones that the steps allow, one after another. -/
inductive Explains (step : Abstract → Event → Output → Abstract → Prop) :
    Abstract → List (Event × Output) → Prop
  | nil {state : Abstract} : Explains step state []
  | cons {state next : Abstract} {event : Event} {output : Output}
      {rest : List (Event × Output)} :
      step state event output next → Explains step next rest →
        Explains step state ((event, output) :: rest)

/-- A simulation may depend on the events that are still to come. -/
theorem explains_of_simulation
    {step : Concrete → Event → Concrete × Output}
    {allowed : Abstract → Event → Output → Abstract → Prop}
    {sim : Concrete → Abstract → List Event → Prop}
    (hstep : ∀ {state model event rest}, sim state model (event :: rest) →
      ∃ next, allowed model event (step state event).2 next ∧
        sim (step state event).1 next rest)
    {state : Concrete} {model : Abstract} {events : List Event}
    (h : sim state model events) :
    Explains allowed model (trace step state events) := by
  induction events generalizing state model with
  | nil => exact .nil
  | cons event rest ih =>
      obtain ⟨next, hallowed, hnext⟩ := hstep h
      exact .cons hallowed (ih hnext)

end Transitions
