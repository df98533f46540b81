import TrilliumRatelimit.ServerBackoff

/-!
# Scopes do not interfere

A throttle keeps one time for each scope.  How long the requests of a scope
sleep depends on its own requests and on the responses to them alone, whatever
the servers behind the other scopes send, and whether or not reading or
obeying a response panics.  Without server signals it depends on the requests
alone.
-/

namespace TrilliumRatelimit

variable {Url : Type*}

def ThrottleCall.url : ThrottleCall Url → Url
  | .request url _ => url
  | .response url _ _ => url

def ThrottleCall.isRequest : ThrottleCall Url → Bool
  | .request _ _ => true
  | .response _ _ _ => false

/-- What may touch the time of a scope. -/
def Throttle.concerns (self : Throttle Url) (scope : String)
    (call : ThrottleCall Url) : Bool :=
  self.scope call.url = scope && (call.isRequest || self.honorServerSignals)

/-- How long the requests of a scope sleep, in the order of their claims. -/
def Throttle.delays (self : Throttle Url) (sf : SfParser) (scope : String) :
    ThrottleState → List (ThrottleCall Url) → List Duration
  | _, [] => []
  | state, .request url now :: rest =>
      let (delay, next) := self.run state url now
      if self.scope url = scope then delay :: self.delays sf scope next rest
      else self.delays sf scope next rest
  | state, .response url now headers :: rest =>
      self.delays sf scope (self.call sf state (.response url now headers))
        rest

/-- Panics included, a call leaves the time of a scope it does not concern. -/
theorem Throttle.call_of_not_concerns {self : Throttle Url} {scope : String}
    {call : ThrottleCall Url} (h : ¬ self.concerns scope call = true)
    (sf : SfParser) (state : ThrottleState) :
    self.call sf state call scope = state scope := by
  cases call with
  | request url now =>
      have hother : ¬ self.scope url = scope := by
        intro hscope
        simp [Throttle.concerns, ThrottleCall.url, ThrottleCall.isRequest,
          hscope] at h
      exact self.claim_other hother state now
  | response url now headers =>
      simp only [Throttle.call]
      cases hnext : self.processResponse sf state url now headers with
      | none => rfl
      | some next =>
          rw [Option.getD_some]
          by_cases hhonors : self.honorServerSignals = true
          · have hother : ¬ self.scope url = scope := by
              intro hscope
              simp [Throttle.concerns, ThrottleCall.url, hscope,
                hhonors] at h
            rw [Throttle.processResponse, if_pos hhonors,
              Option.bind_eq_some_iff] at hnext
            obtain ⟨backoff, _, hafter⟩ := hnext
            exact Throttle.afterResponse_other hafter (Ne.symm hother)
          · rw [Throttle.processResponse, if_neg hhonors,
              Option.some.injEq] at hnext
            rw [hnext]

theorem Throttle.backOff_congr (self : Throttle Url)
    {state other : ThrottleState} {scope : String}
    (hsame : state scope = other scope) (now : Instant)
    (backoff : Duration) :
    (self.backOff state scope now backoff).getD state scope =
      (self.backOff other scope now backoff).getD other scope := by
  simp only [Throttle.backOff, Option.bind_eq_bind, Option.pure_def]
  cases now.checkedAdd backoff with
  | none => exact hsame
  | some resumed =>
      rw [Option.bind_some, Option.bind_some]
      cases resumed.checkedAdd self.tolerance with
      | none => exact hsame
      | some target =>
          simp only [Option.bind_some, Option.getD_some,
            Function.update_self, hsame]

/-- What a call does to a scope is determined by the time of that scope. -/
theorem Throttle.call_congr (self : Throttle Url) (sf : SfParser)
    {state other : ThrottleState} {call : ThrottleCall Url}
    (hsame : state (self.scope call.url) = other (self.scope call.url)) :
    self.call sf state call (self.scope call.url) =
      self.call sf other call (self.scope call.url) := by
  cases call with
  | request url now =>
      simp only [ThrottleCall.url] at hsame
      simp only [Throttle.call, Throttle.run, ThrottleCall.url,
        Throttle.claim_same, hsame]
  | response url now headers =>
      simp only [ThrottleCall.url] at hsame ⊢
      simp only [Throttle.call, Throttle.processResponse]
      by_cases hhonors : self.honorServerSignals = true
      · rw [if_pos hhonors, if_pos hhonors]
        cases serverBackoff sf headers with
        | none => exact hsame
        | some found =>
            simp only [Option.bind_some, Throttle.afterResponse, hhonors,
              if_true]
            cases found with
            | none => exact hsame
            | some backoff => exact self.backOff_congr hsame now backoff
      · rw [if_neg hhonors, if_neg hhonors]
        exact hsame

theorem Throttle.delays_filter (self : Throttle Url) (sf : SfParser)
    {scope : String} {state other : ThrottleState}
    (hsame : state scope = other scope) (calls : List (ThrottleCall Url)) :
    self.delays sf scope state calls =
      self.delays sf scope other (calls.filter (self.concerns scope)) := by
  induction calls generalizing state other with
  | nil => rfl
  | cons call rest ih =>
      by_cases hconcerns : self.concerns scope call = true
      · have hscope : self.scope call.url = scope := by
          simp only [Throttle.concerns, Bool.and_eq_true,
            decide_eq_true_eq] at hconcerns
          exact hconcerns.1
        subst hscope
        have hrest := ih (self.call_congr sf hsame)
        rw [List.filter_cons_of_pos hconcerns]
        cases call with
        | request url now =>
            simp only [ThrottleCall.url] at hsame hrest ⊢
            have hdelay : (self.run state url now).1 =
                (self.run other url now).1 := by
              simp only [Throttle.run, Throttle.claim, hsame]
            simp only [Throttle.delays, if_true, hdelay]
            exact congrArg _ hrest
        | response url now headers => exact hrest
      · have hkept := Throttle.call_of_not_concerns hconcerns sf state
        have hrest := ih (hkept.trans hsame)
        rw [List.filter_cons_of_neg hconcerns, ← hrest]
        cases call with
        | request url now =>
            have hother : ¬ self.scope url = scope := by
              intro hscope
              simp [Throttle.concerns, ThrottleCall.url,
                ThrottleCall.isRequest, hscope] at hconcerns
            simp only [Throttle.delays, if_neg hother]
            rfl
        | response url now headers => rfl

/-- The requests of a scope sleep as in the run of that scope alone, and where
server signals are not honoured, as in the run of its requests alone. -/
theorem scopes_do_not_interfere (self : Throttle Url) (sf : SfParser)
    (scope : String) (calls : List (ThrottleCall Url)) :
    self.delays sf scope (fun _ => none) calls =
        self.delays sf scope (fun _ => none)
          (calls.filter fun call => self.scope call.url = scope) ∧
      (self.honorServerSignals = false →
        self.delays sf scope (fun _ => none) calls =
          self.delays sf scope (fun _ => none)
            (calls.filter fun call =>
              self.scope call.url = scope && call.isRequest)) := by
  have hfilter (calls : List (ThrottleCall Url)) :
      self.delays sf scope (fun _ => none) calls =
        self.delays sf scope (fun _ => none)
          (calls.filter (self.concerns scope)) :=
    self.delays_filter sf rfl calls
  constructor
  · have hsame : (calls.filter fun call => self.scope call.url = scope).filter
        (self.concerns scope) = calls.filter (self.concerns scope) := by
      rw [List.filter_filter]
      congr 1
      funext call
      simp only [Throttle.concerns]
      cases decide (self.scope call.url = scope) <;> simp
    rw [hfilter calls, ← hsame]
    exact (hfilter _).symm
  · intro hhonors
    rw [hfilter]
    congr 2
    funext call
    rw [Throttle.concerns, hhonors, Bool.or_false]

end TrilliumRatelimit
