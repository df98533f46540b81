import TrilliumRatelimit.Base64
import TrilliumRatelimit.RateLimit
import TrilliumRatelimit.ReferenceParser
import TrilliumRatelimit.RetryAfter
import TrilliumRatelimit.Throttle

/-!
# What a server may ask of the throttle

`server_backoff` takes the longest of a delta-seconds `Retry-After` and the
resets of the exhausted service limits.  Reading it never panics, whatever the
headers hold.  What can panic is adding it to the clock: a response is handled
exactly if no signal in it leads past the last representable instant.
-/

namespace TrilliumRatelimit

open StructuredField

/-- What is looked up in the headers of a response: `get_str` of
`Retry-After` and the lines of `RateLimit`. -/
structure ResponseHeaders where
  retryAfter : Option Text
  rateLimit : List (Option Text)

/-- `RateLimit::from_headers(..).unwrap_or_default()`; `none` is a panic. -/
def serviceLimits (sf : SfParser) (headers : ResponseHeaders) :
    Option (List RateLimit) :=
  match RateLimit.fromHeaders sf headers.rateLimit with
  | .ok limits => some limits
  | .error .parseError => some []
  | .error .panic => none

/-- `none` is a panic, `some none` the absence of any signal. -/
def serverBackoff (sf : SfParser) (headers : ResponseHeaders) :
    Option (Option Duration) :=
  let retryAfter := (headers.retryAfter.bind fun value =>
    parseU64 (trim value)).map Duration.fromSecs
  (serviceLimits sf headers).map fun limits =>
    let rateLimitReset := ((limits.filter fun limit =>
      limit.remaining = 0).filterMap RateLimit.reset).max?
    (retryAfter.toList ++ rateLimitReset.toList).max?

/-- The signals in the headers of a response.  The service limits count only
if all of their lines are well formed. -/
inductive ResponseHeaders.Signals (accepts : Text → Bool)
    (headers : ResponseHeaders) : Duration → Prop
  | retryAfter {value : Text} {secs : UInt64} :
      headers.retryAfter = some value → DeltaSeconds value secs →
        headers.Signals accepts (Duration.fromSecs secs)
  | reset {limit : RateLimit} {reset : Duration} :
      WellFormed accepts headers.rateLimit →
      limitReading.Carries accepts headers.rateLimit limit →
      limit.remaining = 0 → limit.reset = some reset →
        headers.Signals accepts reset

section

variable {sf : SfParser} {accepts : Text → Bool}

theorem serviceLimits_spec (hsf : sf.FollowsRfc9651 accepts)
    (headers : ResponseHeaders) :
    ∃ limits, serviceLimits sf headers = some limits ∧
      ∀ limit, limit ∈ limits ↔ WellFormed accepts headers.rateLimit ∧
        limitReading.Carries accepts headers.rateLimit limit := by
  unfold serviceLimits RateLimit.fromHeaders RateLimit.parseList
  by_cases hlines : WellFormed accepts headers.rateLimit
  · obtain ⟨limits, hlimits, hmem⟩ :=
      fromLines_of_wellFormed hsf limitReading hlines
    exact ⟨limits, by rw [hlimits], by simp [hmem, hlines]⟩
  · exact ⟨[], by rw [fromLines_of_not_wellFormed hsf limitReading hlines],
      by simp [hlines]⟩

theorem max?_append_max? (first second : List Duration) :
    (first ++ second.max?.toList).max? = (first ++ second).max? := by
  cases hsecond : second.max? with
  | none => rw [List.max?_eq_none_iff.mp hsecond, Option.toList_none]
  | some longest =>
      obtain ⟨hmem, hle⟩ := List.max?_eq_some_iff.mp hsecond
      cases hall : (first ++ second).max? with
      | none =>
          rw [List.max?_eq_none_iff, List.append_eq_nil_iff] at hall
          rw [hall.2] at hmem
          simp at hmem
      | some d =>
          rw [List.max?_eq_some_iff] at hall ⊢
          obtain ⟨hd, hbound⟩ := hall
          simp only [Option.toList_some, List.mem_append,
            List.mem_singleton] at hd hbound ⊢
          refine ⟨?_, ?_⟩
          · rcases hd with hd | hd
            · exact .inl hd
            · exact .inr (le_antisymm (hle d hd) (hbound longest (.inr hmem)))
          · rintro other (hother | rfl)
            · exact hbound other (.inl hother)
            · exact hbound other (.inr hmem)

theorem serverBackoff_spec (hsf : sf.FollowsRfc9651 accepts)
    (headers : ResponseHeaders) :
    ∃ backoff, serverBackoff sf headers = some backoff ∧
      (backoff = none → ∀ d, ¬ headers.Signals accepts d) ∧
      ∀ longest, backoff = some longest →
        headers.Signals accepts longest ∧
          ∀ d, headers.Signals accepts d → d ≤ longest := by
  obtain ⟨limits, hlimits, hmem⟩ := serviceLimits_spec hsf headers
  have hsignals (d : Duration) : headers.Signals accepts d ↔
      d ∈ ((headers.retryAfter.bind fun value =>
          parseU64 (trim value)).map Duration.fromSecs).toList ++
        (limits.filter fun limit =>
          limit.remaining = 0).filterMap RateLimit.reset := by
    simp only [List.mem_append, Option.mem_toList,
      Option.map_eq_some_iff, Option.bind_eq_some_iff, List.mem_filterMap,
      List.mem_filter, decide_eq_true_eq, hmem, parseU64_trim_eq_some_iff]
    constructor
    · rintro (⟨hvalue, hsecs⟩ | ⟨hlines, hcarries, hremaining, hreset⟩)
      · exact .inl ⟨_, ⟨_, hvalue, hsecs⟩, rfl⟩
      · exact .inr ⟨_, ⟨⟨hlines, hcarries⟩, hremaining⟩, hreset⟩
    · rintro (⟨secs, ⟨value, hvalue, hsecs⟩, rfl⟩ |
        ⟨limit, ⟨⟨hlines, hcarries⟩, hremaining⟩, hreset⟩)
      · exact .retryAfter hvalue hsecs
      · exact .reset hlines hcarries hremaining hreset
  refine ⟨_, by rw [serverBackoff, hlimits, Option.map_some], ?_, ?_⟩
  · intro hnone d hd
    rw [max?_append_max?, List.max?_eq_none_iff] at hnone
    rw [hsignals, hnone] at hd
    simp at hd
  · intro longest hlongest
    rw [max?_append_max?, List.max?_eq_some_iff] at hlongest
    exact ⟨(hsignals longest).mpr hlongest.1,
      fun d hd => hlongest.2 d ((hsignals d).mp hd)⟩

end

/-! ## Responses -/

section

variable {Url : Type*} {sf : SfParser} {accepts : Text → Bool}

/-- `after_response`: headers are read only where signals are honoured. -/
def Throttle.processResponse (self : Throttle Url) (sf : SfParser)
    (state : ThrottleState) (url : Url) (now : Instant)
    (headers : ResponseHeaders) : Option ThrottleState :=
  if self.honorServerSignals then
    (serverBackoff sf headers).bind (self.afterResponse state url now)
  else some state

inductive ThrottleCall (Url : Type*) where
  | request (url : Url) (now : Instant)
  | response (url : Url) (now : Instant) (headers : ResponseHeaders)

/-- A panic is raised before the lock is taken and leaves the map as it
was. -/
def Throttle.call (self : Throttle Url) (sf : SfParser)
    (state : ThrottleState) : ThrottleCall Url → ThrottleState
  | .request url now => (self.run state url now).2
  | .response url now headers =>
      (self.processResponse sf state url now headers).getD state

/-- What handling a response means: no panic, the scope's time moves forward
and past what the server asked for, and the other scopes' times stay. -/
def Throttle.Handles (self : Throttle Url) (sf : SfParser)
    (state : ThrottleState) : ThrottleCall Url → Prop
  | .request _ _ => True
  | .response url now headers => ∃ next,
      self.processResponse sf state url now headers = some next ∧
      (∀ tat, state (self.scope url) = some tat →
        next.AtLeast (self.scope url) tat.nanos) ∧
      (self.honorServerSignals = true →
        ∀ backoff, serverBackoff sf headers = some (some backoff) →
          next.AtLeast (self.scope url)
            (now.nanos + backoff.nanos + self.tolerance.nanos)) ∧
      ∀ other, other ≠ self.scope url → next other = state other

/-- Every response along a run is handled. -/
def Throttle.HandlesAll (self : Throttle Url) (sf : SfParser) :
    ThrottleState → List (ThrottleCall Url) → Prop
  | _, [] => True
  | state, call :: rest =>
      self.Handles sf state call ∧
        self.HandlesAll sf (self.call sf state call) rest

/-- Every signal the throttle honours ends in the range of `Instant`. -/
def Throttle.InRange (self : Throttle Url) (accepts : Text → Bool) :
    ThrottleCall Url → Prop
  | .request _ _ => True
  | .response _ now headers => self.honorServerSignals = true →
      ∀ d, headers.Signals accepts d →
        now.nanos + d.nanos + self.tolerance.nanos < instantLimit

theorem Throttle.afterResponse_other {self : Throttle Url}
    {state next : ThrottleState} {url : Url} {now : Instant}
    {serverBackoff : Option Duration}
    (hnext : self.afterResponse state url now serverBackoff = some next)
    {other : String} (hother : other ≠ self.scope url) :
    next other = state other := by
  unfold Throttle.afterResponse at hnext
  split at hnext
  · cases serverBackoff with
    | none => rw [← Option.some.inj hnext]
    | some backoff =>
        obtain ⟨target, _, rfl⟩ := Throttle.backOff_eq_some_iff.mp hnext
        exact Function.update_of_ne hother _ _
  · rw [← Option.some.inj hnext]

/-- Whatever is signalled is backed off for. -/
theorem Throttle.atLeast_of_signals (hsf : sf.FollowsRfc9651 accepts)
    {throttle : Throttle Url} (hhonors : throttle.honorServerSignals = true)
    {state next : ThrottleState} {url : Url} {now : Instant}
    {headers : ResponseHeaders} {d : Duration}
    (hsignal : headers.Signals accepts d)
    (hnext : throttle.processResponse sf state url now headers = some next) :
    next.AtLeast (throttle.scope url)
      (now.nanos + d.nanos + throttle.tolerance.nanos) := by
  obtain ⟨backoff, hbackoff, hnone, hlongest⟩ := serverBackoff_spec hsf headers
  cases backoff with
  | none => exact absurd hsignal (hnone rfl d)
  | some longest =>
      have hle := (Duration.le_def _ _).mp ((hlongest longest rfl).2 d hsignal)
      rw [Throttle.processResponse, if_pos hhonors, hbackoff, Option.bind_some,
        Throttle.afterResponse, if_pos hhonors] at hnext
      obtain ⟨tat, htat, hbound⟩ := ThrottleState.atLeast_backOff hnext
      exact ⟨tat, htat, by omega⟩

theorem ThrottleState.AtLeast.processResponse {state next : ThrottleState}
    {scope : String} {nanos : ℤ} (hleast : state.AtLeast scope nanos)
    {throttle : Throttle Url} {url : Url} {now : Instant}
    {headers : ResponseHeaders}
    (hnext : throttle.processResponse sf state url now headers = some next) :
    next.AtLeast scope nanos := by
  unfold Throttle.processResponse at hnext
  split at hnext
  · obtain ⟨backoff, _, hafter⟩ := Option.bind_eq_some_iff.mp hnext
    exact hleast.afterResponse hafter
  · exact Option.some.inj hnext ▸ hleast

theorem Throttle.handles_of_isSome {self : Throttle Url}
    {state : ThrottleState} {url : Url} {now : Instant}
    {headers : ResponseHeaders}
    (h : (self.processResponse sf state url now headers).isSome) :
    self.Handles sf state (.response url now headers) := by
  obtain ⟨next, hnext⟩ := Option.isSome_iff_exists.mp h
  refine ⟨next, hnext, ?_⟩
  unfold Throttle.processResponse at hnext
  split at hnext
  next hhonor =>
    obtain ⟨backoff, hread, hafter⟩ := Option.bind_eq_some_iff.mp hnext
    refine ⟨?_, ?_, fun other => Throttle.afterResponse_other hafter⟩
    · intro tat htat
      have hleast : state.AtLeast (self.scope url) tat.nanos :=
        ⟨tat, htat, le_rfl⟩
      exact hleast.afterResponse hafter
    · intro _ longest hlongest
      rw [hread, Option.some.injEq] at hlongest
      rw [hlongest, Throttle.afterResponse, if_pos hhonor] at hafter
      exact ThrottleState.atLeast_backOff hafter
  next hhonor =>
    rw [← Option.some.inj hnext]
    exact ⟨fun tat htat => ⟨tat, htat, le_rfl⟩,
      fun htrue => absurd htrue hhonor, fun _ _ => rfl⟩

theorem Throttle.processResponse_isSome_iff {self : Throttle Url}
    {state : ThrottleState} {url : Url} {now : Instant}
    {headers : ResponseHeaders} {backoff : Option Duration}
    (hread : serverBackoff sf headers = some backoff) :
    (self.processResponse sf state url now headers).isSome ↔
      (self.honorServerSignals = true → ∀ longest ∈ backoff,
        now.nanos + longest.nanos + self.tolerance.nanos < instantLimit) := by
  unfold Throttle.processResponse
  split
  next hhonor =>
    rw [hread, Option.bind_some]
    cases backoff with
    | none => simp [Throttle.afterResponse, hhonor]
    | some longest =>
        rw [Throttle.afterResponse, if_pos hhonor, Throttle.backOff_isSome_iff]
        simp [hhonor]
  next hhonor => simp [hhonor]

/-- The longest signal decides for all of them. -/
theorem Throttle.inRange_response_iff (hsf : sf.FollowsRfc9651 accepts)
    {self : Throttle Url} {url : Url} {now : Instant}
    {headers : ResponseHeaders} {backoff : Option Duration}
    (hread : serverBackoff sf headers = some backoff) :
    self.InRange accepts (.response url now headers) ↔
      (self.honorServerSignals = true → ∀ longest ∈ backoff,
        now.nanos + longest.nanos + self.tolerance.nanos < instantLimit) := by
  obtain ⟨_, hspec, hnone, hlongest⟩ := serverBackoff_spec hsf headers
  obtain rfl := Option.some.inj (hread.symm.trans hspec)
  constructor
  · intro hroom hhonor longest hmem
    exact hroom hhonor longest (hlongest longest hmem).1
  · intro hroom hhonor d hd
    cases hbackoff : backoff with
    | none => exact absurd hd (hnone hbackoff d)
    | some longest =>
        have hfits := hroom hhonor longest hbackoff
        have hle := (Duration.le_def _ _).mp
          ((hlongest longest hbackoff).2 d hd)
        omega

theorem Throttle.handles_iff (hsf : sf.FollowsRfc9651 accepts)
    (self : Throttle Url) (state : ThrottleState)
    (call : ThrottleCall Url) :
    self.Handles sf state call ↔ self.InRange accepts call := by
  cases call with
  | request url now => exact Iff.rfl
  | response url now headers =>
      obtain ⟨backoff, hread, _⟩ := serverBackoff_spec hsf headers
      rw [Throttle.inRange_response_iff hsf hread,
        ← Throttle.processResponse_isSome_iff hread]
      constructor
      · rintro ⟨next, hnext, _⟩
        exact Option.isSome_of_mem hnext
      · exact Throttle.handles_of_isSome

/-- All responses of a run are handled exactly if no signal in them leads out
of the range of `Instant`. -/
theorem handlesAll_iff_inRange (hsf : sf.FollowsRfc9651 accepts)
    (self : Throttle Url) (state : ThrottleState)
    (calls : List (ThrottleCall Url)) :
    self.HandlesAll sf state calls ↔
      ∀ call ∈ calls, self.InRange accepts call := by
  induction calls generalizing state with
  | nil => simp [Throttle.HandlesAll]
  | cons call rest ih =>
      rw [Throttle.HandlesAll, self.handles_iff hsf, ih, List.forall_mem_cons]

end

/-- Seconds up to a minute, from both fields, and headers that say nothing. -/
theorem handlesAll_iff_inRange_minute :
    (Throttle.new id (Quota.perSecond 1)).HandlesAll
      (referenceParser Base64.canonical) (fun _ => none)
      [.request "a" (Instant.atSec 0),
        .response "a" (Instant.atSec 1)
          ⟨some " +10\t".toList, [some "\"a\";r=0;t=60".toList, none]⟩,
        .response "b" (Instant.atSec 2)
          ⟨some "soon".toList, [some "(\"a\";r=0".toList]⟩] := by
  have hsf := referenceParser_followsRfc9651 Base64.canonical
  rw [handlesAll_iff_inRange hsf]
  have hminute : serverBackoff (referenceParser Base64.canonical)
      ⟨some " +10\t".toList, [some "\"a\";r=0;t=60".toList, none]⟩ =
        some (some (Duration.fromSecs 60)) := by decide +kernel
  have hnone : serverBackoff (referenceParser Base64.canonical)
      ⟨some "soon".toList, [some "(\"a\";r=0".toList]⟩ = some none := by
    decide +kernel
  simp only [List.forall_mem_cons, Throttle.inRange_response_iff hsf hminute,
    Throttle.inRange_response_iff hsf hnone]
  refine ⟨trivial, fun _ longest hlongest => ?_, by simp, by simp⟩
  obtain rfl := Option.some.inj hlongest
  decide +kernel

/-- A server may ask for more seconds than an `Instant` has. -/
theorem response_panics_throttle :
    ¬ ∀ (quota : Quota) (calls : List (ThrottleCall String)),
      (Throttle.new id quota).HandlesAll (referenceParser Base64.canonical)
        (fun _ => none) calls := by
  intro hclaim
  have hpanic : ((Throttle.new id (Quota.perSecond 1)).processResponse
      (referenceParser Base64.canonical) (fun _ => none) "a"
      (Instant.atSec 0)
      ⟨some "18446744073709551615".toList, []⟩).isSome = false := by
    decide +kernel
  obtain ⟨⟨next, hnext, _⟩, _⟩ := hclaim (Quota.perSecond 1)
    [.response "a" (Instant.atSec 0)
      ⟨some "18446744073709551615".toList, []⟩]
  rw [hnext] at hpanic
  simp at hpanic

end TrilliumRatelimit
