import TrilliumRatelimit.ThrottleScopes
import TrilliumRatelimit.ThrottleSlowdown

/-!
# Servers only slow a client down

Two runs of the same requests.  In the second the servers may answer later,
ask for longer waits, name more limits or send more responses, with the limits
in any order and spread over lines in any way.  A response keeps its place
among the requests, only the clock reading it is processed at may grow.  No
request of the second run sleeps any shorter.
-/

namespace TrilliumRatelimit

open StructuredField

/-- The members of the lines that are text. -/
def membersIn (accepts : Text → Bool) (lines : List (Option Text)) :
    List Member :=
  lines.flatMap fun line => (line.bind (list accepts)).getD []

/-- The other response has at least as long a `Retry-After`, if the first has
any, and at least its limits, if those can be read. -/
structure ResponseHeaders.AsksNoMore (accepts : Text → Bool)
    (headers more : ResponseHeaders) : Prop where
  retryAfter : ∀ value secs, headers.retryAfter = some value →
    DeltaSeconds value secs → ∃ value' secs',
      more.retryAfter = some value' ∧ DeltaSeconds value' secs' ∧
        secs ≤ secs'
  limits : WellFormed accepts headers.rateLimit →
    WellFormed accepts more.rateLimit ∧
      membersIn accepts headers.rateLimit ⊆ membersIn accepts more.rateLimit

/-- The requests are the same, and what the servers say is no less and no
earlier. -/
inductive Slowed {Url : Type*} (accepts : Text → Bool) :
    List (ThrottleCall Url) → List (ThrottleCall Url) → Prop
  | nil : Slowed accepts [] []
  | request {calls slowed} (url : Url) (now : Instant) :
      Slowed accepts calls slowed →
        Slowed accepts (.request url now :: calls)
          (.request url now :: slowed)
  | response {calls slowed} (url : Url) {now later : Instant}
      {headers more : ResponseHeaders} :
      now ≤ later → headers.AsksNoMore accepts more →
      Slowed accepts calls slowed →
        Slowed accepts (.response url now headers :: calls)
          (.response url later more :: slowed)
  | extra {calls slowed} (url : Url) (now : Instant)
      (headers : ResponseHeaders) :
      Slowed accepts calls slowed →
        Slowed accepts calls (.response url now headers :: slowed)

section

variable {sf : SfParser} {accepts : Text → Bool}

theorem mem_membersIn_iff {lines : List (Option Text)} {member : Member} :
    member ∈ membersIn accepts lines ↔ ∃ line members, some line ∈ lines ∧
      list accepts line = some members ∧ member ∈ members := by
  rw [membersIn, List.mem_flatMap]
  constructor
  · rintro ⟨line, hline, hmem⟩
    cases line with
    | none => simp at hmem
    | some line =>
        cases hlist : list accepts line with
        | none => simp [hlist] at hmem
        | some members =>
            rw [Option.bind_some, hlist, Option.getD_some] at hmem
            exact ⟨line, members, hline, hlist, hmem⟩
  · rintro ⟨line, members, hline, hlist, hmem⟩
    refine ⟨some line, hline, ?_⟩
    rw [Option.bind_some, hlist, Option.getD_some]
    exact hmem

theorem ResponseHeaders.AsksNoMore.signals {headers more : ResponseHeaders}
    (h : headers.AsksNoMore accepts more) {d : Duration}
    (hsignal : headers.Signals accepts d) :
    ∃ d', more.Signals accepts d' ∧ d ≤ d' := by
  cases hsignal with
  | @retryAfter value secs hvalue hsecs =>
      obtain ⟨value', secs', hvalue', hsecs', hle⟩ :=
        h.retryAfter value secs hvalue hsecs
      refine ⟨_, .retryAfter hvalue' hsecs', ?_⟩
      rw [Duration.le_def, Duration.fromSecs_nanos, Duration.fromSecs_nanos]
      exact Nat.mul_le_mul_right _ (UInt64.le_iff_toNat_le.mp hle)
  | @reset limit _ hlines hcarries hremaining hreset =>
      obtain ⟨hmore, hmembers⟩ := h.limits hlines
      obtain ⟨line, members, member, hline, hlist, hmem, hread⟩ := hcarries
      obtain ⟨line', members', hline', hlist', hmem'⟩ :=
        mem_membersIn_iff.mp (hmembers (mem_membersIn_iff.mpr
          ⟨line, members, hline, hlist, hmem⟩))
      have hcarries' : limitReading.Carries accepts more.rateLimit limit :=
        ⟨line', members', member, hline', hlist', hmem', hread⟩
      exact ⟨d, .reset hmore hcarries' hremaining hreset, le_rfl⟩

variable {Url : Type*} {self : Throttle Url} {state slower : ThrottleState}

/-! ## One call -/

/-- A time that a response leaves is the one it found, or where a signal of it
ends. -/
theorem Throttle.call_response_cases (hsf : sf.FollowsRfc9651 accepts)
    {url : Url} {now : Instant} {headers : ResponseHeaders} {scope : String}
    {tat : Instant}
    (h : self.call sf state (.response url now headers) scope = some tat) :
    state scope = some tat ∨
      (self.honorServerSignals = true ∧ scope = self.scope url ∧
        ∃ d, headers.Signals accepts d ∧
          tat.nanos = now.nanos + d.nanos + self.tolerance.nanos) := by
  rw [Throttle.call] at h
  cases hnext : self.processResponse sf state url now headers with
  | none =>
      rw [hnext] at h
      exact .inl h
  | some next =>
      rw [hnext, Option.getD_some] at h
      unfold Throttle.processResponse at hnext
      split at hnext
      next hhonors =>
        obtain ⟨backoff, hread, hafter⟩ := Option.bind_eq_some_iff.mp hnext
        obtain ⟨_, hspec, _, hlongest⟩ := serverBackoff_spec hsf headers
        obtain rfl := Option.some.inj (hread.symm.trans hspec)
        simp only [Throttle.afterResponse, hhonors, if_true] at hafter
        cases backoff with
        | none =>
            rw [← Option.some.inj hafter] at h
            exact .inl h
        | some longest =>
            obtain ⟨target, htarget, rfl⟩ :=
              Throttle.backOff_eq_some_iff.mp hafter
            have hsignal := (hlongest longest rfl).1
            by_cases hscope : scope = self.scope url
            · rw [hscope, Function.update_self, Option.some.injEq] at h
              rcases max_choice ((state (self.scope url)).getD target) target
                with hkept | hmoved
              · cases hfound : state (self.scope url) with
                | none =>
                    rw [hfound, Option.getD_none, max_self] at h
                    exact .inr ⟨hhonors, hscope, longest, hsignal,
                      h ▸ htarget⟩
                | some found =>
                    rw [hkept, hfound, Option.getD_some] at h
                    exact .inl (by rw [hscope, hfound, h])
              · rw [hmoved] at h
                exact .inr ⟨hhonors, hscope, longest, hsignal, h ▸ htarget⟩
            · rw [Function.update_of_ne hscope] at h
              exact .inl h
      next hhonors =>
        rw [← Option.some.inj hnext] at h
        exact .inl h

theorem ThrottleState.LeSlower.extra (hle : state.LeSlower slower)
    (url : Url) (now : Instant) (headers : ResponseHeaders) :
    state.LeSlower (self.call sf slower (.response url now headers)) := by
  intro scope tat htat
  have hleast := hle scope tat htat
  rw [Throttle.call]
  cases hnext : self.processResponse sf slower url now headers with
  | none => exact hleast
  | some next => exact hleast.processResponse hnext

theorem ThrottleState.LeSlower.response (hsf : sf.FollowsRfc9651 accepts)
    (hle : state.LeSlower slower) {url : Url} {now later : Instant}
    {headers more : ResponseHeaders} (hlater : now ≤ later)
    (hmore : headers.AsksNoMore accepts more)
    (hrange : self.InRange accepts (.response url later more)) :
    ThrottleState.LeSlower (self.call sf state (.response url now headers))
      (self.call sf slower (.response url later more)) := by
  intro scope tat htat
  rcases Throttle.call_response_cases hsf htat with
    hkept | ⟨hhonors, rfl, d, hsignal, hends⟩
  · exact hle.extra url later more scope tat hkept
  · obtain ⟨d', hsignal', hd⟩ := hmore.signals hsignal
    obtain ⟨next, hnext, _⟩ := (self.handles_iff hsf slower _).mpr hrange
    obtain ⟨found, hfound, hbound⟩ :=
      Throttle.atLeast_of_signals hsf hhonors hsignal' hnext
    rw [Duration.le_def] at hd
    rw [Instant.le_def] at hlater
    refine ⟨found, ?_, by omega⟩
    rw [Throttle.call, hnext, Option.getD_some]
    exact hfound

/-- Where less time is stored, a request sleeps no longer. -/
theorem ThrottleState.LeSlower.delay_le (hle : state.LeSlower slower)
    (url : Url) (now : Instant) :
    (self.run state url now).1 ≤ (self.run slower url now).1 := by
  let slotOf (state : ThrottleState) :=
    self.slot state ⟨self.scope url, now⟩
  have hdeparts : (slotOf state).departs ≤ (slotOf slower).departs :=
    hle.departs_le (self.scope url) now
  rw [Instant.le_def, (slotOf state).departs_eq,
    (slotOf slower).departs_eq] at hdeparts
  have hdelay : (slotOf state).delay.nanos ≤ (slotOf slower).delay.nanos :=
    Int.ofNat_le.mp (le_of_add_le_add_left hdeparts)
  exact (Duration.le_def _ _).mpr hdelay

/-! ## Runs -/

/-- The time of every claim's scope can be moved on. -/
def Throttle.claimsFit (self : Throttle Url) (sf : SfParser) :
    ThrottleState → List (ThrottleCall Url) → Bool
  | _, [] => true
  | state, .request url now :: rest =>
      self.opFits state (.claim (self.scope url) now) &&
        self.claimsFit sf (self.call sf state (.request url now)) rest
  | state, .response url now headers :: rest =>
      self.claimsFit sf (self.call sf state (.response url now headers)) rest

theorem Slowed.delays_le (hsf : sf.FollowsRfc9651 accepts)
    {calls slowed : List (ThrottleCall Url)} (h : Slowed accepts calls slowed)
    (scope : String) (hle : state.LeSlower slower)
    (hrange : ∀ call ∈ slowed, self.InRange accepts call)
    (hfit : self.claimsFit sf slower slowed = true) :
    List.Forall₂ (· ≤ ·) (self.delays sf scope state calls)
      (self.delays sf scope slower slowed) := by
  induction h generalizing state slower with
  | nil => exact .nil
  | request url now _ ih =>
      obtain ⟨_, hrange⟩ := List.forall_mem_cons.mp hrange
      simp only [Throttle.claimsFit, Bool.and_eq_true] at hfit
      have hrest := ih (hle.claim hfit.1) hrange hfit.2
      simp only [Throttle.delays]
      split
      · exact .cons (hle.delay_le url now) hrest
      · exact hrest
  | response url hlater hmore _ ih =>
      obtain ⟨hfirst, hrange⟩ := List.forall_mem_cons.mp hrange
      exact ih (hle.response hsf hlater hmore hfirst) hrange hfit
  | extra url now headers _ ih =>
      obtain ⟨_, hrange⟩ := List.forall_mem_cons.mp hrange
      exact ih (hle.extra url now headers) hrange hfit

/-- Whatever the servers say in addition, and however late, no request sleeps
any shorter for it. -/
theorem responses_only_delay (hsf : sf.FollowsRfc9651 accepts)
    (self : Throttle Url) (scope : String)
    {calls slowed : List (ThrottleCall Url)} (h : Slowed accepts calls slowed)
    (hrange : ∀ call ∈ slowed, self.InRange accepts call)
    (hfit : self.claimsFit sf (fun _ => none) slowed = true) :
    List.Forall₂ (· ≤ ·) (self.delays sf scope (fun _ => none) calls)
      (self.delays sf scope (fun _ => none) slowed) :=
  h.delays_le hsf scope (.refl _) hrange hfit

end

/-- The limits of a response in another order and over two lines, with a line
between them that is no text, and a longer `Retry-After`. -/
theorem responses_only_delay_reordered :
    let sf := referenceParser Base64.canonical
    let throttle := Throttle.new id (Quota.perSecond 1)
    let headers : ResponseHeaders := ⟨some "5".toList,
      [some "\"a\";r=0;t=7, \"b\";r=1;t=9".toList]⟩
    let more : ResponseHeaders := ⟨some "8".toList,
      [some "\"b\";r=1;t=9".toList, none, some "\"a\";r=0;t=7".toList]⟩
    List.Forall₂ (· ≤ ·)
      (throttle.delays sf "o" (fun _ => none)
        [.request "o" (Instant.atSec 0),
          .response "o" (Instant.atSec 1) headers,
          .request "o" (Instant.atSec 1)])
      (throttle.delays sf "o" (fun _ => none)
        [.request "o" (Instant.atSec 0),
          .response "o" (Instant.atSec 2) more,
          .response "o" (Instant.atSec 1) headers,
          .request "o" (Instant.atSec 1)]) := by
  intro sf throttle headers more
  have hsf := referenceParser_followsRfc9651 Base64.canonical
  have hmore : headers.AsksNoMore Base64.canonical more := by
    refine ⟨?_, fun _ => ⟨?_, by decide +kernel⟩⟩
    · intro value secs hvalue hsecs
      have hfive : parseU64 (trim "5".toList) = some 5 := by decide +kernel
      obtain rfl := Option.some.inj hvalue
      rw [← parseU64_trim_eq_some_iff, hfive] at hsecs
      obtain rfl := Option.some.inj hsecs
      exact ⟨_, 8, rfl, parseU64_trim_eq_some_iff.mp (by decide +kernel),
        by decide⟩
    · intro line hline
      simp only [more, List.mem_cons, List.not_mem_nil, or_false,
        Option.some.injEq, reduceCtorEq, false_or] at hline
      rcases hline with rfl | rfl
      · decide +kernel
      · decide +kernel
  have hread : serverBackoff sf more = some (some (Duration.fromSecs 8)) := by
    decide +kernel
  have hreadFirst :
      serverBackoff sf headers = some (some (Duration.fromSecs 7)) := by
    decide +kernel
  apply responses_only_delay hsf throttle "o"
  · exact .request _ _ (.response _ (by decide) hmore
      (.extra _ _ _ (.request _ _ .nil)))
  · simp only [List.forall_mem_cons, Throttle.inRange_response_iff hsf hread,
      Throttle.inRange_response_iff hsf hreadFirst]
    refine ⟨trivial, fun _ longest hlongest => ?_,
      fun _ longest hlongest => ?_, trivial, by simp⟩
    · obtain rfl := Option.some.inj hlongest
      decide +kernel
    · obtain rfl := Option.some.inj hlongest
      decide +kernel
  · decide +kernel

end TrilliumRatelimit
