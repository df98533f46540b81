import TrilliumRatelimit.Base64
import TrilliumRatelimit.ExactWaits
import TrilliumRatelimit.ServerBackoff
import TrilliumRatelimit.Transitions

/-!
# A throttled client of the limiter

One client sends requests to one partition, the next only when the response
before it was processed.  Client and server have clocks of their own that run
at the same rate; messages take any time, and between two requests the server
may drop the partition's bucket.

Whoever was denied comes back late enough.  Nothing is lost on the way: the
wait is rounded up, written, read and obeyed, and the tolerance a claim may
take off was added to the back-off before.
-/

namespace TrilliumRatelimit

open StructuredField CappedLevel Transitions

/-- What the client reads of a response. -/
def Conn.responseHeaders {Request : Type*} (conn : Conn Request) :
    ResponseHeaders where
  retryAfter := conn.retryAfter
  rateLimit := conn.limitLines.map some

/-- The two parties.  `offset` is how far the server's clock is ahead. -/
structure Pairing (Request K Url : Type*) where
  limiter : RateLimiter Request K
  key : Option K
  throttle : Throttle Url
  scope : String
  offset : ℤ

/-- Both states, when the client may go on, and the replies so far. -/
structure Conversation (K : Type*) where
  client : ThrottleState
  store : Store (Option K)
  readyAt : Option Instant
  replies : List Reply

/-- A request and its response: when it is claimed and the response processed
by the client's clock, and what it meets when by the server's clock. -/
structure Exchange (Request K Url : Type*) where
  url : Url
  claimed : Instant
  conn : Conn Request
  met : Store (Option K)
  arrived : Instant
  draw : UInt64
  processed : Instant

section

variable {Request K Url : Type*} [DecidableEq K]

def Conversation.start (K : Type*) (quota : Quota) : Conversation K where
  client := fun _ => none
  store := Store.new (Option K) quota
  readyAt := none
  replies := []

/-- When the claimed request departs. -/
def Pairing.departs (self : Pairing Request K Url) (state : Conversation K)
    (exchange : Exchange Request K Url) : Instant :=
  (self.throttle.slot state.client ⟨self.scope, exchange.claimed⟩).departs

/-- One request at a time, and no message arrives before it is sent. -/
def Pairing.inOrder (self : Pairing Request K Url) (state : Conversation K)
    (exchange : Exchange Request K Url) : Bool :=
  (state.readyAt.all fun ready => ready ≤ exchange.claimed) &&
    decide ((self.departs state exchange).nanos + self.offset ≤
      exchange.arrived.nanos) &&
    decide (exchange.arrived.nanos ≤ exchange.processed.nanos + self.offset)

/-- No one else has used the partition, but its bucket may be gone. -/
def Pairing.meets (self : Pairing Request K Url) (state : Conversation K)
    (exchange : Exchange Request K Url) : Bool :=
  decide (exchange.met.quota = state.store.quota) &&
    (decide (exchange.met.entries self.key = state.store.entries self.key) ||
      decide (exchange.met.entries self.key = none))

/-- The request is one of this client to this partition. -/
def Pairing.owns (self : Pairing Request K Url)
    (exchange : Exchange Request K Url) : Bool :=
  decide (self.limiter.metering exchange.conn = .metered self.key) &&
    decide (self.throttle.scope exchange.url = self.scope)

/-- `none` where the exchange is none of this conversation, or an instant of
the client overflows. -/
def Pairing.step (self : Pairing Request K Url) (sf : SfParser)
    (encode : List UInt8 → Text) (state : Conversation K)
    (exchange : Exchange Request K Url) : Option (Conversation K) :=
  if self.owns exchange && self.inOrder state exchange &&
      self.meets state exchange then
    let client :=
      (self.throttle.run state.client exchange.url exchange.claimed).2
    let (store, reply) := self.limiter.exactServe encode exchange.met self.key
      exchange.arrived exchange.draw
    let client := match reply.answer with
      | none => some client
      | some answer => self.throttle.processResponse sf client exchange.url
          exchange.processed
          (self.limiter.respond exchange.conn answer).responseHeaders
    client.map fun client =>
      ⟨client, store, some exchange.processed, state.replies ++ [reply]⟩
  else none

/-- A denial, as the client sees it. -/
def Reply.denied (reply : Reply) : Bool :=
  reply.answer.any fun answer => answer.retryAfter.isSome

/-! ## What a denial tells the client -/

theorem deltaSeconds_decimalText (secs : UInt64) :
    DeltaSeconds (decimalText secs) secs := by
  refine ⟨[], [], decimalText secs, [], by simp, by simp, by simp, .inl rfl,
    Nat.toDigits_ne_nil, fun c hc => ?_, Nat.ofDigitChars_ten_toDigits⟩
  exact Nat.isDigit_of_mem_toDigits (by decide) (by decide) hc

/-- Whatever else is in the headers, a number of seconds in `Retry-After` is
backed off for. -/
theorem serverBackoff_of_retryAfter {sf : SfParser} {accepts : Text → Bool}
    (hsf : sf.FollowsRfc9651 accepts) {headers : ResponseHeaders}
    {secs : UInt64} (hretry : headers.retryAfter = some (decimalText secs)) :
    ∃ longest, serverBackoff sf headers = some (some longest) ∧
      Duration.fromSecs secs ≤ longest := by
  obtain ⟨backoff, hbackoff, hnone, hlongest⟩ := serverBackoff_spec hsf headers
  have hsignal : headers.Signals accepts (Duration.fromSecs secs) :=
    .retryAfter hretry (deltaSeconds_decimalText secs)
  cases backoff with
  | none => exact absurd hsignal (hnone rfl _)
  | some longest =>
      exact ⟨longest, hbackoff, (hlongest longest rfl).2 _ hsignal⟩

omit [DecidableEq K] in
theorem Throttle.atLeast_processResponse {sf : SfParser}
    {accepts : Text → Bool} (hsf : sf.FollowsRfc9651 accepts)
    {throttle : Throttle Url} (hhonors : throttle.honorServerSignals = true)
    {state next : ThrottleState} {url : Url} {now : Instant}
    {headers : ResponseHeaders} {secs : UInt64}
    (hretry : headers.retryAfter = some (decimalText secs))
    (hnext : throttle.processResponse sf state url now headers = some next) :
    next.AtLeast (throttle.scope url)
      (now.nanos + (Duration.fromSecs secs).nanos +
        throttle.tolerance.nanos) := by
  obtain ⟨longest, hlongest, hle⟩ := serverBackoff_of_retryAfter hsf hretry
  rw [Throttle.processResponse, if_pos hhonors, hlongest, Option.bind_some,
    Throttle.afterResponse, if_pos hhonors] at hnext
  obtain ⟨tat, htat, hbound⟩ := ThrottleState.atLeast_backOff hnext
  rw [Duration.le_def] at hle
  exact ⟨tat, htat, by omega⟩

omit [DecidableEq K] in
theorem RateLimiter.retryAfter_exactAnswer {self : RateLimiter Request K}
    {pk : Option Text} {level : ℚ} {jitter : Duration} {answer : Answer}
    {secs : UInt64}
    (hanswer : self.exactAnswer pk level jitter = some answer)
    (hretry : answer.retryAfter = some secs) :
    level < 1 ∧ exactSecs jitter (self.quota.retryWait level) = some secs := by
  by_cases hle : 1 ≤ level
  · simp only [RateLimiter.exactAnswer, hle, if_true, Option.bind_eq_bind,
      Option.bind_eq_some_iff, Option.pure_def, Option.some.injEq] at hanswer
    obtain ⟨reset, _, retryAfter, rfl, rfl⟩ := hanswer
    simp at hretry
  · simp only [RateLimiter.exactAnswer, hle, if_false, Option.bind_eq_bind,
      Option.bind_eq_some_iff, Option.map_eq_some_iff, Option.pure_def,
      Option.some.injEq] at hanswer
    obtain ⟨reset, _, _, ⟨found, hfound, rfl⟩, rfl⟩ := hanswer
    rw [RateLimiter.advertise_retryAfter, Option.some.injEq] at hretry
    exact ⟨not_le.mp hle, hretry ▸ hfound⟩

omit [DecidableEq K] in
theorem RateLimiter.respond_retryAfter (self : RateLimiter Request K)
    (conn : Conn Request) {answer : Answer} {secs : UInt64}
    (hretry : answer.retryAfter = some secs) :
    (self.respond conn answer).responseHeaders.retryAfter =
      some (decimalText secs) := by
  simp [RateLimiter.respond, hretry, Conn.reject, Conn.responseHeaders]

/-! ## Denied, and back in time -/

variable {sf : SfParser} {accepts : Text → Bool} {encode : List UInt8 → Text}

theorem Pairing.step_cases {self : Pairing Request K Url}
    {state next : Conversation K} {exchange : Exchange Request K Url}
    (h : self.step sf encode state exchange = some next) :
    self.throttle.scope exchange.url = self.scope ∧
    (self.departs state exchange).nanos + self.offset ≤
      exchange.arrived.nanos ∧
    exchange.arrived.nanos ≤ exchange.processed.nanos + self.offset ∧
    (exchange.met.entries self.key = state.store.entries self.key ∨
      exchange.met.entries self.key = none) ∧
    exchange.met.quota = state.store.quota ∧
    next.store = (self.limiter.exactServe encode exchange.met self.key
      exchange.arrived exchange.draw).1 ∧
    next.replies = state.replies ++ [(self.limiter.exactServe encode
      exchange.met self.key exchange.arrived exchange.draw).2] ∧
    ∀ answer, (self.limiter.exactServe encode exchange.met self.key
        exchange.arrived exchange.draw).2.answer = some answer →
      self.throttle.processResponse sf
        (self.throttle.run state.client exchange.url exchange.claimed).2
        exchange.url exchange.processed
        (self.limiter.respond exchange.conn answer).responseHeaders =
          some next.client := by
  unfold Pairing.step at h
  split at h
  next hguard =>
    simp only [Pairing.owns, Pairing.inOrder, Pairing.meets,
      Bool.and_eq_true, Bool.or_eq_true, decide_eq_true_eq] at hguard
    obtain ⟨⟨⟨_, hscope⟩, ⟨_, hdeparts⟩, hprocessed⟩, hquota, hentries⟩ :=
      hguard
    simp only [Option.map_eq_some_iff] at h
    obtain ⟨client, hclient, rfl⟩ := h
    refine ⟨hscope, hdeparts, hprocessed, hentries, hquota, rfl, rfl, ?_⟩
    intro answer hanswer
    rw [hanswer] at hclient
    exact hclient
  next => simp at h

/-- After a denial: the level then found is stored, and the client holds the
next request back until the exact wait for a token is over. -/
def Pairing.Held (self : Pairing Request K Url) (state : Conversation K) :
    Prop :=
  ∀ reply, state.replies.getLast? = some reply → reply.denied = true →
    ∃ (level : ℚ) (denied : Instant) (wait : ℕ),
      state.store.entries self.key = some ⟨⟨level, denied⟩, denied⟩ ∧
      self.limiter.quota.retryWait level ≤ wait ∧
      state.client.AtLeast self.scope
        (denied.nanos - self.offset + wait + self.throttle.tolerance.nanos)

theorem Pairing.held_step (hsf : sf.FollowsRfc9651 accepts)
    {self : Pairing Request K Url}
    (hhonors : self.throttle.honorServerSignals = true)
    {state next : Conversation K} {exchange : Exchange Request K Url}
    (h : self.step sf encode state exchange = some next) :
    self.Held next := by
  obtain ⟨hscope, _, hprocessed, _, _, hstore, hreplies, hclient⟩ :=
    Pairing.step_cases h
  intro reply hlast hdenied
  rw [hreplies, List.getLast?_concat, Option.some.injEq] at hlast
  subst hlast
  obtain ⟨answer, hanswer, hsome⟩ := (Option.any_eq_true _ _).mp hdenied
  obtain ⟨secs, hretry⟩ := Option.isSome_iff_exists.mp hsome
  obtain ⟨hlt, hsecs⟩ := RateLimiter.retryAfter_exactAnswer hanswer hretry
  have hleast := Throttle.atLeast_processResponse hsf hhonors
    (self.limiter.respond_retryAfter exchange.conn hretry)
    (hclient answer hanswer)
  rw [hscope] at hleast
  obtain ⟨tat, htat, hbound⟩ := hleast
  refine ⟨_, exchange.arrived, (Duration.fromSecs secs).nanos, ?_,
    exactSecs_le hsecs, tat, htat, by omega⟩
  rw [hstore]
  simp only [RateLimiter.exactServe, Function.update_self, leftOf,
    if_neg hlt.not_ge]

omit [DecidableEq K] in
/-- The level a request finds is a token at least, if the bucket it finds is
gone, or was met without a token long enough ago. -/
theorem Store.one_le_found {quota : Quota} (hcount : quota.count ≠ 0)
    (hburst : quota.burst ≠ 0) (hwindow : quota.window.nanos ≠ 0)
    {store : Store K} (hquota : store.quota = quota) {key : K} {level : ℚ}
    {denied now : Instant} {wait : ℕ} (hwait : quota.retryWait level ≤ wait)
    (hnow : denied.nanos + wait ≤ now.nanos)
    (hentry : store.entries key = some ⟨⟨level, denied⟩, denied⟩ ∨
      store.entries key = none) :
    1 ≤ (store.found key now).levelAt quota now := by
  have hcap := quota.one_le_cap hburst
  have hnew : 1 ≤ (Bucket.new now quota).levelAt quota now := by
    rwa [Bucket.new_levelAt]
  unfold Store.found Store.lookup
  rw [hquota]
  rcases hentry with hentry | hentry
  · rw [hentry]
    simp only
    split
    · exact hnew
    · have hle : denied ≤ now := (Instant.le_def _ _).mpr (by omega)
      rw [Option.getD_some, Bucket.le_levelAt_iff hcount hwindow hcap hle]
      refine hwait.trans ?_
      exact_mod_cast (by omega : (wait : ℤ) ≤ now.nanos - denied.nanos)
  · rw [hentry]
    exact hnew

theorem Pairing.admitted_step {self : Pairing Request K Url}
    (hcount : self.limiter.quota.count ≠ 0)
    (hburst : self.limiter.quota.burst ≠ 0)
    (hwindow : self.limiter.quota.window.nanos ≠ 0)
    {state next : Conversation K} {exchange : Exchange Request K Url}
    (hquota : state.store.quota = self.limiter.quota)
    (hheld : self.Held state)
    (h : self.step sf encode state exchange = some next) {reply : Reply}
    (hlast : state.replies.getLast? = some reply)
    (hdenied : reply.denied = true) :
    (self.limiter.exactServe encode exchange.met self.key exchange.arrived
      exchange.draw).2.admitted = true := by
  obtain ⟨_, hdeparts, _, hentries, hmet, _⟩ := Pairing.step_cases h
  obtain ⟨level, denied, wait, hentry, hwait, hleast⟩ :=
    hheld reply hlast hdenied
  have hslot := Throttle.slot_departs_of_atLeast hleast exchange.claimed
  unfold Pairing.departs at hdeparts
  rw [hentry] at hentries
  exact decide_eq_true (Store.one_le_found hcount hburst hwindow
    (hmet.trans hquota) hwait (by omega) hentries)

/-- What holds in every state of a conversation. -/
structure Pairing.Cooperates (pairing : Pairing Request K Url)
    (state : Conversation K) : Prop where
  quota_eq : state.store.quota = pairing.limiter.quota
  held : pairing.Held state
  chain : state.replies.IsChain fun first second =>
    first.denied = true → second.admitted = true

omit [DecidableEq K] in
theorem Pairing.cooperates_start (self : Pairing Request K Url) :
    self.Cooperates (Conversation.start K self.limiter.quota) where
  quota_eq := rfl
  held := by
    intro reply hlast
    simp [Conversation.start] at hlast
  chain := List.IsChain.nil

theorem Pairing.Cooperates.step (hsf : sf.FollowsRfc9651 accepts)
    {self : Pairing Request K Url}
    (hhonors : self.throttle.honorServerSignals = true)
    (hcount : self.limiter.quota.count ≠ 0)
    (hburst : self.limiter.quota.burst ≠ 0)
    (hwindow : self.limiter.quota.window.nanos ≠ 0)
    {state next : Conversation K} {exchange : Exchange Request K Url}
    (hstate : self.Cooperates state)
    (h : self.step sf encode state exchange = some next) :
    self.Cooperates next := by
  obtain ⟨_, _, _, _, hquota, hstore, hreplies, _⟩ := Pairing.step_cases h
  refine ⟨?_, Pairing.held_step hsf hhonors h, ?_⟩
  · rw [hstore]
    exact hquota.trans hstate.quota_eq
  · rw [hreplies, List.isChain_append]
    refine ⟨hstate.chain, List.isChain_singleton _, ?_⟩
    intro first hfirst second hsecond hdenied
    rw [List.head?_cons, Option.mem_some_iff] at hsecond
    subst hsecond
    exact Pairing.admitted_step hcount hburst hwindow hstate.quota_eq
      hstate.held h hfirst hdenied

end

end TrilliumRatelimit
