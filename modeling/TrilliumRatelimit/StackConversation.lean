import TrilliumRatelimit.Cooperation
import TrilliumRatelimit.StackStores
import TrilliumRatelimit.TightWaits

/-!
# A throttled client of a stack

One client sends requests through a stack of limiters, the next only when the
response before it was processed.  Any of the limiters may take the last token
of a bucket, and then says so in its line of the response, with how long the
next token takes.  The client waits for the longest of them.  As every line
can be read and no wait is rounded down, no request is ever denied, whatever
the messages take, and whichever buckets the caches drop.
-/

namespace TrilliumRatelimit

open StructuredField Transitions

/-- A client and the stack it talks to.  `offset` is how far the server's
clock is ahead of the client's. -/
structure StackPairing (n : ℕ) (Request Url : Type*) where
  stages : Fin n → Stage Request
  overflowChecks : Bool
  throttle : Throttle Url
  scope : String
  offset : ℤ

/-- Both states, and the responses so far.  There is none to a request that
made a limiter panic. -/
structure Dialogue {n : ℕ} {Request : Type*} (stages : Fin n → Stage Request)
    where
  client : ThrottleState
  stores : StackStores stages
  responses : List (Option (Conn Request))

/-- A request and its response: when it is claimed and the response processed
by the client's clock, and what it meets when by the server's clock. -/
structure RoundTrip {n : ℕ} {Request : Type*} (stages : Fin n → Stage Request)
    (Url : Type*) where
  url : Url
  request : Request
  claimed : Instant
  met : StackStores stages
  arrived : Fin n → Instant
  draw : Fin n → UInt64
  processed : Instant

section

variable {n : ℕ} {Request Url : Type*}

def StackPairing.start (self : StackPairing n Request Url) :
    Dialogue self.stages where
  client := fun _ => none
  stores := fun i => Store.new _ (self.stages i).limiter.quota
  responses := []

/-- When the claimed request departs. -/
def StackPairing.departs (self : StackPairing n Request Url)
    (state : Dialogue self.stages) (trip : RoundTrip self.stages Url) :
    Instant :=
  (self.throttle.slot state.client ⟨self.scope, trip.claimed⟩).departs

/-- `none` where an instant of the client overflows. -/
def StackPairing.step (self : StackPairing n Request Url) (sf : SfParser)
    (encode : List UInt8 → Text) (state : Dialogue self.stages)
    (trip : RoundTrip self.stages Url) : Option (Dialogue self.stages) :=
  let client := (self.throttle.run state.client trip.url trip.claimed).2
  let (stores, response) := runThrough self.stages encode
    self.overflowChecks trip.arrived trip.draw (List.finRange n) trip.met
    (Conn.new trip.request)
  let client := match response with
    | none => some client
    | some conn => self.throttle.processResponse sf client trip.url
        trip.processed conn.responseHeaders
  client.map fun client =>
    ⟨client, stores, state.responses ++ [response]⟩

/-- The request is one of this client to its buckets, no message arrives
before it is sent, and no one else has used the buckets, but any of them may
be gone. -/
structure StackPairing.Fits (pairing : StackPairing n Request Url)
    (state : Dialogue pairing.stages) (trip : RoundTrip pairing.stages Url) :
    Prop where
  scope : pairing.throttle.scope trip.url = pairing.scope
  serves : ∀ i, (pairing.stages i).Serves trip.request
  departs : ∀ i, (pairing.departs state trip).nanos + pairing.offset ≤
    (trip.arrived i).nanos
  processed : ∀ i,
    (trip.arrived i).nanos ≤ trip.processed.nanos + pairing.offset
  quota : ∀ i, (trip.met i).quota = (state.stores i).quota
  entries : ∀ i, ∀ key ∈ (pairing.stages i).owned,
    (trip.met i).entries key = (state.stores i).entries key ∨
      (trip.met i).entries key = none

/-- A request that got a response without being rejected. -/
def Passed (response : Option (Conn Request)) : Prop :=
  ∃ conn, response = some conn ∧ conn.halted = false

end

/-! ## What the client reads -/

section

variable {Request Url : Type*} {sf : SfParser} {accepts : Text → Bool}

/-- Lines that are limits in order signal the reset of each exhausted one. -/
theorem Conn.signals_of_limits {conn : Conn Request} {limits : List RateLimit}
    (hlines : conn.limitLines = limits.map RateLimit.display)
    (hcanonical : ∀ limit ∈ limits, limit.Canonical accepts)
    {limit : RateLimit} (hmem : limit ∈ limits)
    (hremaining : limit.remaining = 0) {reset : Duration}
    (hreset : limit.reset = some reset) :
    conn.responseHeaders.Signals accepts reset := by
  have hline : ∀ limit ∈ limits,
      list accepts limit.display = some [limit.member] := by
    intro limit hmem
    have hlist := list_join (.cons (hcanonical limit hmem).spells .nil)
    rwa [joinMembers_singleton] at hlist
  have hheader : conn.responseHeaders.rateLimit =
      limits.map fun limit => some limit.display := by
    simp [Conn.responseHeaders, hlines]
  refine .reset ?_ ?_ hremaining hreset
  · intro line hsome
    rw [hheader] at hsome
    obtain ⟨other, hother, hdisplay⟩ := List.mem_map.mp hsome
    rw [← Option.some.inj hdisplay, hline other hother, Option.isSome_some]
  · refine ⟨limit.display, [limit.member], limit.member, ?_, hline limit hmem,
      List.mem_singleton_self _, (hcanonical limit hmem).read⟩
    rw [hheader]
    exact List.mem_map_of_mem hmem

end

/-! ## What the client knows of a bucket -/

section

variable {n : ℕ} {Request Url : Type*} {sf : SfParser}
  {accepts : Text → Bool} {encode : List UInt8 → Text}

/-- There is a token in the bucket, or the client holds its next request back
until there is one. -/
structure StackPairing.Expects (pairing : StackPairing n Request Url)
    (client : ThrottleState) (quota : Quota) (entry : Entry) : Prop where
  le_cap : entry.bucket.tokens ≤ quota.cap
  whole : quota.WholeWait entry.bucket.tokens
  token : 1 ≤ entry.bucket.tokens ∨ ∃ wait : ℕ,
    quota.retryWait entry.bucket.tokens ≤ wait ∧
      client.AtLeast pairing.scope (entry.bucket.lastUpdate.nanos -
        pairing.offset + wait + pairing.throttle.tolerance.nanos)

theorem StackPairing.Expects.mono {self : StackPairing n Request Url}
    {client next : ThrottleState} {quota : Quota} {entry : Entry}
    (h : self.Expects client quota entry)
    (hmono : ∀ nanos, client.AtLeast self.scope nanos →
      next.AtLeast self.scope nanos) :
    self.Expects next quota entry := by
  obtain ⟨hcap, hwhole, htoken⟩ := h
  refine ⟨hcap, hwhole, htoken.imp_right ?_⟩
  rintro ⟨wait, hwait, hleast⟩
  exact ⟨wait, hwait, hmono _ hleast⟩

theorem Store.hasToken_new {K : Type*} {quota : Quota}
    (hburst : quota.burst ≠ 0) {store : Store K} {key : K} {now : Instant}
    (hfound : store.found key now = Bucket.new now quota) :
    store.HasToken quota key now := by
  constructor
  · rw [hfound, Bucket.new_levelAt]
    exact quota.one_le_cap hburst
  · rw [hfound, Bucket.new_levelAt]
    exact quota.wholeWait_cap

/-- Whoever departs when the client lets it finds a token. -/
theorem StackPairing.hasToken {self : StackPairing n Request Url}
    {client : ThrottleState} {quota : Quota} (hcount : quota.count ≠ 0)
    (hburst : quota.burst ≠ 0) (hwindow : quota.window.nanos ≠ 0)
    {K : Type*} {store : Store K} (hquota : store.quota = quota) {key : K}
    (hexpects : ∀ entry, store.entries key = some entry →
      self.Expects client quota entry) {claimed now : Instant}
    (hdeparts : (self.throttle.slot client ⟨self.scope, claimed⟩).departs.nanos
      + self.offset ≤ now.nanos) :
    store.HasToken quota key now := by
  have hnew : store.lookup key now = none → store.HasToken quota key now := by
    intro hlookup
    apply Store.hasToken_new hburst
    rw [Store.found, hlookup, hquota, Option.getD_none]
  cases hentry : store.entries key with
  | none => exact hnew (by rw [Store.lookup, hentry])
  | some entry =>
      by_cases hexpired : entry.expired store.quota now = true
      · exact hnew (by simp [Store.lookup, hentry, hexpired])
      · have hfound : store.found key now = entry.bucket := by
          simp [Store.found, Store.lookup, hentry, hexpired]
        obtain ⟨hcap, hwhole, htoken⟩ := hexpects entry hentry
        refine ⟨?_, ?_⟩
        · rw [hfound]
          rcases htoken with hone | ⟨wait, hwait, hleast⟩
          · exact hone.trans (Bucket.tokens_le_levelAt hcap _ now)
          · have hslot := Throttle.slot_departs_of_atLeast hleast claimed
            have hlater : entry.bucket.lastUpdate ≤ now :=
              (Instant.le_def _ _).mpr (by omega)
            refine (Bucket.le_levelAt_iff hcount hwindow
              (quota.one_le_cap hburst) hlater).mpr (hwait.trans ?_)
            exact_mod_cast (by omega : (wait : ℤ) ≤
              now.nanos - entry.bucket.lastUpdate.nanos)
        · rw [hfound]
          exact Bucket.wholeWait_levelAt hcount hwindow hwhole now

/-- What was told with a response that is processed in time. -/
theorem StackPairing.expects_of_told {self : StackPairing n Request Url}
    (hsf : sf.FollowsRfc9651 accepts)
    (hhonors : self.throttle.honorServerSignals = true)
    {conn : Conn Request} {limits : List RateLimit}
    (hlines : conn.limitLines = limits.map RateLimit.display)
    (hcanonical : ∀ limit ∈ limits, limit.Canonical accepts)
    {client next : ThrottleState} {url : Url} {processed now : Instant}
    (hscope : self.throttle.scope url = self.scope)
    (hprocess : self.throttle.processResponse sf client url processed
      conn.responseHeaders = some next)
    (hnow : now.nanos ≤ processed.nanos + self.offset)
    {quota : Quota} {entry : Entry} (h : entry.Told quota limits now) :
    self.Expects next quota entry := by
  obtain ⟨hupdate, hcap, hwhole, limit, hmem, htells⟩ := h
  refine ⟨hcap, hwhole, ?_⟩
  rcases le_or_gt 1 entry.bucket.tokens with hone | hlt
  · exact .inl hone
  · obtain ⟨hremaining, reset, hreset, hwait⟩ := htells hlt
    obtain ⟨tat, htat, hbound⟩ := Throttle.atLeast_of_signals hsf hhonors
      (Conn.signals_of_limits hlines hcanonical hmem hremaining hreset)
      hprocess
    rw [hscope] at htat
    refine .inr ⟨reset.nanos, hwait, tat, htat, ?_⟩
    rw [hupdate]
    omega

/-! ## Every state of a conversation -/

structure StackPairing.Cooperates (pairing : StackPairing n Request Url)
    (state : Dialogue pairing.stages) : Prop where
  quota : ∀ i, (state.stores i).quota = (pairing.stages i).limiter.quota
  expects : ∀ i, ∀ key ∈ (pairing.stages i).owned, ∀ entry,
    (state.stores i).entries key = some entry →
      pairing.Expects state.client (pairing.stages i).limiter.quota entry
  passed : ∀ response ∈ state.responses, Passed response

theorem StackPairing.cooperates_start (self : StackPairing n Request Url) :
    self.Cooperates self.start where
  quota := fun _ => rfl
  expects := by simp [StackPairing.start, Store.new]
  passed := by simp [StackPairing.start]

theorem StackPairing.Cooperates.step {self : StackPairing n Request Url}
    (hsf : sf.FollowsRfc9651 accepts) (hencode : Encodes accepts encode)
    (hhonors : self.throttle.honorServerSignals = true)
    (hreadable : ∀ i, (self.stages i).limiter.Readable)
    {state next : Dialogue self.stages} {trip : RoundTrip self.stages Url}
    (hstate : self.Cooperates state) (hfits : self.Fits state trip)
    (h : self.step sf encode state trip = some next) :
    self.Cooperates next := by
  have hmet : ∀ i, ∀ key ∈ (self.stages i).owned, ∀ entry,
      (trip.met i).entries key = some entry →
        self.Expects state.client (self.stages i).limiter.quota entry := by
    intro i key howned entry hentry
    rcases hfits.entries i key howned with heq | hnone
    · exact hstate.expects i key howned entry (heq ▸ hentry)
    · simp [hnone] at hentry
  have hquota : ∀ i,
      (trip.met i).quota = (self.stages i).limiter.quota :=
    fun i => (hfits.quota i).trans (hstate.quota i)
  have hhalted : (Conn.new trip.request).halted = false := rfl
  obtain ⟨after, conn, limits, hrun, hcontinues, hcanonical, hleft⟩ :=
    runThrough_of_tokens hencode hreadable self.overflowChecks trip.draw
      (List.nodup_finRange n) hquota hhalted hfits.serves
      fun i _ key howned => StackPairing.hasToken (hreadable i).count
        (hreadable i).burst (Duration.nanos_pos (hreadable i).window).ne'
        (hquota i) (hmet i key howned) (hfits.departs i)
  have hlines : conn.limitLines = limits.map RateLimit.display := by
    simpa [Conn.new] using hcontinues.limitLines
  simp only [StackPairing.step, hrun, Option.map_eq_some_iff] at h
  obtain ⟨client, hprocess, rfl⟩ := h
  refine ⟨?_, ?_, ?_⟩
  · exact fun i => (hleft i).1.trans (hquota i)
  · intro i key howned entry hentry
    rcases (hleft i).2 key with hkept | ⟨told, htold, hentry'⟩
    · refine (hmet i key howned entry (hkept ▸ hentry)).mono ?_
      intro nanos hleast
      exact (hleast.claim self.throttle _ _).processResponse hprocess
    · obtain rfl := Option.some.inj (hentry.symm.trans htold)
      exact StackPairing.expects_of_told hsf hhonors hlines hcanonical
        hfits.scope hprocess (hfits.processed i) hentry'
  · intro response hmem
    rcases List.mem_append.mp hmem with hmem | hmem
    · exact hstate.passed response hmem
    · obtain rfl := List.mem_singleton.mp hmem
      exact ⟨conn, rfl, hcontinues.halted⟩

/-- No run of the conversation has a request denied, or one that makes a
limiter panic. -/
theorem readable_stack_never_denies (hsf : sf.FollowsRfc9651 accepts)
    (hencode : Encodes accepts encode)
    (self : StackPairing n Request Url)
    (hhonors : self.throttle.honorServerSignals = true)
    (hreadable : ∀ i, (self.stages i).limiter.Readable)
    {state : Dialogue self.stages}
    (hreach : Reachable (self.step sf encode) self.Fits self.start state) :
    ∀ response ∈ state.responses, Passed response :=
  (hreach.invariant self.cooperates_start fun hstate hfits hstep =>
    hstate.step hsf hencode hhonors hreadable hfits hstep).passed

/-- Everything of this trip happens when the request departs. -/
def StackPairing.promptTrip (self : StackPairing n Request Url)
    (state : Dialogue self.stages) (url : Url) (request : Request)
    (claimed : Instant) : RoundTrip self.stages Url :=
  let departs :=
    (self.throttle.slot state.client ⟨self.scope, claimed⟩).departs
  { url, request, claimed, met := state.stores, arrived := fun _ => departs,
    draw := fun _ => 0, processed := departs }

theorem StackPairing.fits_promptTrip {self : StackPairing n Request Url}
    (hoffset : self.offset = 0) {url : Url}
    (hscope : self.throttle.scope url = self.scope) {request : Request}
    (hserves : ∀ i, (self.stages i).Serves request)
    (state : Dialogue self.stages) (claimed : Instant) :
    self.Fits state (self.promptTrip state url request claimed) where
  scope := hscope
  serves := hserves
  departs := by
    intro i
    rw [hoffset, add_zero]
    rfl
  processed := by
    intro i
    rw [hoffset, add_zero]
    rfl
  quota := fun _ => rfl
  entries := fun _ _ _ => .inl rfl

end

/-- A limiter with one token a second behind one with two a minute. -/
def twoStages : StackPairing 2 Unit Unit where
  stages := ![⟨Unit, inferInstance, oneKeyLimiter (Quota.perMinute 2),
      Set.univ⟩,
    ⟨Unit, inferInstance,
      (oneKeyLimiter (Quota.perSecond 1)).withPolicyName "second".toList,
      Set.univ⟩]
  overflowChecks := true
  throttle := Throttle.new (fun _ => "origin") (Quota.perSecond 10)
  scope := "origin"
  offset := 0

/-- Three requests that are claimed at once. -/
theorem readable_stack_never_denies_two :
    ∃ state, Reachable (twoStages.step (referenceParser Base64.canonical)
        Base64.encode) twoStages.Fits twoStages.start state ∧
      state.responses.length = 3 ∧
      ∀ response ∈ state.responses, Passed response := by
  have hsf := referenceParser_followsRfc9651 Base64.canonical
  let next (state : Dialogue twoStages.stages) :=
    twoStages.step (referenceParser Base64.canonical) Base64.encode state
      (twoStages.promptTrip state () () (Instant.atSec 0))
  have hfits (state : Dialogue twoStages.stages) : twoStages.Fits state
      (twoStages.promptTrip state () () (Instant.atSec 0)) := by
    refine StackPairing.fits_promptTrip rfl rfl ?_ state _
    intro i conn _
    fin_cases i
    · exact .inr ⟨some (), trivial, rfl⟩
    · exact .inr ⟨some (), trivial, rfl⟩
  have hthree : ((((next twoStages.start).bind next).bind next).map
      fun state => state.responses.length) = some 3 := by decide +kernel
  obtain ⟨third, hthird, hlength⟩ := Option.map_eq_some_iff.mp hthree
  obtain ⟨second, hsecond, hthird⟩ := Option.bind_eq_some_iff.mp hthird
  obtain ⟨first, hfirst, hsecond⟩ := Option.bind_eq_some_iff.mp hsecond
  have hreach : Reachable
      (twoStages.step (referenceParser Base64.canonical) Base64.encode)
      twoStages.Fits twoStages.start third :=
    ((Reachable.refl.tail (hfits _) hfirst).tail (hfits _) hsecond).tail
      (hfits _) hthird
  refine ⟨third, hreach, hlength, ?_⟩
  refine readable_stack_never_denies hsf base64_encodes twoStages rfl ?_
    hreach
  intro i
  fin_cases i
  · exact ⟨by decide +kernel, by decide, by decide, by decide, by decide,
      by decide +kernel, by decide +kernel⟩
  · exact ⟨by decide +kernel, by decide, by decide, by decide, by decide,
      by decide +kernel, by decide +kernel⟩

end TrilliumRatelimit
