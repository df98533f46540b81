import TrilliumRatelimit.AdvertisedWaits
import TrilliumRatelimit.CanonicalHeaders
import TrilliumRatelimit.Transitions

/-!
# Stacked limiters

A stack hands a request from limiter to limiter until one of them halts it,
as trillium runs a tuple of handlers.  Every limiter that meters the request
appends a line to either field of the response.
-/

namespace TrilliumRatelimit

open StructuredField CappedLevel Transitions

/-! ## Stores in use -/

inductive StoreEvent (K : Type*) where
  | consume (key : K) (now : Instant) (cost : UInt64)
  | evict (key : K)

def Store.step {K : Type*} [DecidableEq K] (store : Store K) :
    StoreEvent K → Option (Store K)
  | .consume key now cost => some (store.consume key now cost).1
  | .evict key => some (store.evict key)

/-- What is left of a store with this quota after any use. -/
def Store.Used {K : Type*} [DecidableEq K] (quota : Quota)
    (store : Store K) : Prop :=
  Reachable Store.step anyStep (Store.new K quota) store

/-- The quota stays, and no bucket is overdrawn. -/
structure Store.Solvent {K : Type*} (quota : Quota) (store : Store K) :
    Prop where
  quota_eq : store.quota = quota
  nonneg : ∀ {key entry}, store.entries key = some entry →
    0 ≤ entry.bucket.tokens

section

variable {K : Type*} [DecidableEq K] {quota : Quota} {store : Store K}

omit [DecidableEq K] in
theorem Store.Solvent.foundAt_nonneg (h : store.Solvent quota) (key : K)
    (now locked : Instant) : 0 ≤ (store.foundAt key now locked).tokens := by
  unfold Store.foundAt Store.lookup
  cases hentry : store.entries key with
  | none => exact store.quota.cap_nonneg
  | some entry =>
      simp only
      split
      · exact store.quota.cap_nonneg
      · exact h.nonneg hentry

omit [DecidableEq K] in
theorem Store.Solvent.found_nonneg (h : store.Solvent quota) (key : K)
    (now : Instant) : 0 ≤ (store.found key now).tokens :=
  h.foundAt_nonneg key now now

theorem Store.Solvent.consumeAt (h : store.Solvent quota) (key : K)
    (now locked : Instant) (cost : UInt64) :
    (store.consumeAt key now locked cost).1.Solvent quota := by
  refine ⟨(store.consumeAt_quota key now locked cost).trans h.quota_eq, ?_⟩
  intro other entry hentry
  rcases Store.consumeAt_entry hentry with hkept | ⟨_, hbucket⟩
  · exact h.nonneg hkept
  · rw [hbucket]
    exact Bucket.tryConsume_tokens_nonneg (h.foundAt_nonneg other now locked)
      now store.quota cost

theorem Store.Solvent.consume (h : store.Solvent quota) (key : K)
    (now : Instant) (cost : UInt64) :
    (store.consume key now cost).1.Solvent quota :=
  h.consumeAt key now now cost

theorem Store.Solvent.evict (h : store.Solvent quota) (key : K) :
    (store.evict key).Solvent quota :=
  ⟨h.quota_eq, fun hentry => h.nonneg (Store.evict_entry hentry)⟩

theorem Store.Used.solvent (h : store.Used quota) : store.Solvent quota := by
  refine Reachable.invariant h ⟨rfl, by simp [Store.new]⟩ ?_
  intro store event next hsolvent _ hstep
  cases event with
  | consume key now cost =>
      rw [Store.step, Option.some.injEq] at hstep
      exact hstep ▸ hsolvent.consume key now cost
  | evict key =>
      rw [Store.step, Option.some.injEq] at hstep
      exact hstep ▸ hsolvent.evict key

end

/-! ## The stack -/

/-- A limiter of a stack, with what it meets the request with. -/
structure Layer (Request : Type*) where
  Key : Type
  decEq : DecidableEq Key
  limiter : RateLimiter Request Key
  store : Store (Option Key)
  used : store.Used limiter.quota
  now : Instant
  draw : UInt64

attribute [instance] Layer.decEq

variable {Request : Type*}

/-- `encode` writes what a parser takes between the colons of a byte
sequence. -/
structure Encodes (accepts : Text → Bool) (encode : List UInt8 → Text) :
    Prop where
  chars : ∀ bytes, ∀ c ∈ encode bytes, isBase64Char c = true
  accepted : ∀ bytes, accepts (encode bytes) = true

theorem base64_encodes : Encodes Base64.canonical Base64.encode :=
  ⟨Base64.isBase64Char_of_mem_encode, Base64.canonical_encode⟩

def Layer.run (encode : List UInt8 → Text) (overflowChecks : Bool)
    (layer : Layer Request) (conn : Conn Request) : Option (Conn Request) :=
  (layer.limiter.run encode overflowChecks layer.store conn layer.now
    layer.draw).2

def runStack (encode : List UInt8 → Text) (overflowChecks : Bool) :
    List (Layer Request) → Conn Request → Option (Conn Request)
  | [], conn => some conn
  | layer :: rest, conn =>
      if conn.halted then some conn
      else (layer.run encode overflowChecks conn).bind
        (runStack encode overflowChecks rest)

/-- A limiter that is run, and the request as it reaches it. -/
structure Visit (Request : Type*) where
  layer : Layer Request
  conn : Conn Request

def visits (encode : List UInt8 → Text) (overflowChecks : Bool) :
    List (Layer Request) → Conn Request → List (Visit Request)
  | [], _ => []
  | layer :: rest, conn =>
      if conn.halted then []
      else ⟨layer, conn⟩ :: (layer.run encode overflowChecks conn).elim []
        (visits encode overflowChecks rest)

/-- What a limiter enforced on a request it metered. -/
structure Metered where
  name : Text
  quota : Quota
  partitionKey : Option Text
  remaining : UInt64
  deriving DecidableEq

def Visit.metering (visit : Visit Request) : Metering visit.layer.Key :=
  visit.layer.limiter.metering visit.conn

def Visit.metered (encode : List UInt8 → Text) (visit : Visit Request) :
    Option Metered :=
  match visit.metering with
  | .skipped => none
  | .rejected => none
  | .metered key =>
      (visit.layer.store.consume key visit.layer.now 1).2.map fun decision =>
        { name := visit.layer.limiter.policyName
          quota := visit.layer.limiter.quota
          partitionKey := visit.layer.limiter.pk encode key
          remaining := decision.remaining }

structure Metered.MatchesPolicy (metered : Metered)
    (policy : RateLimitPolicy) : Prop where
  name : policy.name = metered.name
  quota : policy.quota = metered.quota.count
  partitionKey : policy.partitionKey = metered.partitionKey
  window : ∃ window, policy.window = some window ∧
    metered.quota.window ≤ window

structure Metered.MatchesLimit (metered : Metered) (limit : RateLimit) :
    Prop where
  name : limit.name = metered.name
  remaining : limit.remaining = metered.remaining
  partitionKey : limit.partitionKey = metered.partitionKey

/-- The response is read back as what was enforced. -/
structure ReadsBack (sf : SfParser) (metered : List Metered)
    (response : Conn Request) : Prop where
  policies : ∃ policies,
    RateLimitPolicy.fromHeaders sf (response.policyLines.map some) =
        .ok policies ∧
      List.Forall₂ Metered.MatchesPolicy metered policies
  limits : ∃ limits,
    RateLimit.fromHeaders sf (response.limitLines.map some) = .ok limits ∧
      List.Forall₂ Metered.MatchesLimit metered limits

/-- A request gets a response, and it is read back as what was enforced. -/
def StackReadsBack (sf : SfParser) (encode : List UInt8 → Text)
    (overflowChecks : Bool) (layers : List (Layer Request))
    (conn : Conn Request) : Prop :=
  ∃ response, runStack encode overflowChecks layers conn = some response ∧
    ReadsBack sf
      ((visits encode overflowChecks layers conn).filterMap
        (Visit.metered encode)) response

/-- Numbers of at most fifteen digits, a window, and a printable name. -/
structure RateLimiter.Configured {K : Type*}
    (limiter : RateLimiter Request K) : Prop where
  name : Printable limiter.policyName
  window : limiter.quota.window ≠ Duration.zero
  count : limiter.quota.count ≤ 999999999999999
  burst : limiter.quota.burst ≤ 999999999999999

/-- The seconds of this wait have at most fifteen digits.  Where overflow is
not checked they may also have wrapped to zero. -/
def ShortWait (overflowChecks : Bool) (jitter : Duration) (wait : ℚ) : Prop :=
  nanosWithJitter jitter wait ≤ 999999999999999 * nanosPerSec ∨
    (overflowChecks = false ∧ secsLimit < nanosWithJitter jitter wait ∧
      nanosWithJitter jitter wait < durationLimit)

instance (overflowChecks : Bool) (jitter : Duration) (wait : ℚ) :
    Decidable (ShortWait overflowChecks jitter wait) :=
  inferInstanceAs (Decidable (_ ∨ _))

/-- The window is whole seconds, and both it and the wait for a full bucket
have few digits. -/
def Layer.Advertisable (overflowChecks : Bool) (layer : Layer Request)
    (key : Option layer.Key) : Prop :=
  WholeSecs layer.limiter.quota.window ∧
    ShortWait overflowChecks (layer.limiter.randomJitter layer.draw)
      (layer.limiter.quota.fullWait
        ((layer.store.found key layer.now).levelAt layer.limiter.quota
          layer.now))

/-- A limiter that meters can advertise its seconds. -/
def Visit.Advertisable (overflowChecks : Bool) (visit : Visit Request) :
    Prop :=
  ∀ key, visit.metering = .metered key →
    visit.layer.Advertisable overflowChecks key

/-! ## One visit -/

theorem advertisedSecs_short_iff {overflowChecks : Bool} {jitter : Duration}
    {wait : ℚ} {secs : UInt64}
    (h : advertisedSecs overflowChecks jitter wait = some secs) :
    Short secs ↔ ShortWait overflowChecks jitter wait := by
  obtain ⟨⟨hrange, hchecks⟩, hsecs⟩ := advertisedSecs_eq_some_iff.mp h
  rw [Short, hsecs, ShortWait]
  by_cases hle : nanosWithJitter jitter wait ≤ secsLimit
  · rw [if_pos hle]
    unfold secsLimit nanosPerSec at *
    omega
  · have hoff : overflowChecks = false := by
      by_contra hon
      exact hle (hchecks (by simpa using hon))
    rw [if_neg hle]
    exact iff_of_true (by decide) (.inr ⟨hoff, not_le.mp hle, hrange⟩)

theorem ShortWait.representable {overflowChecks : Bool} {jitter : Duration}
    {wait : ℚ} (h : ShortWait overflowChecks jitter wait) :
    Representable overflowChecks jitter wait := by
  rcases h with hle | ⟨hoff, _, hrange⟩
  · unfold Representable secsLimit durationLimit nanosPerSec at *
    omega
  · exact ⟨hrange, fun hon => by simp [hoff] at hon⟩

theorem Quota.retryWait_representable {quota : Quota}
    (hwindow : WholeSecs quota.window) {level : ℚ} (hlevel : 0 ≤ level)
    {jitter : Duration} (hjitter : jitter.nanos < 2 ^ 64)
    (overflowChecks : Bool) :
    Representable overflowChecks jitter (quota.retryWait level) := by
  obtain ⟨secs, hsecs, hshort⟩ := hwindow
  have hround := quota.round_retryWait_le hlevel
  rw [hsecs, Duration.fromSecs_nanos] at hround
  have hnanos : nanosWithJitter jitter (quota.retryWait level) ≤
      secs.toNat * nanosPerSec + jitter.nanos := by
    unfold nanosWithJitter
    omega
  unfold Short at hshort
  unfold Representable secsLimit durationLimit nanosPerSec at *
  omega

theorem short_of_le {n : UInt64} (h : n ≤ 999999999999999) : Short n := by
  rw [UInt64.le_iff_toNat_le] at h
  exact Nat.lt_succ_of_le h

/-- Never more remains than the burst. -/
theorem Quota.short_remaining {quota : Quota}
    (hburst : quota.burst ≤ 999999999999999) {level : ℚ}
    (hlevel : level ≤ quota.cap) : Short (saturateU64 ⌊leftOf level⌋) := by
  have hle := (leftOf_le level).trans hlevel
  have hfloor := Nat.floor_mono hle
  rw [Quota.floor_cap] at hfloor
  rw [Short, saturateU64_floor hle]
  exact hfloor.trans_lt (short_of_le hburst)

/-- The policy a metered request advertises. -/
def Metered.policy (metered : Metered) : RateLimitPolicy :=
  ⟨metered.name, metered.quota.count, .requests, some metered.quota.window,
    metered.partitionKey⟩

def Metered.limit (metered : Metered) (reset : UInt64) : RateLimit :=
  ⟨metered.name, metered.remaining, some (Duration.fromSecs reset),
    metered.partitionKey⟩

/-- What is advertised can be read back, but for the seconds in it. -/
structure Metered.Legible (accepts : Text → Bool) (metered : Metered) :
    Prop where
  name : Printable metered.name
  window : metered.quota.window ≠ Duration.zero
  count : Short metered.quota.count
  remaining : Short metered.remaining
  partitionKey : ∀ key ∈ metered.partitionKey, IsPartitionKey accepts key

/-- A visited limiter that answers either adds nothing, or a line to either
field. -/
inductive Visit.Adds (accepts : Text → Bool) (encode : List UInt8 → Text)
    (overflowChecks : Bool) (visit : Visit Request) (next : Conn Request) :
    Prop
  | nothing :
      visit.metered encode = none → visit.Advertisable overflowChecks →
        next.policyLines = visit.conn.policyLines →
        next.limitLines = visit.conn.limitLines →
          Visit.Adds accepts encode overflowChecks visit next
  | lines {metered : Metered} {reset : UInt64} :
      visit.metered encode = some metered → metered.Legible accepts →
        next.policyLines =
          visit.conn.policyLines ++ [metered.policy.display] →
        next.limitLines =
          visit.conn.limitLines ++ [(metered.limit reset).display] →
        (visit.Advertisable overflowChecks ↔
          WholeSecs metered.quota.window ∧ Short reset) →
          Visit.Adds accepts encode overflowChecks visit next

theorem RateLimiter.respond_lines {K : Type*} (self : RateLimiter Request K)
    (conn : Conn Request) (answer : Answer) :
    (self.respond conn answer).policyLines =
        conn.policyLines ++ [answer.policy.display] ∧
      (self.respond conn answer).limitLines =
        conn.limitLines ++ [answer.limit.display] := by
  unfold RateLimiter.respond
  cases answer.retryAfter <;> exact ⟨rfl, rfl⟩

theorem RateLimiter.advertise_policy {K : Type*}
    (self : RateLimiter Request K) (pk : Option Text)
    (remaining reset : UInt64) (retryAfter : Option UInt64) :
    (self.advertise pk remaining reset retryAfter).policy =
      ⟨self.policyName, self.quota.count, .requests, some self.quota.window,
        pk⟩ := by
  cases pk <;> rfl

theorem RateLimiter.advertise_limit {K : Type*}
    (self : RateLimiter Request K) (pk : Option Text)
    (remaining reset : UInt64) (retryAfter : Option UInt64) :
    (self.advertise pk remaining reset retryAfter).limit =
      ⟨self.policyName, remaining, some (Duration.fromSecs reset), pk⟩ := by
  cases pk <;> rfl

theorem RateLimiter.decision_of_serve {K : Type*} [DecidableEq K]
    {self : RateLimiter Request K} {encode : List UInt8 → Text}
    {overflowChecks : Bool}
    {store : Store (Option K)} {key : Option K} {now : Instant}
    {draw : UInt64} {answer : Answer}
    (h : (self.serve encode overflowChecks store key now draw).2 =
      some answer) :
    ∃ decision, (store.consume key now 1).2 = some decision := by
  obtain ⟨decision, hdecision, _⟩ := Option.bind_eq_some_iff.mp h
  exact ⟨decision, hdecision⟩

theorem RateLimiter.isPartitionKey_pk {accepts : Text → Bool}
    {encode : List UInt8 → Text} (hencode : Encodes accepts encode)
    {K : Type*} (self : RateLimiter Request K) (key : Option K) :
    ∀ pk ∈ self.pk encode key, IsPartitionKey accepts pk := by
  intro pk hpk
  unfold RateLimiter.pk at hpk
  split at hpk
  next render key _ =>
    simp only [Option.mem_def, Option.some.injEq] at hpk
    subst hpk
    exact ⟨hencode.chars _, hencode.accepted _⟩
  next => simp at hpk

theorem Visit.metered_eq (encode : List UInt8 → Text)
    {visit : Visit Request} {key : Option visit.layer.Key}
    (hkey : visit.metering = .metered key) :
    visit.metered encode =
      (visit.layer.store.consume key visit.layer.now 1).2.map fun decision =>
        ⟨visit.layer.limiter.policyName, visit.layer.limiter.quota,
          visit.layer.limiter.pk encode key, decision.remaining⟩ := by
  rw [Visit.metered, hkey]

theorem Visit.advertisable_iff {visit : Visit Request}
    {overflowChecks : Bool} {key : Option visit.layer.Key}
    (hkey : visit.metering = .metered key) :
    visit.Advertisable overflowChecks ↔
      visit.layer.Advertisable overflowChecks key := by
  constructor
  · exact fun h => h key hkey
  · intro h other hother
    obtain rfl : key = other := by
      simpa [hkey] using hother
    exact h

theorem Visit.run_eq {visit : Visit Request}
    {encode : List UInt8 → Text} {overflowChecks : Bool}
    {key : Option visit.layer.Key} (hkey : visit.metering = .metered key) :
    visit.layer.run encode overflowChecks visit.conn =
      (visit.layer.limiter.serve encode overflowChecks
        visit.layer.store key visit.layer.now visit.layer.draw).2.map
          (visit.layer.limiter.respond visit.conn) := by
  have hmetering : visit.layer.limiter.metering visit.conn = .metered key :=
    hkey
  rw [Layer.run, RateLimiter.run_eq, hmetering]

section

variable {accepts : Text → Bool} {encode : List UInt8 → Text}
  {overflowChecks : Bool}

theorem Visit.adds_of_metered (hencode : Encodes accepts encode)
    {visit : Visit Request} (hconfigured : visit.layer.limiter.Configured)
    {key : Option visit.layer.Key} (hkey : visit.metering = .metered key)
    {next : Conn Request}
    (hrun : visit.layer.run encode overflowChecks visit.conn = some next) :
    visit.Adds accepts encode overflowChecks next := by
  obtain ⟨hname, hwindow, hcount, hburst⟩ := hconfigured
  have hquota := visit.layer.used.solvent.quota_eq
  rw [Visit.run_eq hkey] at hrun
  obtain ⟨answer, hanswer, rfl⟩ := Option.map_eq_some_iff.mp hrun
  obtain ⟨reset, retryAfter, hreset, _, rfl⟩ :=
    (RateLimiter.serve_eq_some_iff (Duration.nanos_pos hwindow).ne' hquota
      rfl).mp hanswer
  obtain ⟨decision, hdecision⟩ := RateLimiter.decision_of_serve hanswer
  have hmetered := Visit.metered_eq encode hkey
  rw [hdecision, Option.map_some] at hmetered
  rw [Store.consume_decision, hquota] at hdecision
  have hremaining := Quota.decisionAt_remaining hdecision
  have hlines := visit.layer.limiter.respond_lines visit.conn
    (visit.layer.limiter.advertise
      (visit.layer.limiter.pk encode key)
      decision.remaining reset retryAfter)
  rw [RateLimiter.advertise_policy, RateLimiter.advertise_limit] at hlines
  rw [← hremaining]
  refine .lines hmetered ⟨hname, hwindow, short_of_le hcount, ?_, ?_⟩
    hlines.1 hlines.2 ?_
  · rw [hremaining]
    exact Quota.short_remaining hburst (Meter.levelAt_le_cap _ _ _)
  · exact visit.layer.limiter.isPartitionKey_pk hencode key
  · rw [Visit.advertisable_iff hkey, Layer.Advertisable,
      advertisedSecs_short_iff hreset]

/-- A limiter that does not meter the request lets it by without a line. -/
theorem Visit.run_of_unmetered {visit : Visit Request}
    (encode : List UInt8 → Text) (overflowChecks : Bool)
    (h : ∀ key, visit.metering ≠ .metered key) :
    ∃ next, visit.layer.run encode overflowChecks visit.conn = some next ∧
      next.policyLines = visit.conn.policyLines ∧
      next.limitLines = visit.conn.limitLines := by
  unfold Visit.metering at h
  rw [Layer.run, RateLimiter.run_eq]
  cases hmetering : visit.layer.limiter.metering visit.conn with
  | metered key => exact absurd hmetering (h key)
  | skipped => exact ⟨visit.conn, rfl, rfl, rfl⟩
  | rejected =>
      exact ⟨visit.conn.reject visit.layer.limiter.status, rfl, rfl, rfl⟩

theorem Visit.metered_of_unmetered {visit : Visit Request}
    (h : ∀ key, visit.metering ≠ .metered key) :
    visit.metered encode = none := by
  unfold Visit.metered
  cases hmetering : visit.metering with
  | metered key => exact absurd hmetering (h key)
  | skipped => rfl
  | rejected => rfl

theorem Visit.adds (hencode : Encodes accepts encode)
    (visit : Visit Request) (hconfigured : visit.layer.limiter.Configured)
    {next : Conn Request}
    (hrun : visit.layer.run encode overflowChecks visit.conn = some next) :
    visit.Adds accepts encode overflowChecks next := by
  by_cases hmetered : ∃ key, visit.metering = .metered key
  · obtain ⟨key, hkey⟩ := hmetered
    exact Visit.adds_of_metered hencode hconfigured hkey hrun
  · have hunmetered := not_exists.mp hmetered
    obtain ⟨_, hnext, hpolicy, hlimit⟩ :=
      Visit.run_of_unmetered encode overflowChecks hunmetered
    obtain rfl := Option.some_injective _ (hnext.symm.trans hrun)
    refine .nothing (Visit.metered_of_unmetered hunmetered) ?_ hpolicy hlimit
    exact fun key hkey => absurd hkey (hunmetered key)

theorem Visit.run_isSome (visit : Visit Request)
    (hconfigured : visit.layer.limiter.Configured)
    (h : visit.Advertisable overflowChecks) :
    (visit.layer.run encode overflowChecks visit.conn).isSome := by
  by_cases hmetered : ∃ key, visit.metering = .metered key
  · obtain ⟨key, hkey⟩ := hmetered
    have hnanos := Duration.nanos_pos hconfigured.window
    have hsolvent := visit.layer.used.solvent
    obtain ⟨hwindow, hwait⟩ := h key hkey
    rw [Visit.run_eq hkey, Option.isSome_map,
      RateLimiter.answered_iff hnanos.ne' hsolvent.quota_eq rfl]
    refine ⟨hwait.representable, fun _ => ?_⟩
    exact Quota.retryWait_representable hwindow
      (Bucket.levelAt_nonneg (hsolvent.found_nonneg key _) _)
      (RateLimiter.randomJitter_nanos_lt _ _) overflowChecks
  · obtain ⟨_, hnext, _⟩ := Visit.run_of_unmetered encode overflowChecks
      (not_exists.mp hmetered)
    rw [hnext]
    rfl

end

/-! ## The whole stack -/

/-- The lines the visited limiters added, with the seconds until reset. -/
structure Advertises (accepts : Text → Bool) (encode : List UInt8 → Text)
    (overflowChecks : Bool) (visits : List (Visit Request))
    (conn response : Conn Request) (lines : List (Metered × UInt64)) :
    Prop where
  metered : lines.map Prod.fst = visits.filterMap (Visit.metered encode)
  legible : ∀ line ∈ lines, line.1.Legible accepts
  policyLines : response.policyLines =
    conn.policyLines ++ lines.map fun line => line.1.policy.display
  limitLines : response.limitLines =
    conn.limitLines ++ lines.map fun line => (line.1.limit line.2).display
  short_iff : (∀ visit ∈ visits, visit.Advertisable overflowChecks) ↔
    ∀ line ∈ lines, WholeSecs line.1.quota.window ∧ Short line.2

section

variable {accepts : Text → Bool} {encode : List UInt8 → Text}
  {overflowChecks : Bool}

theorem Advertises.nil (conn : Conn Request) :
    Advertises accepts encode overflowChecks [] conn conn [] :=
  ⟨rfl, by simp, by simp, by simp, by simp⟩

theorem Visit.Adds.advertises {visit : Visit Request}
    {next response : Conn Request}
    (h : visit.Adds accepts encode overflowChecks next)
    {visits : List (Visit Request)} {lines : List (Metered × UInt64)}
    (hrest : Advertises accepts encode overflowChecks visits next response
      lines) :
    ∃ lines, Advertises accepts encode overflowChecks (visit :: visits)
      visit.conn response lines := by
  obtain ⟨hmetered, hlegible, hpolicies, hlimits, hshort⟩ := hrest
  cases h with
  | nothing hnone hadvertisable hpolicy hlimit =>
      refine ⟨lines, ?_, hlegible, hpolicy ▸ hpolicies, hlimit ▸ hlimits, ?_⟩
      · rw [List.filterMap_cons_none hnone, hmetered]
      · rw [List.forall_mem_cons, hshort]
        exact and_iff_right hadvertisable
  | @lines metered reset hsome hlegible' hpolicy hlimit hiff =>
      refine ⟨(metered, reset) :: lines, ?_, ?_, ?_, ?_, ?_⟩
      · rw [List.filterMap_cons_some hsome, List.map_cons, hmetered]
      · exact List.forall_mem_cons.mpr ⟨hlegible', hlegible⟩
      · rw [hpolicies, hpolicy, List.append_assoc]
        rfl
      · rw [hlimits, hlimit, List.append_assoc]
        rfl
      · rw [List.forall_mem_cons, List.forall_mem_cons, hshort, hiff]

theorem runStack_advertises (hencode : Encodes accepts encode)
    {layers : List (Layer Request)}
    (hconfigured : ∀ layer ∈ layers, layer.limiter.Configured)
    {conn response : Conn Request}
    (hrun : runStack encode overflowChecks layers conn = some response) :
    ∃ lines, Advertises accepts encode overflowChecks
      (visits encode overflowChecks layers conn) conn response lines := by
  induction layers generalizing conn with
  | nil =>
      rw [runStack, Option.some.injEq] at hrun
      exact hrun ▸ ⟨[], .nil conn⟩
  | cons layer rest ih =>
      obtain ⟨hlayer, hrest⟩ := List.forall_mem_cons.mp hconfigured
      by_cases hhalted : conn.halted = true
      · rw [runStack, if_pos hhalted, Option.some.injEq] at hrun
        rw [visits, if_pos hhalted]
        exact hrun ▸ ⟨[], .nil conn⟩
      · rw [runStack, if_neg hhalted] at hrun
        obtain ⟨next, hnext, hrun⟩ := Option.bind_eq_some_iff.mp hrun
        obtain ⟨lines, hlines⟩ := ih hrest hrun
        have hadds := Visit.adds hencode ⟨layer, conn⟩ hlayer hnext
        rw [visits, if_neg hhalted, hnext, Option.elim_some]
        exact hadds.advertises hlines

theorem runStack_isSome {layers : List (Layer Request)}
    (hconfigured : ∀ layer ∈ layers, layer.limiter.Configured)
    {conn : Conn Request}
    (h : ∀ visit ∈ visits encode overflowChecks layers conn,
      visit.Advertisable overflowChecks) :
    (runStack encode overflowChecks layers conn).isSome := by
  induction layers generalizing conn with
  | nil => rfl
  | cons layer rest ih =>
      obtain ⟨hlayer, hrest⟩ := List.forall_mem_cons.mp hconfigured
      by_cases hhalted : conn.halted = true
      · rw [runStack, if_pos hhalted]
        rfl
      · rw [visits, if_neg hhalted, List.forall_mem_cons] at h
        obtain ⟨next, hnext⟩ := Option.isSome_iff_exists.mp
          (Visit.run_isSome ⟨layer, conn⟩ hlayer h.1)
        rw [hnext, Option.elim_some] at h
        rw [runStack, if_neg hhalted, hnext, Option.bind_some]
        exact ih hrest h.2

end

theorem layer_mem_of_visits {encode : List UInt8 → Text}
    {overflowChecks : Bool} {layers : List (Layer Request)}
    {conn : Conn Request} {visit : Visit Request}
    (h : visit ∈ visits encode overflowChecks layers conn) :
    visit.layer ∈ layers := by
  induction layers generalizing conn with
  | nil => simp [visits] at h
  | cons layer rest ih =>
      by_cases hhalted : conn.halted = true
      · simp [visits, hhalted] at h
      · rw [visits, if_neg hhalted] at h
        rcases List.mem_cons.mp h with rfl | hrest
        · exact List.mem_cons_self
        · cases hnext : layer.run encode overflowChecks conn with
          | none => simp [hnext] at hrest
          | some next =>
              rw [hnext, Option.elim_some] at hrest
              exact List.mem_cons_of_mem _ (ih hrest)

end TrilliumRatelimit
