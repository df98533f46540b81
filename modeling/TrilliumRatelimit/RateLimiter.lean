import TrilliumRatelimit.RateLimit
import TrilliumRatelimit.RateLimitPolicy
import TrilliumRatelimit.Store

/-!
# The limiter

`RateLimiter::run` decides by the key of a request which bucket meters it, or
by `MissingKey` what happens to a request without one, and writes what the
bucket answered into the response.

The store is passed and returned, the clock reading and the random number of a
request are arguments.  `encode` is the base64 encoder of another crate, and
`overflowChecks` the build setting of this name: without it a sum of integers
that overflows wraps, with it it panics.
-/

namespace TrilliumRatelimit

open StructuredField

inductive MissingKey where
  | skip
  | reject
  | shared
  deriving DecidableEq

/-- What the limiter reads and writes of a `trillium::Conn`. -/
structure Conn (Request : Type*) where
  request : Request
  policyLines : List Text
  limitLines : List Text
  retryAfter : Option Text
  status : Option UInt16
  halted : Bool

/-- A request no handler has answered yet. -/
def Conn.new {Request : Type*} (request : Request) : Conn Request where
  request := request
  policyLines := []
  limitLines := []
  retryAfter := none
  status := none
  halted := false

/-- A request as it reaches the limiter, and what the limiter meets it with. -/
structure Arrival (Request : Type*) where
  conn : Conn Request
  now : Instant
  draw : UInt64

/-- The store is kept apart. -/
structure RateLimiter (Request K : Type*) where
  extractor : Conn Request → Option K
  quota : Quota
  policyName : Text
  missingKey : MissingKey
  status : UInt16
  jitter : Duration
  partitionKey : Option (K → List UInt8)

/-- How a request is metered: not at all, or in the bucket of a key. -/
inductive Metering (K : Type*) where
  | skipped
  | rejected
  | metered (key : Option K)
  deriving DecidableEq

/-- What a metered request advertises. -/
structure Answer where
  policy : RateLimitPolicy
  limit : RateLimit
  retryAfter : Option UInt64
  deriving DecidableEq

def secsCeil (overflowChecks : Bool) (duration : Duration) : Option UInt64 :=
  let carry : UInt64 := if 0 < duration.subsecNanos then 1 else 0
  if overflowChecks ∧ 2 ^ 64 ≤ duration.asSecs.toNat + carry.toNat then none
  else some (duration.asSecs + carry)

/-- `secs_ceil(wait + jitter)`; the sum of durations panics in any build. -/
def secsWithJitter (overflowChecks : Bool) (wait jitter : Duration) :
    Option UInt64 :=
  (wait.checkedAdd jitter).bind (secsCeil overflowChecks)

section

variable {Request K : Type*} [DecidableEq K]

def RateLimiter.new (quota : Quota) (extractor : Conn Request → Option K) :
    RateLimiter Request K where
  extractor := extractor
  quota := quota
  policyName := "default".toList
  missingKey := .skip
  status := 429
  jitter := Duration.zero
  partitionKey := none

def RateLimiter.withPolicyName (self : RateLimiter Request K)
    (policyName : Text) : RateLimiter Request K :=
  { self with policyName := policyName }

def RateLimiter.withMissingKey (self : RateLimiter Request K)
    (missingKey : MissingKey) : RateLimiter Request K :=
  { self with missingKey := missingKey }

def RateLimiter.withStatus (self : RateLimiter Request K) (status : UInt16) :
    RateLimiter Request K :=
  { self with status := status }

def RateLimiter.withJitter (self : RateLimiter Request K)
    (jitter : Duration) : RateLimiter Request K :=
  { self with jitter := jitter }

def RateLimiter.withPartitionKey (self : RateLimiter Request K)
    (render : K → List UInt8) : RateLimiter Request K :=
  { self with partitionKey := some render }

/-- `fastrand` draws from the range up to the largest jitter. -/
def RateLimiter.randomJitter (self : RateLimiter Request K) (draw : UInt64) :
    Duration :=
  if self.jitter.isZero then Duration.zero
  else
    let max := UInt64.ofNat (min self.jitter.nanos (2 ^ 64 - 1))
    Duration.fromNanos (min draw max)

def RateLimiter.metering (self : RateLimiter Request K)
    (conn : Conn Request) : Metering K :=
  match self.extractor conn with
  | some key => .metered (some key)
  | none =>
      match self.missingKey with
      | .skip => .skipped
      | .reject => .rejected
      | .shared => .metered none

/-- The local `pk` of `run`. -/
def RateLimiter.pk (self : RateLimiter Request K)
    (encode : List UInt8 → Text) (key : Option K) : Option Text :=
  match self.partitionKey, key with
  | some render, some key => some (encode (render key))
  | _, _ => none

/-- What is advertised, from the numbers in it. -/
def RateLimiter.advertise (self : RateLimiter Request K) (pk : Option Text)
    (remaining reset : UInt64) (retryAfter : Option UInt64) : Answer :=
  let policy := (RateLimitPolicy.new self.policyName
    self.quota.count).withWindow self.quota.window
  let limit := (RateLimit.new self.policyName remaining).withReset
    (Duration.fromSecs reset)
  { policy := pk.elim policy policy.withPartitionKey
    limit := pk.elim limit limit.withPartitionKey
    retryAfter := retryAfter }

/-- `none` is a panic in a duration. -/
def RateLimiter.answer (self : RateLimiter Request K) (overflowChecks : Bool)
    (pk : Option Text) (decision : Decision) (jitter : Duration) :
    Option Answer := do
  let reset ← secsWithJitter overflowChecks decision.timeToFull jitter
  let retryAfter ←
    if decision.allowed then some none
    else (secsWithJitter overflowChecks
      (decision.retryAfter.getD Duration.zero) jitter).map some
  return self.advertise pk decision.remaining reset retryAfter

def Conn.reject (conn : Conn Request) (status : UInt16) : Conn Request :=
  { conn with status := some status, halted := true }

/-- The headers of an answer, and the rejection if it is a denial. -/
def RateLimiter.respond (self : RateLimiter Request K) (conn : Conn Request)
    (answer : Answer) : Conn Request :=
  let conn := { conn with
    policyLines := conn.policyLines ++ [answer.policy.display]
    limitLines := conn.limitLines ++ [answer.limit.display] }
  match answer.retryAfter with
  | none => conn
  | some retryAfter =>
      ({ conn with retryAfter := some (decimalText retryAfter) }).reject
        self.status

variable (encode : List UInt8 → Text) (overflowChecks : Bool)

/-- The part of `run` behind the missing-key policy. -/
def RateLimiter.serveAt (self : RateLimiter Request K)
    (store : Store (Option K)) (key : Option K) (now locked : Instant)
    (draw : UInt64) : Store (Option K) × Option Answer :=
  let (next, decision) := store.consumeAt key now locked 1
  (next, decision.bind fun decision =>
    self.answer overflowChecks (self.pk encode key) decision
      (self.randomJitter draw))

def RateLimiter.runAt (self : RateLimiter Request K)
    (store : Store (Option K)) (conn : Conn Request) (now locked : Instant)
    (draw : UInt64) : Store (Option K) × Option (Conn Request) :=
  match self.metering conn with
  | .skipped => (store, some conn)
  | .rejected => (store, some (conn.reject self.status))
  | .metered key =>
      let (next, answer) :=
        self.serveAt encode overflowChecks store key now locked draw
      (next, answer.map (self.respond conn))

/-- The bucket's lock is there at once. -/
def RateLimiter.serve (self : RateLimiter Request K)
    (store : Store (Option K)) (key : Option K) (now : Instant)
    (draw : UInt64) : Store (Option K) × Option Answer :=
  self.serveAt encode overflowChecks store key now now draw

def RateLimiter.run (self : RateLimiter Request K)
    (store : Store (Option K)) (conn : Conn Request) (now : Instant)
    (draw : UInt64) : Store (Option K) × Option (Conn Request) :=
  self.runAt encode overflowChecks store conn now now draw

theorem RateLimiter.serve_eq (self : RateLimiter Request K)
    (store : Store (Option K)) (key : Option K) (now : Instant)
    (draw : UInt64) :
    self.serve encode overflowChecks store key now draw =
      ((store.consume key now 1).1,
        (store.consume key now 1).2.bind fun decision =>
          self.answer overflowChecks (self.pk encode key) decision
            (self.randomJitter draw)) := rfl

theorem RateLimiter.run_eq (self : RateLimiter Request K)
    (store : Store (Option K)) (conn : Conn Request) (now : Instant)
    (draw : UInt64) :
    self.run encode overflowChecks store conn now draw =
      match self.metering conn with
      | .skipped => (store, some conn)
      | .rejected => (store, some (conn.reject self.status))
      | .metered key =>
          ((self.serve encode overflowChecks store key now draw).1,
            (self.serve encode overflowChecks store key now draw).2.map
              (self.respond conn)) := rfl

/-- The store after a run. -/
def RateLimiter.storeAfter (self : RateLimiter Request K) :
    Store (Option K) → List (Arrival Request) → Store (Option K)
  | store, [] => store
  | store, arrival :: rest =>
      self.storeAfter (self.run encode overflowChecks store arrival.conn
        arrival.now arrival.draw).1 rest

end

end TrilliumRatelimit
