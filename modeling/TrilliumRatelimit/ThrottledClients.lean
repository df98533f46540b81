import TrilliumRatelimit.BoundedTraffic
import TrilliumRatelimit.ThrottleTraffic

/-!
# Throttled clients of a limiter

Any number of clients, each with a throttle and a clock of its own, send to
one partition of a limiter.  What a throttle lets depart is bounded by the
burst and the rate of its quota, the network adds what its delays may bunch
up, and the bounds of all clients add up.  A limiter whose quota covers the
sum denies none of them.
-/

namespace TrilliumRatelimit

open ArrivalCurve StructuredField

/-- A throttled client.  `ops` is all its throttle ran, `sent` the slots of
the requests that reach the partition, and `stays` when they are decided
there.  `offset` is the shortest delay on the way, with how far the server's
clock is ahead; no delay is longer by more than `jitter`. -/
structure Sender where
  Url : Type
  originScope : Url → String
  quota : Quota
  scope : String
  state : ThrottleState
  ops : List ThrottleOp
  sent : List Slot
  offset : ℤ
  jitter : Duration
  stays : List Stay

def Sender.throttle (sender : Sender) : Throttle sender.Url :=
  Throttle.new sender.originScope sender.quota

/-- The request departs at its slot, and is decided in time. -/
def Sender.Delivers (sender : Sender) (slot : Slot) (stay : Stay) : Prop :=
  slot.departs.nanos + sender.offset ≤ stay.arrived.nanos ∧
    stay.locked.nanos ≤
      slot.departs.nanos + sender.offset + sender.jitter.nanos

instance (sender : Sender) (slot : Slot) (stay : Stay) :
    Decidable (sender.Delivers slot stay) :=
  inferInstanceAs (Decidable (_ ∧ _))

structure Sender.Throttled (sender : Sender) : Prop where
  count : sender.quota.count ≠ 0
  burst : 1 ≤ sender.quota.burst.toNat
  window : sender.quota.window ≠ Duration.zero
  roundsUp : sender.quota.roundsUp = true
  fits : sender.throttle.opsFit sender.state sender.ops = true
  sent : sender.sent.Sublist
    (sender.throttle.opSlots sender.scope sender.state sender.ops)
  delivered : List.Forall₂ sender.Delivers sender.sent sender.stays

/-- Requests in a nanosecond. -/
def Sender.rate (sender : Sender) : ℚ :=
  sender.quota.count.toNat / sender.quota.window.nanos

/-- The burst, with what the network may add to it. -/
def Sender.peak (sender : Sender) : ℚ :=
  sender.quota.burst.toNat + sender.rate * sender.jitter.nanos

theorem Sender.Throttled.rate_pos {sender : Sender} (h : sender.Throttled) :
    0 < sender.rate := by
  have hcount : (0 : ℚ) < sender.quota.count.toNat := by
    exact_mod_cast Quota.count_pos h.count
  have hwindow : (0 : ℚ) < sender.quota.window.nanos := by
    exact_mod_cast Duration.nanos_pos h.window
  exact div_pos hcount hwindow

theorem Sender.delayed {sender : Sender} {sent : List Slot}
    {stays : List Stay} (hdelivered : List.Forall₂ sender.Delivers sent stays)
    {times : List Instant}
    (htimes : List.Forall₂ Stay.Contains stays times) :
    List.Forall₂ (Delayed (sender.offset : ℚ) sender.jitter.nanos)
      (departureStream sent) (arrivalStream times) := by
  induction hdelivered generalizing times with
  | nil =>
      cases htimes
      exact List.Forall₂.nil
  | cons hfirst _ ih =>
      cases htimes with
      | cons hcontains hrest =>
          obtain ⟨hlow, hhigh⟩ := hfirst
          obtain ⟨hfrom, huntil⟩ := hcontains
          rw [Instant.le_def] at hfrom huntil
          refine List.Forall₂.cons ⟨rfl, ?_, ?_⟩ (ih hrest)
          · have hle := hlow.trans hfrom
            simp only
            exact_mod_cast hle
          · have hle := huntil.trans hhigh
            simp only
            exact_mod_cast hle

/-- Wherever within its stay each request is counted. -/
theorem Sender.Throttled.bounded {sender : Sender} (h : sender.Throttled)
    {times : List Instant}
    (htimes : List.Forall₂ Stay.Contains sender.stays times) :
    Bounded sender.peak sender.rate (arrivalStream times) := by
  have hslots := Throttle.bounded_departureStream h.count h.burst h.window
    h.roundsUp h.fits sender.scope
  have hones : ∀ slots, ∀ request ∈ departureStream slots,
      (0 : ℚ) ≤ request.2 := by
    intro slots request hmem
    rw [departureStream, List.map_map, List.mem_map] at hmem
    obtain ⟨slot, _, rfl⟩ := hmem
    exact zero_le_one
  have hsent := hslots.sublist ((h.sent.map _).map _) (hones _)
  exact hsent.delay (Nat.cast_nonneg _) (Sender.delayed h.delivered htimes)
    (hones _)

theorem bounded_of_senders {senders : List Sender}
    (hthrottled : ∀ sender ∈ senders, sender.Throttled)
    {times : List Instant}
    (htimes : List.Forall₂ Stay.Contains (senders.flatMap Sender.stays)
      times) :
    Bounded (senders.map Sender.peak).sum (senders.map Sender.rate).sum
      (arrivalStream times) := by
  induction senders generalizing times with
  | nil =>
      cases htimes
      exact Bounded.nil le_rfl le_rfl
  | cons sender rest ih =>
      obtain ⟨hsender, hrest⟩ := List.forall_mem_cons.mp hthrottled
      rw [List.flatMap_cons] at htimes
      have hflip := htimes.flip
      have hbefore := (List.forall₂_take_append _ _ _ hflip).flip
      have hafter := (List.forall₂_drop_append _ _ _ hflip).flip
      rw [List.map_cons, List.sum_cons, List.map_cons, List.sum_cons,
        ← List.take_append_drop sender.stays.length times, arrivalStream,
        List.map_append]
      exact (hsender.bounded hbefore).append (ih hrest hafter)

section

variable {Request K : Type*} [DecidableEq K]

/-- Clients whose throttles add up to no more than the quota of a limiter all
get through, however the network delays and reorders their requests and
whatever buckets the cache drops. -/
theorem throttled_clients_never_denied (encode : List UInt8 → Text)
    (overflowChecks : Bool) (self : RateLimiter Request K) (key : Option K)
    {senders : List Sender}
    (hthrottled : ∀ sender ∈ senders, sender.Throttled)
    (hrate : (senders.map Sender.rate).sum ≤
      self.quota.count.toNat / self.quota.window.nanos)
    (hpeak : (senders.map Sender.peak).sum ≤ self.quota.burst.toNat)
    (henvelope : self.WithinEnvelope)
    {events : List (LimiterEvent Request K)}
    (horder : InLockOrder (self.stays key events))
    (hevents : (self.stays key events).Perm
      (senders.flatMap Sender.stays)) :
    ∀ served ∈ self.serveAll encode overflowChecks
        (Store.new (Option K) self.quota) events,
      self.sharesPartition key served.arrival = true → served.Passed := by
  have hlatest := horder.latest fun stay _ => stay.locked.earliest_le
  obtain ⟨times, htimes, hperm⟩ := List.perm_comp_forall₂ hevents.symm hlatest
  have hbounded := (bounded_of_senders hthrottled htimes).perm (hperm.map _)
  by_cases hnone : senders = []
  · subst hnone
    rw [List.flatMap_nil, List.perm_nil] at hevents
    intro served hmem hshares
    exact absurd hshares (RateLimiter.not_shares_of_stays hevents hmem)
  · have hrates : ∀ rate ∈ senders.map Sender.rate, 0 < rate := by
      simp only [List.forall_mem_map]
      exact fun sender hmem => (hthrottled sender hmem).rate_pos
    have hpos := (List.sum_pos _ hrates (by simpa using hnone)).trans_le hrate
    have hcount : self.quota.count ≠ 0 := by
      intro hzero
      simp [hzero] at hpos
    have hwindow : self.quota.window ≠ Duration.zero := by
      intro hzero
      simp [hzero] at hpos
    exact RateLimiter.passed_of_bounded hcount hwindow henvelope
      (hbounded.mono hpeak hrate)

end

/-- One request a second, and a second of jitter. -/
def Sender.perSecond (claims : List Instant) (stays : List Stay) :
    Sender where
  Url := String
  originScope := id
  quota := Quota.perSecond 1
  scope := "a"
  state := fun _ => none
  ops := claims.map (ThrottleOp.claim "a")
  sent := (Throttle.new id (Quota.perSecond 1)).opSlots "a" (fun _ => none)
    (claims.map (ThrottleOp.claim "a"))
  offset := 0
  jitter := Duration.fromSecs 1
  stays := stays

/-- The network delivers the two requests of one client at once, the other
client's call stalls between them, and the bucket is dropped meanwhile. -/
theorem throttled_clients_never_denied_two :
    let limiter : RateLimiter Unit Unit :=
      RateLimiter.new ((Quota.perSecond 2).allowBurst 4) fun _ => some ()
    let served := limiter.serveAll (fun _ => []) true
      (Store.new (Option Unit) limiter.quota)
      [.request ⟨Conn.new (), Instant.atSec 1, 0⟩ (Instant.atSec 1),
        .evict (some ()),
        .request ⟨Conn.new (), Instant.atSec 0, 0⟩ (Instant.atSec 1),
        .request ⟨Conn.new (), Instant.atSec 1, 0⟩ (Instant.atSec 1)]
    served.length = 3 ∧ ∀ request ∈ served, request.Passed := by
  have hthrottled : ∀ sender ∈ [
      Sender.perSecond [Instant.atSec 0, Instant.atSec 1]
        [⟨Instant.atSec 1, Instant.atSec 1⟩,
          ⟨Instant.atSec 1, Instant.atSec 1⟩],
      Sender.perSecond [Instant.atSec 0]
        [⟨Instant.atSec 0, Instant.atSec 1⟩]], sender.Throttled := by
    simp only [List.forall_mem_cons, List.not_mem_nil, false_imp_iff,
      implies_true, and_true]
    constructor
    · exact ⟨by decide, by decide, by decide, by decide, by decide +kernel,
        List.Sublist.refl _,
        .cons (by decide +kernel) (.cons (by decide +kernel) .nil)⟩
    · exact ⟨by decide, by decide, by decide, by decide, by decide +kernel,
        List.Sublist.refl _, .cons (by decide +kernel) .nil⟩
  intro limiter served
  refine ⟨rfl, fun request hmem => ?_⟩
  refine throttled_clients_never_denied (fun _ => []) true limiter (some ())
    hthrottled ?_ ?_ ?_ ?_ ?_ request hmem rfl
  · decide +kernel
  · decide +kernel
  · decide +kernel
  · exact ⟨by decide, by decide⟩
  · exact .cons _ (.swap _ _ _)

end TrilliumRatelimit
