import TrilliumRatelimit.BucketConformance
import TrilliumRatelimit.Store

/-!
# Idle expiry

The cache drops a bucket that was idle for one window, and the next request
starts from a full one.  This compares the decisions of such a store with those
of one bucket that is never dropped.

A window refills `count` tokens.  When the burst is at most the count, an idle
bucket would have been full anyway and the two runs return the same decisions.
When the burst is larger, a drained bucket is dropped before it is full, and
the two runs differ.
-/

namespace TrilliumRatelimit

open CappedLevel

/-- The decisions of a run on one bucket; `none` once a call panics. -/
def Bucket.decisions (quota : Quota) : Bucket → List Call →
    Option (List Decision)
  | _, [] => some []
  | bucket, call :: rest =>
      match bucket.tryConsume call.now quota call.cost with
      | (_, none) => none
      | (next, some decision) =>
          (Bucket.decisions quota next rest).map (decision :: ·)

/-- A bucket created at the first call and never dropped. -/
def undroppedDecisions (quota : Quota) (calls : List Call) :
    Option (List Decision) :=
  match calls with
  | [] => some []
  | first :: _ => (Bucket.new first.now quota).decisions quota calls

/-- The decisions of `Store::consume` calls on one key. -/
def Store.decisions {K : Type*} [DecidableEq K] (key : K) :
    Store K → List Call → Option (List Decision)
  | _, [] => some []
  | store, call :: rest =>
      match store.consume key call.now call.cost with
      | (_, none) => none
      | (next, some decision) =>
          (Store.decisions key next rest).map (decision :: ·)

variable {K : Type*} [DecidableEq K]

/-- Dropping idle buckets changes no decision. -/
def ExpiryLossless (key : K) (quota : Quota) : Prop :=
  ∀ calls : List Call, calls.Pairwise (fun a b => a.now ≤ b.now) →
    (Store.new K quota).decisions key calls = undroppedDecisions quota calls

/-! ## Bursts up to the count -/

/-- Whenever it is asked, the store finds a bucket as full as this one. -/
structure Store.Matches (store : Store K) (key : K) (quota : Quota)
    (bucket : Bucket) : Prop where
  quota_eq : store.quota = quota
  nonneg : 0 ≤ bucket.tokens
  level_eq : ∀ now,
    (store.found key now).levelAt quota now = bucket.levelAt quota now

omit [DecidableEq K] in
theorem Store.new_matches (key : K) (quota : Quota) (start : Instant) :
    (Store.new K quota).Matches key quota (Bucket.new start quota) where
  quota_eq := rfl
  nonneg := quota.cap_nonneg
  level_eq := by
    intro now
    change (Bucket.new now quota).levelAt quota now = _
    rw [Bucket.new_levelAt, Bucket.new_levelAt]

theorem units_add_count {quota : Quota} (hwindow : quota.window.nanos ≠ 0)
    {last now : Instant}
    (hidle : last.nanos + quota.window.nanos ≤ now.nanos) :
    quota.units last + quota.count.toNat ≤ quota.units now := by
  have hpos : (0 : ℚ) < quota.window.nanos := by
    exact_mod_cast Nat.pos_of_ne_zero hwindow
  have helapsed : (quota.window.nanos : ℚ) ≤
      ((now.nanos - last.nanos : ℤ) : ℚ) := by
    exact_mod_cast (by omega : (quota.window.nanos : ℤ) ≤
      now.nanos - last.nanos)
  have hgain : (quota.count.toNat : ℚ) ≤
      quota.units now - quota.units last := by
    rw [Quota.units_sub, le_div_iff₀ hpos, mul_comm]
    exact mul_le_mul_of_nonneg_right helapsed (Nat.cast_nonneg _)
  linarith

theorem Bucket.levelAt_of_idle {quota : Quota}
    (hwindow : quota.window.nanos ≠ 0) (hburst : quota.burst ≤ quota.count)
    {bucket : Bucket} (htokens : 0 ≤ bucket.tokens) {now : Instant}
    (hidle : bucket.lastUpdate.nanos + quota.window.nanos ≤ now.nanos) :
    bucket.levelAt quota now = quota.cap := by
  have hunits := units_add_count hwindow hidle
  have hcap : quota.cap ≤ quota.count.toNat := by
    rw [Quota.cap, Nat.cast_le]
    exact UInt64.le_iff_toNat_le.mp hburst
  have hcount : (0 : ℚ) ≤ quota.count.toNat := Nat.cast_nonneg _
  rw [Bucket.levelAt_of_le (by linarith)]
  apply min_eq_right
  linarith

/-- A stored bucket is found as it is, or dropped once it would be full. -/
theorem Store.matches_update {quota : Quota}
    (hwindow : quota.window.nanos ≠ 0) (hburst : quota.burst ≤ quota.count)
    (entries : K → Option Entry) (key : K) {bucket : Bucket}
    (htokens : 0 ≤ bucket.tokens) :
    (⟨quota, Function.update entries key
      (some ⟨bucket, bucket.lastUpdate⟩)⟩ : Store K).Matches
        key quota bucket where
  quota_eq := rfl
  nonneg := htokens
  level_eq := by
    intro now
    simp only [Store.found, Store.lookup, Function.update_self]
    split
    next hexpired =>
      rw [Option.getD_none, Bucket.new_levelAt]
      exact (Bucket.levelAt_of_idle hwindow hburst htokens
        (by simpa [Entry.expired] using hexpired)).symm
    next => rw [Option.getD_some]

theorem Store.Matches.decisions_eq {store : Store K} {key : K} {quota : Quota}
    {bucket : Bucket} (hmatches : store.Matches key quota bucket)
    (hwindow : quota.window.nanos ≠ 0) (hburst : quota.burst ≤ quota.count)
    (calls : List Call) :
    store.decisions key calls = bucket.decisions quota calls := by
  induction calls generalizing store bucket with
  | nil => rfl
  | cons call rest ih =>
      obtain ⟨rfl, hnonneg, hlevel⟩ := hmatches
      have hsame := Bucket.tryConsume_congr (hlevel call.now) call.cost
      simp only [Store.decisions, Bucket.decisions]
      rcases store.consume_cases key call.now call.cost with
        ⟨hpanic, hconsume⟩ | ⟨next, decision, hnext, hconsume⟩
      · rw [hsame] at hpanic
        rw [hconsume]
        cases hbucket : bucket.tryConsume call.now store.quota call.cost with
        | mk after outcome =>
            rw [hbucket] at hpanic
            simp only at hpanic
            rw [hpanic]
      · rw [hsame] at hnext
        have hlast : next.lastUpdate = call.now := by
          have := bucket.tryConsume_lastUpdate call.now store.quota call.cost
          rwa [hnext] at this
        have htokens : 0 ≤ next.tokens := by
          have := Bucket.tryConsume_tokens_nonneg hnonneg call.now
            store.quota call.cost
          rwa [hnext] at this
        have hmatchesNext := Store.matches_update hwindow hburst
          store.entries key htokens
        rw [hlast] at hmatchesNext
        rw [hconsume, hnext]
        simp only
        rw [ih hmatchesNext]

theorem expiryLossless_of_burst_le_count {quota : Quota}
    (hwindow : quota.window.nanos ≠ 0) (hburst : quota.burst ≤ quota.count)
    (key : K) : ExpiryLossless key quota := by
  intro calls _
  cases calls with
  | nil => rfl
  | cons call rest =>
      exact (Store.new_matches key quota call.now).decisions_eq
        hwindow hburst (call :: rest)

/-! ## Larger bursts -/

/-- Spend one token more than a window refills, then ask again one window
later. -/
def drainThenIdle (quota : Quota) (start later : Instant) : List Call :=
  [⟨start, quota.count + 1⟩, ⟨later, 0⟩]

def drained (quota : Quota) (start : Instant) : Bucket :=
  ⟨quota.cap - (quota.count.toNat + 1), start⟩

theorem count_add_one_toNat {quota : Quota}
    (hburst : quota.count < quota.burst) :
    (quota.count + 1).toNat = quota.count.toNat + 1 := by
  have hlt := UInt64.lt_iff_toNat_lt.mp hburst
  have hlimit := quota.burst.toNat_lt
  rw [UInt64.toNat_add]
  exact Nat.mod_eq_of_lt (by simpa using by omega)

theorem count_add_one_le_cap {quota : Quota}
    (hburst : quota.count < quota.burst) :
    (quota.count.toNat : ℚ) + 1 ≤ quota.cap := by
  rw [Quota.cap]
  exact_mod_cast UInt64.lt_iff_toNat_lt.mp hburst

theorem tryConsume_drain {quota : Quota}
    (hburst : quota.count < quota.burst) (start : Instant)
    {drainTime : Duration}
    (hdrainTime : secondsToRefill (quota.count.toNat + 1)
      (refillPerSecond quota) = some drainTime) :
    (Bucket.new start quota).tryConsume start quota (quota.count + 1) =
      (drained quota start,
        some ⟨true, saturateU64 ⌊quota.cap - (quota.count.toNat + 1)⌋,
          drainTime, none⟩) := by
  have hcost : ((quota.count + 1).toNat : ℚ) = quota.count.toNat + 1 := by
    rw [count_add_one_toNat hburst]
    push_cast
    rfl
  have hdrain := Bucket.tryConsume_of_le (quota.count + 1)
    (Bucket.new_levelAt start start quota)
    (by rw [hcost]; exact count_add_one_le_cap hburst)
    (by rw [hcost, sub_sub_cancel]; exact hdrainTime)
  rw [hcost] at hdrain
  exact hdrain

theorem drained_levelAt {quota : Quota}
    (hwindow : quota.window.nanos ≠ 0) (start later : Instant)
    (hlater : later.nanos = start.nanos + quota.window.nanos) :
    (drained quota start).levelAt quota later = quota.cap - 1 := by
  have hpos : (quota.window.nanos : ℚ) ≠ 0 := by exact_mod_cast hwindow
  have hcount : (0 : ℚ) ≤ quota.count.toNat := Nat.cast_nonneg _
  have hgain : quota.units later - quota.units start = quota.count.toNat := by
    rw [Quota.units_sub, hlater]
    push_cast
    field_simp
    ring
  unfold drained
  rw [Bucket.levelAt_of_le (by simp only; linarith)]
  simp only
  rw [hgain, min_eq_left (by linarith)]
  ring

theorem undroppedDecisions_drainThenIdle {quota : Quota}
    (hwindow : quota.window.nanos ≠ 0) (hburst : quota.count < quota.burst)
    {start later : Instant}
    (hlater : later.nanos = start.nanos + quota.window.nanos)
    {drainTime unitTime : Duration}
    (hdrainTime : secondsToRefill (quota.count.toNat + 1)
      (refillPerSecond quota) = some drainTime)
    (hunitTime : secondsToRefill 1 (refillPerSecond quota) = some unitTime) :
    undroppedDecisions quota (drainThenIdle quota start later) =
      some [⟨true, saturateU64 ⌊quota.cap - (quota.count.toNat + 1)⌋,
          drainTime, none⟩,
        ⟨true, saturateU64 ⌊quota.cap - 1⌋, unitTime, none⟩] := by
  have hcap := count_add_one_le_cap hburst
  have hcount : (0 : ℚ) ≤ quota.count.toNat := Nat.cast_nonneg _
  have hkept := Bucket.tryConsume_of_le 0
    (drained_levelAt hwindow start later hlater)
    (by simp only [UInt64.toNat_zero, Nat.cast_zero]; linarith)
    (by simpa using hunitTime)
  simp only [undroppedDecisions, drainThenIdle, Bucket.decisions,
    tryConsume_drain hburst start hdrainTime, hkept]
  simp

theorem Store.decisions_drainThenIdle {quota : Quota}
    (hburst : quota.count < quota.burst) {start later : Instant}
    (hlater : later.nanos = start.nanos + quota.window.nanos)
    {drainTime : Duration}
    (hdrainTime : secondsToRefill (quota.count.toNat + 1)
      (refillPerSecond quota) = some drainTime) (key : K) :
    (Store.new K quota).decisions key (drainThenIdle quota start later) =
      some [⟨true, saturateU64 ⌊quota.cap - (quota.count.toNat + 1)⌋,
          drainTime, none⟩,
        ⟨true, quota.burst, Duration.zero, none⟩] := by
  have hfirst : (Store.new K quota).consume key start (quota.count + 1) =
      (⟨quota, Function.update (fun _ => none) key
        (some ⟨drained quota start, start⟩)⟩, _) :=
    Store.consume_of_tryConsume (tryConsume_drain hburst start hdrainTime)
  have hfound : Store.found (⟨quota, Function.update (fun _ => none) key
      (some ⟨drained quota start, start⟩)⟩ : Store K)
        key later = Bucket.new later quota := by
    simp [Store.found, Store.lookup, Entry.expired, hlater]
  have hrebuilt := Bucket.tryConsume_of_le 0
    (Bucket.new_levelAt later later quota) (by simpa using quota.cap_nonneg)
    (secondsToRefill_of_nonpos (by simp) _)
  have hsecond := Store.consume_of_tryConsume (by rw [hfound]; exact hrebuilt)
  simp only [drainThenIdle, Store.decisions, hfirst, hsecond]
  simp [saturateU64_cap]

theorem not_expiryLossless {quota : Quota}
    (hcount : quota.count ≠ 0) (hwindow : quota.window.nanos ≠ 0)
    (hburst : quota.count < quota.burst)
    (hrange : (quota.count.toNat + 1) * quota.window.nanos ≤
      (durationLimit - 1) * quota.count.toNat) (key : K) :
    ¬ ExpiryLossless key quota := by
  intro hlossless
  have hspan : (durationLimit : ℤ) = 2 * instantLimit := by decide
  have hlimit : (0 : ℤ) < instantLimit := by decide
  have hwindowLt : (quota.window.nanos : ℤ) < durationLimit := by
    exact_mod_cast quota.window.inRange
  let start : Instant := ⟨-instantLimit, le_rfl, by omega⟩
  let later : Instant :=
    ⟨-instantLimit + quota.window.nanos, by omega, by omega⟩
  have hcountPos : (0 : ℚ) < quota.count.toNat := by
    exact_mod_cast Quota.count_pos hcount
  have hdrainWait : quota.nanosFor (quota.count.toNat + 1) ≤
      (durationLimit - 1 : ℕ) := by
    rw [Quota.nanosFor, div_le_iff₀ hcountPos]
    exact_mod_cast hrange
  have hunitWait : quota.nanosFor 1 ≤ (durationLimit - 1 : ℕ) := by
    refine le_trans ?_ hdrainWait
    unfold Quota.nanosFor
    gcongr
    linarith
  obtain ⟨drainTime, hdrainTime⟩ := Option.isSome_iff_exists.mp
    (secondsToRefill_isSome hcount hwindow hdrainWait)
  obtain ⟨unitTime, hunitTime⟩ := Option.isSome_iff_exists.mp
    (secondsToRefill_isSome hcount hwindow hunitWait)
  have hsorted : (drainThenIdle quota start later).Pairwise
      fun a b => a.now ≤ b.now := by
    simp [drainThenIdle, Instant.le_def, start, later]
  have hequal := hlossless _ hsorted
  rw [Store.decisions_drainThenIdle hburst rfl hdrainTime key,
    undroppedDecisions_drainThenIdle hwindow hburst rfl hdrainTime
      hunitTime] at hequal
  have hremaining : quota.burst = saturateU64 ⌊quota.cap - 1⌋ := by
    simp only [Option.some.injEq, List.cons.injEq, Decision.mk.injEq] at hequal
    exact hequal.2.1.2.1
  have hburstPos := UInt64.lt_iff_toNat_lt.mp hburst
  rw [← UInt64.toNat_inj, saturateU64_floor (sub_le_self _ zero_le_one),
    Nat.floor_sub_one, Quota.floor_cap] at hremaining
  omega

/-- Dropping idle buckets changes no decision when the burst is at most the
count, and only then, up to windows so long that the refill time of `count + 1`
tokens is no `Duration`. -/
theorem expiryLossless_iff_burst_le_count (quota : Quota)
    (hcount : quota.count ≠ 0) (hwindow : quota.window ≠ Duration.zero)
    (key : K) :
    (quota.burst ≤ quota.count → ExpiryLossless key quota) ∧
      (ExpiryLossless key quota →
        quota.burst ≤ quota.count ∨
          (durationLimit - 1) * quota.count.toNat <
            (quota.count.toNat + 1) * quota.window.nanos) := by
  have hnanos := (Duration.nanos_pos hwindow).ne'
  refine ⟨fun hburst => expiryLossless_of_burst_le_count hnanos hburst key, ?_⟩
  intro hlossless
  by_contra hneither
  obtain ⟨hburst, hrange⟩ := not_or.mp hneither
  exact not_expiryLossless hcount hnanos (UInt64.not_le.mp hburst)
    (not_lt.mp hrange) key hlossless

theorem expiryLossless_perSecond :
    ExpiryLossless () (Quota.perSecond 10) :=
  (expiryLossless_iff_burst_le_count (Quota.perSecond 10)
    (by decide) (by decide) ()).1 (by decide)

/-- One token a second with a burst of ten: drained and left alone for a
second, the store grants the burst again. -/
theorem idleExpiry_restores_burst :
    ¬ ∀ quota : Quota, quota.count ≠ 0 → quota.window ≠ Duration.zero →
      ExpiryLossless () quota := by
  intro hclaim
  have hequal := hclaim ((Quota.perSecond 1).allowBurst 10)
    (by decide) (by decide)
    [⟨Instant.atSec 0, 10⟩, ⟨Instant.atSec 1, 10⟩] (by decide)
  exact absurd hequal (by decide +kernel)

end TrilliumRatelimit
