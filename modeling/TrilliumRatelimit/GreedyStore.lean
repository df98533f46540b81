import TrilliumRatelimit.BoundedTraffic
import TrilliumRatelimit.ExtraRequests
import TrilliumRatelimit.GreedyLevel
import TrilliumRatelimit.NetworkKey

/-!
# What a store admits

As long as no bucket is lost, a partition of the store is a capped level.  So
it admits as many of its requests as any choice among them that fits the
quota.  A client whose requests share a bucket with others', or that is held
to a smaller quota, is admitted no more than one with a bucket of its own.
-/

namespace TrilliumRatelimit

open ArrivalCurve CappedLevel

/-- A request, with whatever its partition is told by. -/
structure SourcedCall (Source : Type*) where
  source : Source
  now : Instant
  deriving DecidableEq

section

variable {Source K : Type*} [DecidableEq K]

/-- The requests of a run that are allowed. -/
def Store.admitted (partition : Source → K) :
    Store K → List (SourcedCall Source) → List (SourcedCall Source)
  | _, [] => []
  | store, call :: rest =>
      let (next, decision) := store.consume (partition call.source) call.now 1
      if decision.any Decision.allowed
      then call :: Store.admitted partition next rest
      else Store.admitted partition next rest

/-- The requests of one partition. -/
def callsOf (partition : Source → K) (key : K)
    (calls : List (SourcedCall Source)) : List (SourcedCall Source) :=
  calls.filter fun call => partition call.source = key

def timesOf (partition : Source → K) (key : K)
    (calls : List (SourcedCall Source)) : List Instant :=
  (callsOf partition key calls).map SourcedCall.now

/-- The requests of each partition are in clock order. -/
def InClockOrder (partition : Source → K)
    (calls : List (SourcedCall Source)) : Prop :=
  calls.Pairwise fun a b =>
    partition a.source = partition b.source → a.now ≤ b.now

instance (partition : Source → K) (calls : List (SourcedCall Source)) :
    Decidable (InClockOrder partition calls) :=
  inferInstanceAs (Decidable (calls.Pairwise _))

theorem Store.admitted_cons (partition : Source → K) (store : Store K)
    (call : SourcedCall Source) (rest : List (SourcedCall Source)) :
    store.admitted partition (call :: rest) =
      if (store.consume (partition call.source) call.now 1).2.any
          Decision.allowed
      then call :: Store.admitted partition
        (store.consume (partition call.source) call.now 1).1 rest
      else Store.admitted partition
        (store.consume (partition call.source) call.now 1).1 rest := rfl

theorem Store.admitted_sublist (partition : Source → K) (store : Store K)
    (calls : List (SourcedCall Source)) :
    (store.admitted partition calls).Sublist calls := by
  induction calls generalizing store with
  | nil => exact List.Sublist.slnil
  | cons call rest ih =>
      rw [Store.admitted_cons]
      split
      · exact (ih _).cons_cons call
      · exact (ih _).cons call

theorem InClockOrder.callsOf {partition : Source → K}
    {calls : List (SourcedCall Source)} (h : InClockOrder partition calls)
    (key : K) :
    (callsOf partition key calls).Pairwise fun a b => a.now ≤ b.now := by
  refine (h.filter _).imp_of_mem ?_
  intro a b ha hb hle
  have hfirst := List.of_mem_filter ha
  have hsecond := List.of_mem_filter hb
  rw [decide_eq_true_eq] at hfirst hsecond
  exact hle (hfirst.trans hsecond.symm)

end

/-! ## A partition is a capped level -/

theorem Quota.grants_iff_one_le {quota : Quota}
    (hwindow : quota.window ≠ Duration.zero)
    (hburst : quota.burst ≤ quota.count) (level : ℚ) :
    quota.grants level = true ↔ 1 ≤ level := by
  have hcap : quota.nanosFor quota.cap ≤ quota.window.nanos := by
    have hle : quota.cap ≤ quota.count.toNat :=
      Nat.cast_le.mpr (UInt64.le_iff_toNat_le.mp hburst)
    have hpos : (0 : ℚ) ≤ quota.window.nanos := Nat.cast_nonneg _
    rw [Quota.nanosFor]
    refine div_le_of_le_mul₀ (Nat.cast_nonneg _) hpos ?_
    rw [mul_comm]
    gcongr
  have hwait : (secondsToRefill quota.cap (refillPerSecond quota)).isSome := by
    have hround := roundHalfEven_mono hcap
    have hrange := quota.window.inRange
    rw [roundHalfEven_natCast] at hround
    rw [secondsToRefill_eq (Duration.nanos_pos hwindow).ne' quota.cap_nonneg,
      Duration.ofNanos?_isSome_iff]
    omega
  rw [Quota.grants_iff, and_iff_left_iff_imp]
  exact fun hone => secondsToRefill_isSome_mono (by linarith) hwait

section

variable {K : Type*} [DecidableEq K] {quota : Quota} {store : Store K}
  {key : K} {last : Instant} {meter : Meter ℚ}

/-- The key's level is the meter's. -/
structure Store.Mirrors (quota : Quota) (store : Store K) (key : K)
    (last : Instant) (meter : Meter ℚ) : Prop where
  onTime : store.OnTime quota key last
  level : store.level key last = meter.levelAt quota.cap (quota.units last)
  mark : meter.mark ≤ quota.units last

omit [DecidableEq K] in
theorem Store.Mirrors.advance (h : store.Mirrors quota key last meter)
    {now : Instant} (hle : last ≤ now) :
    store.Mirrors quota key now meter := by
  obtain ⟨honTime, hlevel, hmark⟩ := h
  have hunits := quota.units_mono hle
  obtain ⟨hnext, hnow⟩ := honTime.advance hle
  refine ⟨hnext, ?_, hmark.trans hunits⟩
  have hmeter : (⟨meter.levelAt quota.cap (quota.units last),
      quota.units last⟩ : Meter ℚ).mark ≤ quota.units now := hunits
  rw [hnow, hlevel, ← Meter.levelAt_levelAt hmark hunits,
    Meter.levelAt_of_mark_le _ hmeter]

theorem Store.Mirrors.consume {now : Instant}
    (h : store.Mirrors quota key now meter)
    (hwindow : quota.window ≠ Duration.zero)
    (hburst : quota.burst ≤ quota.count) :
    ((store.consume key now 1).2.any Decision.allowed = true ↔
        1 ≤ meter.levelAt quota.cap (quota.units now)) ∧
      (store.consume key now 1).1.Mirrors quota key now
        (meter.spend quota.cap (quota.units now) 1) := by
  obtain ⟨honTime, hlevel, hmark⟩ := h
  obtain ⟨hnext, hafter⟩ := honTime.consume hwindow hburst
  have hgrants := Quota.grants_iff_one_le hwindow hburst (store.level key now)
  constructor
  · rw [← hlevel, ← hgrants, Quota.grants, ← honTime.tended.found_eq_level
      hwindow hburst, Store.consume_decision, honTime.tended.solvent.quota_eq]
  · refine ⟨hnext, ?_, (meter.spend_mark _ _ _).le⟩
    rw [hafter, Meter.levelAt_spend quota.cap meter _ zero_le_one, ← hlevel]
    simp only [hgrants]

theorem Store.Mirrors.other (h : store.Mirrors quota key last meter)
    {other : K} (hne : other ≠ key) (now : Instant) :
    (store.consume other now 1).1.Mirrors quota key last meter := by
  obtain ⟨honTime, hlevel, hmark⟩ := h
  have hreading : StoreEvent.reading key (.consume other now 1) = none :=
    if_neg hne
  obtain ⟨hnext, _, hkept⟩ := honTime.other hreading
  exact ⟨hnext, (hkept (by simp)).trans hlevel, hmark⟩

theorem Store.mirrors_new (quota : Quota) (key : K) :
    (Store.new K quota).Mirrors quota key Instant.earliest
      ⟨quota.cap, quota.units Instant.earliest⟩ where
  onTime := by
    have hused : (Store.new K quota).Used quota := .refl
    exact ⟨hused.tended, by simp [Store.held, Store.new, EntryBefore]⟩
  level := by
    rw [Meter.levelAt_full, Store.level]
    exact entryLevel_none quota _
  mark := le_rfl

theorem Store.Mirrors.admitted {Source : Type*} {partition : Source → K}
    (hwindow : quota.window ≠ Duration.zero)
    (hburst : quota.burst ≤ quota.count)
    {calls : List (SourcedCall Source)}
    (h : store.Mirrors quota key last meter)
    (hfrom : ∀ call ∈ callsOf partition key calls, last ≤ call.now)
    (horder : InClockOrder partition calls) :
    (callsOf partition key (store.admitted partition calls)).map
        (fun call => quota.units call.now) =
      ArrivalCurve.admitted quota.cap meter
        ((callsOf partition key calls).map fun call =>
          quota.units call.now) := by
  induction calls generalizing store last meter with
  | nil => rfl
  | cons call rest ih =>
      obtain ⟨hlater, horder⟩ := List.pairwise_cons.mp horder
      rw [Store.admitted_cons]
      by_cases hkey : partition call.source = key
      · subst hkey
        have hcalls : callsOf partition (partition call.source)
            (call :: rest) =
              call :: callsOf partition (partition call.source) rest := by
          simp [callsOf]
        rw [hcalls] at hfrom ⊢
        obtain ⟨hallowed, hnext⟩ :=
          (h.advance (hfrom call List.mem_cons_self)).consume hwindow hburst
        have hrest := ih hnext ?_ horder
        · rw [List.map_cons, ArrivalCurve.admitted, ← hrest]
          by_cases hone : 1 ≤ meter.levelAt quota.cap (quota.units call.now)
          · rw [if_pos (hallowed.mpr hone), if_pos hone]
            simp [callsOf]
          · rw [if_neg fun hany => hone (hallowed.mp hany), if_neg hone]
        · intro other hother
          have hsame := List.of_mem_filter hother
          rw [decide_eq_true_eq] at hsame
          exact hlater other (List.mem_of_mem_filter hother) hsame.symm
      · have hcalls (more : List (SourcedCall Source)) :
            callsOf partition key (call :: more) =
              callsOf partition key more := by
          simp [callsOf, hkey]
        rw [hcalls] at hfrom ⊢
        rw [← ih (h.other hkey call.now) hfrom horder]
        split
        · rw [hcalls]
        · rfl

end

/-! ## What fits the quota -/

/-- The requests at these times fit the burst and the rate. -/
def Quota.Fits (quota : Quota) (times : List Instant) : Prop :=
  Bounded quota.cap (quota.count.toNat / quota.window.nanos)
    (arrivalStream times)

section

variable {Source K : Type*} [DecidableEq K] {quota : Quota}
  {partition : Source → K} {calls : List (SourcedCall Source)}

theorem arrivalStream_eq (times : List Instant) :
    arrivalStream times =
      unitRequests (times.map fun time => (time.nanos : ℚ)) := by
  rw [unitRequests, List.map_map]
  rfl

theorem Quota.fits_iff (hwindow : quota.window ≠ Duration.zero)
    (hburst : quota.burst ≤ quota.count) (times : List Instant) :
    quota.Fits times ↔
      Bounded quota.cap 1 (unitRequests (times.map quota.units)) := by
  by_cases hcount : quota.count = 0
  · have hcap : quota.cap = 0 := by
      rw [hcount, UInt64.le_iff_toNat_le, UInt64.toNat_zero] at hburst
      exact Nat.cast_eq_zero.mpr (Nat.le_zero.mp hburst)
    rw [Quota.Fits, arrivalStream_eq, hcap]
    cases times with
    | nil =>
        exact iff_of_true (Bounded.nil le_rfl (by positivity))
          (Bounded.nil le_rfl zero_le_one)
    | cons time rest =>
        refine iff_of_false ?_ ?_
        · exact fun h => zero_lt_one.not_ge (one_le_of_bounded h)
        · exact fun h => zero_lt_one.not_ge (one_le_of_bounded h)
  · rw [Quota.Fits, ← Quota.bounded_units_iff hcount hwindow, unitRequests,
      List.map_map]
    rfl

theorem Quota.Fits.sublist {chosen times : List Instant}
    (h : quota.Fits times) (hsub : chosen.Sublist times) :
    quota.Fits chosen :=
  Bounded.sublist h (hsub.map _) (by simp [arrivalStream])

theorem Quota.Fits.mono {larger : Quota} {times : List Instant}
    (h : quota.Fits times) (hburst : quota.burst ≤ larger.burst)
    (hrate : (quota.count.toNat / quota.window.nanos : ℚ) ≤
      larger.count.toNat / larger.window.nanos) :
    larger.Fits times :=
  Bounded.mono h (Nat.cast_le.mpr (UInt64.le_iff_toNat_le.mp hburst)) hrate

theorem InClockOrder.sorted (h : InClockOrder partition calls) (key : K) :
    ((timesOf partition key calls).map quota.units).Pairwise (· ≤ ·) := by
  rw [timesOf, List.map_map, List.pairwise_map]
  exact (h.callsOf key).imp fun hle => quota.units_mono hle

variable (hwindow : quota.window ≠ Duration.zero)
  (hburst : quota.burst ≤ quota.count)

include hwindow hburst

/-- A store that starts empty decides on the requests of a key as a full level
does. -/
theorem Store.timesOf_admitted (horder : InClockOrder partition calls)
    (key : K) :
    (timesOf partition key
        ((Store.new K quota).admitted partition calls)).map quota.units =
      ArrivalCurve.admitted quota.cap
        ⟨quota.cap, quota.units Instant.earliest⟩
        ((timesOf partition key calls).map quota.units) := by
  have h := (Store.mirrors_new quota key).admitted hwindow hburst
    (fun call _ => call.now.earliest_le) horder
  rw [timesOf, timesOf, List.map_map, List.map_map]
  exact h

theorem Store.fits_admitted (horder : InClockOrder partition calls)
    (key : K) :
    quota.Fits (timesOf partition key
      ((Store.new K quota).admitted partition calls)) := by
  rw [Quota.fits_iff hwindow hburst,
    Store.timesOf_admitted hwindow hburst horder]
  apply bounded_admitted quota.cap_nonneg _ (horder.sorted key)
  simp only [List.forall_mem_map]
  exact fun time _ => quota.units_mono time.earliest_le

theorem Store.length_le_admitted (horder : InClockOrder partition calls)
    {key : K} {chosen : List Instant}
    (hsub : chosen.Sublist (timesOf partition key calls))
    (hfits : quota.Fits chosen) :
    chosen.length ≤ (timesOf partition key
      ((Store.new K quota).admitted partition calls)).length := by
  rw [Quota.fits_iff hwindow hburst] at hfits
  rw [← List.length_map quota.units, ← List.length_map quota.units,
    Store.timesOf_admitted hwindow hburst horder]
  apply ArrivalCurve.length_le_admitted (hsub.map _) hfits _
    (horder.sorted key)
  simp only [List.forall_mem_map]
  exact fun time _ => quota.units_mono time.earliest_le

/-- What the store admits of the requests of a key fits the quota, and no
choice among them that fits is longer. -/
theorem store_admits_most (horder : InClockOrder partition calls) (key : K) :
    let admitted := timesOf partition key
      ((Store.new K quota).admitted partition calls)
    admitted.Sublist (timesOf partition key calls) ∧ quota.Fits admitted ∧
      ∀ chosen : List Instant,
        chosen.Sublist (timesOf partition key calls) → quota.Fits chosen →
          chosen.length ≤ admitted.length := by
  refine ⟨?_, Store.fits_admitted hwindow hburst horder key, ?_⟩
  · exact ((Store.admitted_sublist partition _ calls).filter _).map _
  · intro chosen hsub hfits
    exact Store.length_le_admitted hwindow hburst horder hsub hfits

end

/-- Three requests at once and one a second later, at two a second: two of the
first go through, and the last. -/
theorem store_admits_most_burst :
    let times := [Instant.atSec 0, Instant.atSec 0, Instant.atSec 0,
      Instant.atSec 1]
    let admitted := [Instant.atSec 0, Instant.atSec 0, Instant.atSec 1]
    let calls : List (SourcedCall Unit) := times.map fun now => ⟨(), now⟩
    timesOf id () ((Store.new Unit (Quota.perSecond 2)).admitted id calls) =
        admitted ∧
      (Quota.perSecond 2).Fits admitted ∧
      ∀ chosen : List Instant, chosen.Sublist times →
        (Quota.perSecond 2).Fits chosen → chosen.length ≤ 3 := by
  intro times admitted calls
  have hadmitted : timesOf id () ((Store.new Unit
      (Quota.perSecond 2)).admitted id calls) = admitted := by
    decide +kernel
  have hwindow : (Quota.perSecond 2).window ≠ Duration.zero := by decide
  have horder : InClockOrder id calls := by decide +kernel
  obtain ⟨_, hfits, hmost⟩ :=
    store_admits_most hwindow (by decide) horder ()
  rw [hadmitted] at hfits hmost
  exact ⟨hadmitted, hfits, hmost⟩

section

variable {Source K : Type*} [DecidableEq K] {quota : Quota}
  {partition : Source → K} {calls : List (SourcedCall Source)}

/-- No client is admitted fewer requests with a bucket of its own and a larger
quota. -/
theorem finer_keys_admit_no_fewer (hwindow : quota.window ≠ Duration.zero)
    (hburst : quota.burst ≤ quota.count) {K' : Type*} [DecidableEq K']
    {larger : Quota} (hwindow' : larger.window ≠ Duration.zero)
    (hburst' : larger.burst ≤ larger.count)
    (hmore : quota.burst ≤ larger.burst)
    (hrate : (quota.count.toNat / quota.window.nanos : ℚ) ≤
      larger.count.toNat / larger.window.nanos)
    (coarse : K → K')
    (horder : InClockOrder (coarse ∘ partition) calls) (key : K) :
    (timesOf partition key ((Store.new K' quota).admitted
        (coarse ∘ partition) calls)).length ≤
      (timesOf partition key
        ((Store.new K larger).admitted partition calls)).length := by
  have hfine : InClockOrder partition calls :=
    horder.imp fun hle heq => hle (congrArg coarse heq)
  have hshared := Store.fits_admitted hwindow hburst horder (coarse key)
  apply Store.length_le_admitted hwindow' hburst' hfine
  · exact ((Store.admitted_sublist _ _ calls).filter _).map _
  · refine (hshared.sublist (List.Sublist.map _ ?_)).mono hmore hrate
    apply List.monotone_filter_right
    intro call hcall
    rw [decide_eq_true_eq] at hcall ⊢
    exact congrArg coarse hcall

end

/-- Two addresses of one network, with a request each.  Metered by network the
second is denied. -/
theorem finer_keys_admit_no_fewer_network :
    let host (last : UInt16) : IpAddr :=
      .v6 (Ipv6Addr.new 0x2001 0xdb8 0 0 0 0 0 last)
    let calls : List (SourcedCall IpAddr) :=
      [⟨host 1, Instant.atSec 0⟩, ⟨host 2, Instant.atSec 0⟩]
    let store := Store.new IpAddr (Quota.perSecond 1)
    (timesOf id (host 2) (store.admitted networkKey calls)).length = 0 ∧
      (timesOf id (host 2) (store.admitted networkKey calls)).length ≤
        (timesOf id (host 2) (store.admitted id calls)).length := by
  intro host calls store
  refine ⟨by decide +kernel, ?_⟩
  exact finer_keys_admit_no_fewer (by decide) (by decide) (by decide)
    (by decide) (UInt64.le_refl _) le_rfl networkKey (by decide +kernel)
    (host 2)

end TrilliumRatelimit
