import TrilliumRatelimit.CapacityEviction
import TrilliumRatelimit.StoreRun

/-!
# Sending more requests

Requests that are denied cost nothing, but those that are admitted come out of
the same bucket as the ones after them, so an extra request may well turn an
admission further on into a denial.  In total it cannot lose: with any
requests of a key added to a run, no fewer are admitted, and at most as many
more as were added.

The two levels are `Coupled`, as those of a run with evictions and one
without.
-/

namespace TrilliumRatelimit

open CappedLevel

/-- The second run is the first without some requests of the key. -/
inductive Thinned {K : Type*} (key : K) :
    List (StoreEvent K) → List (StoreEvent K) → ℕ → Prop
  | nil : Thinned key [] [] 0
  | keep {full sparse : List (StoreEvent K)} {skipped : ℕ}
      (event : StoreEvent K) :
      Thinned key full sparse skipped →
        Thinned key (event :: full) (event :: sparse) skipped
  | skip {full sparse : List (StoreEvent K)} {skipped : ℕ}
      (now : Instant) :
      Thinned key full sparse skipped →
        Thinned key (.consume key now 1 :: full) sparse (skipped + 1)

def StoreEvent.IsUnit {K : Type*} (key : K) (event : StoreEvent K) : Prop :=
  ∀ now cost, event = .consume key now cost → cost = 1

section

variable {K : Type*} [DecidableEq K] {quota : Quota} {store : Store K}

/-- A store of which no bucket of the key is lost but by eviction, at a clock
reading no earlier than any before. -/
structure Store.OnTime (quota : Quota) (store : Store K) (key : K)
    (last : Instant) : Prop where
  tended : store.Tended quota
  before : EntryBefore quota (store.held key) last

/-- The level a request of the key meets. -/
def Store.level (store : Store K) (key : K) (now : Instant) : ℚ :=
  entryLevel store.quota (store.held key) now

omit [DecidableEq K] in
/-- Expiry goes unnoticed while the burst is within the count. -/
theorem Store.Tended.found_eq_level (h : store.Tended quota)
    (hwindow : quota.window ≠ Duration.zero)
    (hburst : quota.burst ≤ quota.count) (key : K) (now : Instant) :
    (store.found key now).levelAt quota now = store.level key now := by
  have hfound := h.solvent.foundAt_level key now now
  rw [Store.level, h.solvent.quota_eq]
  change (store.foundAt key now now).levelAt quota now = _
  rw [hfound]
  split
  next hexpired =>
    obtain ⟨entry, hentry, hexpired⟩ := (Option.any_eq_true _ _).mp hexpired
    rw [Entry.expired, decide_eq_true_eq, h.lastAccess hentry] at hexpired
    rw [Store.held, hentry, Option.map_some, entryLevel_some]
    exact (Bucket.levelAt_of_idle (Duration.nanos_pos hwindow).ne' hburst
      (h.solvent.nonneg hentry) hexpired).symm
  next => rfl

variable {key : K} {last now : Instant}

omit [DecidableEq K] in
theorem Store.OnTime.advance (h : store.OnTime quota key last)
    (hle : last ≤ now) :
    store.OnTime quota key now ∧
      store.level key now =
        min (store.level key last + (quota.units now - quota.units last))
          quota.cap := by
  have hunits := quota.units_mono hle
  refine ⟨⟨h.tended, h.before.mono hunits⟩, ?_⟩
  rw [Store.level, Store.level, h.tended.solvent.quota_eq]
  exact entryLevel_later h.before hunits

theorem Store.OnTime.grantedBy_eq (h : store.OnTime quota key now)
    (hwindow : quota.window ≠ Duration.zero)
    (hburst : quota.burst ≤ quota.count) :
    store.grantedBy key (.consume key now 1) =
      if quota.grants (store.level key now) then 1 else 0 := by
  rw [← h.tended.found_eq_level hwindow hburst, Store.grantedBy,
    Store.consume_decision, h.tended.solvent.quota_eq, Quota.grants]
  simp

theorem Store.OnTime.consume (h : store.OnTime quota key now)
    (hwindow : quota.window ≠ Duration.zero)
    (hburst : quota.burst ≤ quota.count) :
    (store.consume key now 1).1.OnTime quota key now ∧
      (store.consume key now 1).1.level key now =
        store.level key now -
          if quota.grants (store.level key now) then 1 else 0 := by
  have htended := h.tended.consume key now 1
  have hfound := h.tended.found_eq_level hwindow hburst key now
  have hdecision := store.consume_decision key now 1
  rw [h.tended.solvent.quota_eq, hfound] at hdecision
  rcases store.consume_cases key now 1 with
    ⟨_, hconsume⟩ | ⟨next, decision, hnext, hconsume⟩
  · rw [hconsume] at hdecision
    have hgrants : quota.grants (store.level key now) = false := by
      simp [Quota.grants, ← hdecision]
    rw [hconsume, hgrants]
    exact ⟨h, by simp⟩
  · rw [hconsume] at hdecision
    have hgrants : quota.grants (store.level key now) =
        decide (1 ≤ store.level key now) := by
      rw [Quota.grants, ← hdecision, Option.any_some,
        Quota.decisionAt_allowed hdecision.symm]
      simp
    rw [h.tended.solvent.quota_eq, Bucket.tryConsume_eq, hfound,
      Prod.mk.injEq] at hnext
    obtain ⟨hbucket, _⟩ := hnext
    have hheld : (store.consume key now 1).1.held key = some next := by
      rw [hconsume]
      simp only [Store.held, Function.update_self, Option.map_some]
    have hupdate : next.lastUpdate = now := by rw [← hbucket]
    refine ⟨⟨htended, ?_⟩, ?_⟩
    · rw [hheld]
      intro bucket hsome
      rw [Option.some.injEq] at hsome
      rw [← hsome, hupdate]
    · have hcap : next.tokens ≤ quota.cap := by
        have hlevel : store.level key now ≤ quota.cap := by
          rw [← hfound]
          exact Meter.levelAt_le_cap _ _ _
        rw [← hbucket]
        simp only
        split
        · exact (sub_le_self _ (Nat.cast_nonneg _)).trans hlevel
        · exact hlevel
      rw [Store.level, htended.solvent.quota_eq, hheld, entryLevel_some,
        Bucket.levelAt_of_le (by rw [hupdate]), hupdate, sub_self, add_zero,
        min_eq_left hcap, hgrants, ← hbucket]
      by_cases hone : 1 ≤ store.level key now
      · simp [hone]
      · simp [hone]

/-- Everything else leaves the level alone, or fills it up. -/
theorem Store.OnTime.other (h : store.OnTime quota key last)
    {event : StoreEvent K} (hevent : event.reading key = none) :
    (store.apply event).OnTime quota key last ∧
      (event = .evict key →
        (store.apply event).level key last = quota.cap) ∧
      (event ≠ .evict key →
        (store.apply event).level key last = store.level key last) := by
  have htended := h.tended.apply event
  have hsame (hheld : (store.apply event).held key = store.held key) :
      (store.apply event).OnTime quota key last ∧
        (store.apply event).level key last = store.level key last := by
    refine ⟨⟨htended, hheld ▸ h.before⟩, ?_⟩
    rw [Store.level, Store.level, htended.solvent.quota_eq, hheld,
      h.tended.solvent.quota_eq]
  cases event with
  | consume other now cost =>
      have hne : other ≠ key := by
        rintro rfl
        simp [StoreEvent.reading] at hevent
      obtain ⟨hontime, hlevel⟩ :=
        hsame (Store.held_consumeAt_of_ne hne now now cost)
      exact ⟨hontime, by simp, fun _ => hlevel⟩
  | evict other =>
      by_cases hkey : other = key
      · subst hkey
        have hheld : (store.apply (.evict other)).held other = none := by
          simp [Store.apply, Store.held, Store.evict]
        refine ⟨⟨htended, ?_⟩, fun _ => ?_, fun hne => absurd rfl hne⟩
        · rw [hheld]
          simp [EntryBefore]
        · rw [Store.level, htended.solvent.quota_eq, hheld, entryLevel_none]
      · have hheld : (store.apply (.evict other)).held key =
            store.held key := by
          simp only [Store.apply, Store.held, Store.evict,
            Function.update_of_ne (Ne.symm hkey)]
        obtain ⟨hontime, hlevel⟩ := hsame hheld
        exact ⟨hontime, by simp [hkey], fun _ => hlevel⟩

/-! ## Both runs -/

/-- Both stores at one clock reading. -/
structure Store.Compared (quota : Quota) (key : K) (last : Instant)
    (fewer more : Store K) (lead credit : ℕ) : Prop where
  fewerOnTime : fewer.OnTime quota key last
  moreOnTime : more.OnTime quota key last
  coupled : Coupled (fewer.level key last) (more.level key last) lead credit

variable {fewer more : Store K} {lead credit : ℕ}

omit [DecidableEq K] in
theorem Store.Compared.advance
    (h : Store.Compared quota key last fewer more lead credit)
    (hle : last ≤ now) :
    Store.Compared quota key now fewer more lead credit := by
  obtain ⟨hfewer, hfewerLevel⟩ := h.fewerOnTime.advance hle
  obtain ⟨hmore, hmoreLevel⟩ := h.moreOnTime.advance hle
  refine ⟨hfewer, hmore, ?_⟩
  rw [hfewerLevel, hmoreLevel]
  exact h.coupled.refill _ _

theorem Store.Compared.other
    (h : Store.Compared quota key last fewer more lead credit)
    {event : StoreEvent K} (hevent : event.reading key = none) :
    Store.Compared quota key last (fewer.apply event) (more.apply event)
      lead credit := by
  obtain ⟨hfewer, hfewerFull, hfewerLevel⟩ := h.fewerOnTime.other hevent
  obtain ⟨hmore, hmoreFull, hmoreLevel⟩ := h.moreOnTime.other hevent
  refine ⟨hfewer, hmore, ?_⟩
  by_cases hevict : event = .evict key
  · rw [hfewerFull hevict, hmoreFull hevict]
    constructor
    · exact le_add_of_nonneg_right (Nat.cast_nonneg _)
    · exact le_add_of_nonneg_right (Nat.cast_nonneg _)
  · rw [hfewerLevel hevict, hmoreLevel hevict]
    exact h.coupled

/-- Whichever of the two grants the request, the lead keeps the count. -/
theorem Store.Compared.request
    (h : Store.Compared quota key now fewer more lead credit)
    (hwindow : quota.window ≠ Duration.zero)
    (hburst : quota.burst ≤ quota.count) :
    ∃ lead' credit' : ℕ,
      Store.Compared quota key now (fewer.consume key now 1).1
        (more.consume key now 1).1 lead' credit' ∧
      more.grantedBy key (.consume key now 1) + lead =
        fewer.grantedBy key (.consume key now 1) + lead' ∧
      lead + credit = lead' + credit' := by
  obtain ⟨hfewer, hfewerLevel⟩ := h.fewerOnTime.consume hwindow hburst
  obtain ⟨hmore, hmoreLevel⟩ := h.moreOnTime.consume hwindow hburst
  obtain ⟨lead', credit', hcoupled, hlead, hsum⟩ :=
    h.coupled.request (fun level => quota.grants level = true)
      (fun hle => quota.grants_mono hle)
  refine ⟨lead', credit', ⟨hfewer, hmore, ?_⟩, ?_, hsum⟩
  · rw [hfewerLevel, hmoreLevel]
    exact hcoupled
  · rw [h.fewerOnTime.grantedBy_eq hwindow hburst,
      h.moreOnTime.grantedBy_eq hwindow hburst]
    exact_mod_cast hlead

/-- A request the first store does not see. -/
theorem Store.Compared.extra
    (h : Store.Compared quota key now fewer more lead credit)
    (hwindow : quota.window ≠ Duration.zero)
    (hburst : quota.burst ≤ quota.count) :
    ∃ lead' credit' : ℕ,
      Store.Compared quota key now fewer (more.consume key now 1).1
        lead' credit' ∧
      more.grantedBy key (.consume key now 1) + lead = lead' ∧
      lead + credit + 1 = lead' + credit' := by
  obtain ⟨hmore, hmoreLevel⟩ := h.moreOnTime.consume hwindow hburst
  rw [h.moreOnTime.grantedBy_eq hwindow hburst]
  by_cases hgrants : quota.grants (more.level key now) = true
  · rw [if_pos hgrants] at hmoreLevel
    refine ⟨lead + 1, credit, ⟨h.fewerOnTime, hmore, ?_⟩, ?_, by omega⟩
    · rw [hmoreLevel]
      exact h.coupled.spend_more
    · rw [if_pos hgrants]
      push_cast
      ring
  · rw [if_neg hgrants, sub_zero] at hmoreLevel
    refine ⟨lead, credit + 1, ⟨h.fewerOnTime, hmore, ?_⟩, ?_, by omega⟩
    · rw [hmoreLevel]
      exact ⟨h.coupled.behind, by push_cast; linarith [h.coupled.ahead]⟩
    · rw [if_neg hgrants, zero_add]

theorem StoreEvent.reading_eq_some_iff
    {event : StoreEvent K} :
    event.reading key = some now ↔
      ∃ cost, event = .consume key now cost := by
  cases event with
  | consume other time cost =>
      by_cases hkey : other = key
      · simp [StoreEvent.reading, hkey]
      · simp [StoreEvent.reading, hkey]
  | evict other => simp [StoreEvent.reading]

theorem Store.grantedBy_of_reading_none {event : StoreEvent K}
    (hevent : event.reading key = none) : store.grantedBy key event = 0 := by
  cases event with
  | consume other now cost =>
      have hne : other ≠ key := by
        rintro rfl
        simp [StoreEvent.reading] at hevent
      simp [Store.grantedBy, hne]
  | evict other => rfl

theorem Thinned.granted_le {full sparse : List (StoreEvent K)} {skipped : ℕ}
    (hthinned : Thinned key full sparse skipped)
    (hwindow : quota.window ≠ Duration.zero)
    (hburst : quota.burst ≤ quota.count)
    (hunit : ∀ event ∈ full, event.IsUnit key)
    (hcompared : Store.Compared quota key last fewer more lead credit)
    (hfrom : ∀ t ∈ full.filterMap (StoreEvent.reading key), last ≤ t)
    (hsorted : (full.filterMap (StoreEvent.reading key)).Pairwise (· ≤ ·)) :
    fewer.granted key sparse ≤ more.granted key full + lead ∧
      more.granted key full ≤
        fewer.granted key sparse + skipped + credit := by
  induction hthinned generalizing last fewer more lead credit with
  | nil => simp [Store.granted]
  | @keep full sparse skipped event _ ih =>
      obtain ⟨hfirst, hrestUnit⟩ := List.forall_mem_cons.mp hunit
      rw [Store.granted, Store.granted]
      cases hreading : event.reading key with
      | none =>
          rw [List.filterMap_cons_none hreading] at hfrom hsorted
          rw [Store.grantedBy_of_reading_none hreading,
            Store.grantedBy_of_reading_none hreading, zero_add, zero_add]
          exact ih hrestUnit (hcompared.other hreading) hfrom hsorted
      | some now =>
          rw [List.filterMap_cons_some hreading] at hfrom hsorted
          obtain ⟨cost, rfl⟩ := StoreEvent.reading_eq_some_iff.mp hreading
          obtain rfl := hfirst now cost rfl
          rw [List.pairwise_cons] at hsorted
          obtain ⟨hlater, hsorted⟩ := hsorted
          obtain ⟨lead', credit', hnext, hlead, hsum⟩ :=
            (hcompared.advance (hfrom now List.mem_cons_self)).request
              hwindow hburst
          have hrest := ih hrestUnit hnext hlater hsorted
          have hcast : (lead : ℚ) + credit = lead' + credit' := by
            exact_mod_cast hsum
          simp only [Store.apply]
          constructor <;> linarith
  | @skip full sparse skipped now _ ih =>
      have hrestUnit := (List.forall_mem_cons.mp hunit).2
      have hreading : StoreEvent.reading key (.consume key now 1) =
          some now := if_pos rfl
      rw [List.filterMap_cons_some hreading] at hfrom hsorted
      rw [List.pairwise_cons] at hsorted
      obtain ⟨hlater, hsorted⟩ := hsorted
      obtain ⟨lead', credit', hnext, hlead, hsum⟩ :=
        (hcompared.advance (hfrom now List.mem_cons_self)).extra
          hwindow hburst
      have hrest := ih hrestUnit hnext hlater hsorted
      have hcast : (lead : ℚ) + credit + 1 = lead' + credit' := by
        exact_mod_cast hsum
      rw [Store.granted, Nat.cast_succ]
      simp only [Store.apply]
      constructor <;> linarith

/-- With more requests of a key, and everything else the same, no fewer are
admitted, and no more than were added to those before. -/
theorem extra_requests_admit_no_fewer
    (hwindow : quota.window ≠ Duration.zero)
    (hburst : quota.burst ≤ quota.count) {full sparse : List (StoreEvent K)}
    {skipped : ℕ} (hthinned : Thinned key full sparse skipped)
    (hunit : ∀ event ∈ full, event.IsUnit key)
    (hsorted : (full.filterMap (StoreEvent.reading key)).Pairwise (· ≤ ·)) :
    (Store.new K quota).granted key sparse ≤
        (Store.new K quota).granted key full ∧
      (Store.new K quota).granted key full ≤
        (Store.new K quota).granted key sparse + skipped := by
  have htended : (Store.new K quota).Tended quota :=
    Store.Used.tended .refl
  have hontime : (Store.new K quota).OnTime quota key Instant.earliest :=
    ⟨htended, by simp [EntryBefore, Store.held, Store.new]⟩
  have hbound := hthinned.granted_le hwindow hburst hunit
    ⟨hontime, hontime, Coupled.refl _⟩ (fun t _ => t.earliest_le) hsorted
  simpa using hbound

end

/-- One request a second: an added request takes the token of the one right
after it, which is then denied, and the next is admitted in both runs. -/
theorem extra_requests_admit_no_fewer_second :
    (Store.new Unit (Quota.perSecond 1)).granted ()
        [.consume () (Instant.atSec 0) 1, .consume () (Instant.atSec 1) 1] ≤
      (Store.new Unit (Quota.perSecond 1)).granted ()
        [.consume () (Instant.atSec 0) 1, .consume () (Instant.atSec 0) 1,
          .consume () (Instant.atSec 1) 1] := by
  refine (extra_requests_admit_no_fewer (by decide) (by decide)
    (.skip _ (.keep _ (.keep _ .nil))) ?_ ?_).1
  · simp [StoreEvent.IsUnit]
  · decide

end TrilliumRatelimit
