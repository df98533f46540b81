import TrilliumRatelimit.StoreRun

/-!
# The store as a journal

What the store is for, without levels and refills: a journal of the calls of
every key.  A call is allowed if it fits the burst, and fits it together with
everything allowed since any earlier allowed call, with the rate times the
time since then added.  The journal of a key is forgotten a window after its
last entry, and may be lost at any time.

The store keeps one number instead and answers the same, on calls that do not
stall before the lock and whose clock readings are in order for each key.  It
panics only where the wait for a whole burst or for the cost is out of range.
-/

namespace TrilliumRatelimit

open CappedLevel Transitions

structure Record where
  now : Instant
  cost : UInt64
  allowed : Bool
  deriving DecidableEq

def Record.toAttempt (quota : Quota) (record : Record) : Attempt ℚ :=
  ⟨quota.units record.now, record.cost.toNat, record.allowed⟩

abbrev Journal (K : Type*) := K → List Record

section

variable {K : Type*}

def Journal.remembered (quota : Quota) (journal : Journal K) (key : K)
    (now : Instant) : List Record :=
  if (journal key).getLast?.any fun last =>
      last.now.nanos + quota.window.nanos ≤ now.nanos
  then [] else journal key

/-- The call conforms to what is remembered of its key. -/
def Journal.Admits (quota : Quota) (journal : Journal K) (key : K)
    (now : Instant) (cost : UInt64) : Prop :=
  Conforms quota.cap
    ((journal.remembered quota key now).map (Record.toAttempt quota))
    (quota.units now) cost.toNat

/-- Neither the burst nor the cost takes longer to refill than a `Duration`
holds. -/
def Quota.FitsWaits (quota : Quota) (cost : UInt64) : Prop :=
  quota.WaitFits quota.cap ∧ quota.WaitFits cost.toNat

variable [DecidableEq K]

/-- A call whose waits do not fit may panic, and leaves no record then. -/
inductive Journal.Step (quota : Quota) :
    Journal K → StoreEvent K → Option Bool → Journal K → Prop
  | decide {journal : Journal K} {key : K} {now : Instant} {cost : UInt64}
      {allowed : Bool} :
      (allowed = true ↔ journal.Admits quota key now cost) →
        Journal.Step quota journal (.consume key now cost) (some allowed)
          (Function.update journal key
            (journal.remembered quota key now ++ [⟨now, cost, allowed⟩]))
  | panic {journal : Journal K} {key : K} {now : Instant} {cost : UInt64} :
      ¬ quota.FitsWaits cost →
        Journal.Step quota journal (.consume key now cost) none journal
  | lose {journal : Journal K} {key : K} :
      Journal.Step quota journal (.evict key) none
        (Function.update journal key [])

/-- The store's answer to an event: whether a call is allowed, unless it
panics. -/
def Store.respond (store : Store K) :
    StoreEvent K → Store K × Option Bool
  | .consume key now cost =>
      ((store.consume key now cost).1,
        (store.consume key now cost).2.map Decision.allowed)
  | .evict key => (store.evict key, none)

/-! ## The simulation -/

/-- A bucket stands for the records of its key, the last of which was made
when the bucket was updated. -/
structure Entry.StandsFor (quota : Quota) (entry : Entry)
    (records : List Record) : Prop where
  last : (records.getLast?).map Record.now = some entry.lastAccess
  lastUpdate : entry.bucket.lastUpdate = entry.lastAccess
  tracks : Tracks quota.cap (entry.bucket.toMeter quota)
    (records.map (Record.toAttempt quota))

structure Store.Simulates (quota : Quota) (store : Store K)
    (journal : Journal K) (events : List (StoreEvent K)) : Prop where
  solvent : store.Solvent quota
  missing : ∀ {key}, store.entries key = none → journal key = []
  stored : ∀ {key entry}, store.entries key = some entry →
    Entry.StandsFor quota entry (journal key)
  inOrder : ∀ key,
    (events.filterMap (StoreEvent.reading key)).Pairwise (· ≤ ·)
  later : ∀ {key entry}, store.entries key = some entry →
    ∀ t ∈ events.filterMap (StoreEvent.reading key), entry.lastAccess ≤ t

variable {quota : Quota} {store : Store K} {journal : Journal K}
  {event : StoreEvent K} {rest : List (StoreEvent K)} {key : K}
  {now : Instant} {cost : UInt64}

theorem Store.Solvent.consume_isSome (h : store.Solvent quota)
    (hwindow : quota.window ≠ Duration.zero) (hfits : quota.FitsWaits cost)
    (key : K) (now : Instant) :
    (store.consume key now cost).2.isSome := by
  have hnanos := (Duration.nanos_pos hwindow).ne'
  have hlevel : 0 ≤ (store.found key now).levelAt quota now :=
    Bucket.levelAt_nonneg (h.found_nonneg key now) now
  have hcap : (secondsToRefill quota.cap (refillPerSecond quota)).isSome :=
    (secondsToRefill_isSome_iff hnanos quota.cap_nonneg).mpr hfits.1
  have hcost :
      (secondsToRefill cost.toNat (refillPerSecond quota)).isSome :=
    (secondsToRefill_isSome_iff hnanos (Nat.cast_nonneg _)).mpr hfits.2
  rw [Store.consume_decision, h.quota_eq, Quota.decisionAt_isSome_iff]
  constructor
  · apply secondsToRefill_isSome_mono _ hcap
    rw [sub_le_self_iff]
    split
    next hle => exact sub_nonneg.mpr hle
    next => exact hlevel
  · intro _
    exact secondsToRefill_isSome_mono (sub_le_self _ hlevel) hcost

/-- The bucket a call finds covers what conforms to the records that are
remembered then. -/
theorem Store.Simulates.found
    (h : store.Simulates quota journal (.consume key now cost :: rest)) :
    Tracks quota.cap ((store.found key now).toMeter quota)
        ((journal.remembered quota key now).map (Record.toAttempt quota)) ∧
      quota.units (store.found key now).lastUpdate ≤ quota.units now := by
  have hreading : StoreEvent.reading key (.consume key now cost) =
      some now := if_pos rfl
  have hfresh (hfound : store.lookup key now = none)
      (hforgotten : journal.remembered quota key now = []) :
      Tracks quota.cap ((store.found key now).toMeter quota)
          ((journal.remembered quota key now).map
            (Record.toAttempt quota)) ∧
        quota.units (store.found key now).lastUpdate ≤ quota.units now := by
    have hnew : store.found key now = Bucket.new now quota := by
      rw [Store.found, hfound, Option.getD_none, h.solvent.quota_eq]
    rw [hnew, hforgotten, Bucket.new_toMeter]
    exact ⟨Tracks.full _ _, le_rfl⟩
  cases hentry : store.entries key with
  | none =>
      apply hfresh
      · simp [Store.lookup, hentry]
      · simp [Journal.remembered, h.missing hentry]
  | some entry =>
      obtain ⟨hlast, hupdate, htracks⟩ := h.stored hentry
      obtain ⟨last, hlast, haccess⟩ := Option.map_eq_some_iff.mp hlast
      by_cases hexpired : entry.expired quota now = true
      · apply hfresh
        · simp [Store.lookup, hentry, h.solvent.quota_eq, hexpired]
        · rw [Journal.remembered, hlast, if_pos]
          rw [Option.any_some, haccess]
          exact hexpired
      · have hfound : store.found key now = entry.bucket := by
          simp [Store.found, Store.lookup, hentry, h.solvent.quota_eq, hexpired]
        have hkept : journal.remembered quota key now = journal key := by
          rw [Journal.remembered, hlast, if_neg]
          rw [Option.any_some, haccess]
          exact hexpired
        have hlater := h.later hentry now (by
          rw [List.filterMap_cons_some hreading]
          exact List.mem_cons_self)
        rw [hfound, hkept, hupdate]
        exact ⟨htracks, quota.units_mono hlater⟩

/-- Readings of later calls. -/
theorem Store.Simulates.tail
    (h : store.Simulates quota journal (event :: rest)) :
    store.Simulates quota journal rest where
  solvent := h.solvent
  missing := h.missing
  stored := h.stored
  inOrder := by
    intro other
    exact (h.inOrder other).sublist
      ((List.sublist_cons_self event rest).filterMap _)
  later := by
    intro other entry hentry t ht
    exact h.later hentry t
      (((List.sublist_cons_self event rest).filterMap _).subset ht)

/-- Lost buckets leave nothing to keep in order. -/
theorem Store.Simulates.evict
    (h : store.Simulates quota journal (.evict key :: rest)) :
    (store.evict key).Simulates quota (Function.update journal key []) rest
    where
  solvent := h.solvent.evict key
  missing := by
    intro other hentry
    by_cases hkey : other = key
    · rw [hkey, Function.update_self]
    · rw [Function.update_of_ne hkey]
      simp only [Store.evict, Function.update_of_ne hkey] at hentry
      exact h.missing hentry
  stored := by
    intro other entry hentry
    have hkey : other ≠ key := by
      rintro rfl
      simp [Store.evict] at hentry
    rw [Function.update_of_ne hkey]
    exact h.stored (Store.evict_entry hentry)
  inOrder := h.tail.inOrder
  later := by
    intro other entry hentry
    exact h.tail.later (Store.evict_entry hentry)

theorem Store.Simulates.consume
    (h : store.Simulates quota journal (.consume key now cost :: rest))
    {decision : Decision}
    (hdecision : (store.consume key now cost).2 = some decision) :
    (decision.allowed = true ↔ journal.Admits quota key now cost) ∧
      (store.consume key now cost).1.Simulates quota
        (Function.update journal key (journal.remembered quota key now ++
          [⟨now, cost, decision.allowed⟩])) rest := by
  obtain ⟨htracks, hmark⟩ := h.found
  have hreading : StoreEvent.reading key (.consume key now cost) =
      some now := if_pos rfl
  rcases store.consume_cases key now cost with
    ⟨_, hconsume⟩ | ⟨next, found, hnext, hconsume⟩
  · simp [hconsume] at hdecision
  · rw [hconsume] at hdecision
    obtain rfl : found = decision := Option.some.inj hdecision
    rw [h.solvent.quota_eq] at hnext
    have hmeter := (store.found key now).tryConsume_toMeter now quota cost
    have hupdate := (store.found key now).tryConsume_lastUpdate now quota cost
    have hdecided := (store.found key now).tryConsume_decision now quota cost
    rw [hnext] at hmeter hupdate hdecided
    have hallowed := Quota.decisionAt_allowed hdecided.symm
    have hspent := htracks.spend (cost.toNat : ℚ) hmark
    constructor
    · rw [hallowed, decide_eq_true_eq]
      exact htracks _ hmark _
    · have htail := h.tail
      have hsolvent := h.solvent.consume key now cost
      rw [hconsume] at hsolvent ⊢
      refine ⟨hsolvent, ?_, ?_, htail.inOrder, ?_⟩
      · intro other hentry
        by_cases hkey : other = key
        · simp [hkey] at hentry
        · simp only [Function.update_of_ne hkey] at hentry ⊢
          exact h.missing hentry
      · intro other entry hentry
        by_cases hkey : other = key
        · subst hkey
          simp only [Function.update_self, Option.some.injEq] at hentry ⊢
          subst hentry
          refine ⟨by simp, hupdate, ?_⟩
          rw [List.map_append, List.map_singleton]
          simp only [hmeter, Record.toAttempt, hallowed]
          exact hspent
        · simp only [Function.update_of_ne hkey] at hentry ⊢
          exact h.stored hentry
      · intro other entry hentry t ht
        by_cases hkey : other = key
        · subst hkey
          simp only [Function.update_self, Option.some.injEq] at hentry
          subst hentry
          have hsorted := h.inOrder other
          rw [List.filterMap_cons_some hreading, List.pairwise_cons]
            at hsorted
          exact hsorted.1 t ht
        · simp only [Function.update_of_ne hkey] at hentry
          exact htail.later hentry t ht

/-- Every run of the store is one of the journal, where the calls of each key
come in the order of their clock readings. -/
theorem store_refines_journal (hwindow : quota.window ≠ Duration.zero)
    (events : List (StoreEvent K))
    (hsorted : ∀ key,
      (events.filterMap (StoreEvent.reading key)).Pairwise (· ≤ ·)) :
    Explains (Journal.Step quota) (fun _ => [])
      (trace Store.respond (Store.new K quota) events) := by
  have hstart : (Store.new K quota).Simulates quota (fun _ => []) events :=
    { solvent := ⟨rfl, by simp [Store.new]⟩
      missing := fun _ => rfl
      stored := by simp [Store.new]
      inOrder := hsorted
      later := by simp [Store.new] }
  refine explains_of_simulation (fun {store journal event rest} h => ?_) hstart
  cases event with
  | evict key => exact ⟨_, .lose, h.evict⟩
  | consume key now cost =>
      cases hdecision : (store.consume key now cost).2 with
      | none =>
          have hkept : (store.consume key now cost).1 = store := by
            rcases store.consume_cases key now cost with
              ⟨_, hconsume⟩ | ⟨_, _, _, hconsume⟩
            · rw [hconsume]
            · simp [hconsume] at hdecision
          have hpanics : ¬ quota.FitsWaits cost := by
            intro hfits
            have hsome := h.solvent.consume_isSome hwindow hfits key now
            rw [hdecision] at hsome
            simp at hsome
          refine ⟨journal, ?_, ?_⟩
          · rw [Store.respond, hdecision]
            exact .panic hpanics
          · rw [Store.respond, hkept]
            exact h.tail
      | some decision =>
          obtain ⟨hadmits, hnext⟩ := h.consume hdecision
          refine ⟨_, ?_, hnext⟩
          rw [Store.respond, hdecision]
          exact .decide hadmits

end

/-- One token a second: spent, asked for again, and after a loss there once
more; the other key's records are its own. -/
theorem store_refines_journal_lost :
    Explains (Journal.Step (Quota.perSecond 1)) (fun _ => [])
        (trace Store.respond (Store.new Bool (Quota.perSecond 1))
          [.consume true (Instant.atSec 3) 1,
            .consume false (Instant.atSec 1) 1,
            .consume true (Instant.atSec 3) 1, .evict true,
            .consume true (Instant.atSec 3) 1]) ∧
      (trace Store.respond (Store.new Bool (Quota.perSecond 1))
        [.consume true (Instant.atSec 3) 1,
          .consume false (Instant.atSec 1) 1,
          .consume true (Instant.atSec 3) 1, .evict true,
          .consume true (Instant.atSec 3) 1]).map Prod.snd =
        [some true, some true, some false, none, some true] :=
  ⟨store_refines_journal (by decide) _ (by decide), by decide +kernel⟩

end TrilliumRatelimit
