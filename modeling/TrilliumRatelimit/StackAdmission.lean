import TrilliumRatelimit.DurationRange
import TrilliumRatelimit.StackTraffic

/-!
# When everything passes a stack

Limiters that are asked one after another do not add up: requests pass all of
their limiters exactly if they fit the quota of each, whatever keys it meters
them by, in whatever order they meet the limiters and overtake each other.
-/

namespace TrilliumRatelimit

open ArrivalCurve CappedLevel StructuredField

/-- A limiter that looks at the request only, and whose waits are all in
range. -/
structure Stage.Regular {Request : Type*} (stage : Stage Request) : Prop where
  reads : stage.ReadsRequest
  count : stage.limiter.quota.count ≠ 0
  window : stage.limiter.quota.window ≠ Duration.zero
  burst : stage.limiter.quota.burst ≤ stage.limiter.quota.count
  envelope : stage.limiter.WithinEnvelope

/-! ## One key -/

section

variable {K : Type*} [DecidableEq K] {quota : Quota} {store : Store K}
  {key : K} {now : Instant} {times : List Instant}

/-- A level like the key's admits requests at all these times. -/
def Store.Affords (quota : Quota) (store : Store K) (key : K)
    (times : List Instant) : Prop :=
  ∃ last meter, store.Mirrors quota key last meter ∧
    (∀ t ∈ times, last ≤ t) ∧ times.Pairwise (· ≤ ·) ∧
    ArrivalCurve.admitted quota.cap meter (times.map quota.units) =
      times.map quota.units

omit [DecidableEq K] in
theorem Store.Affords.solvent (h : store.Affords quota key times) :
    store.Solvent quota := by
  obtain ⟨_, _, hmirrors, _⟩ := h
  exact hmirrors.onTime.tended.solvent

theorem Store.Affords.other (h : store.Affords quota key times) {other : K}
    (hne : other ≠ key) (now : Instant) :
    (store.consume other now 1).1.Affords quota key times := by
  obtain ⟨last, meter, hmirrors, htimes⟩ := h
  exact ⟨last, meter, hmirrors.other hne now, htimes⟩

variable (hwindow : quota.window ≠ Duration.zero)
  (hburst : quota.burst ≤ quota.count)

include hwindow hburst

theorem Store.affords_new (key : K) (hclock : times.Pairwise (· ≤ ·))
    (hfits : quota.Fits times) :
    (Store.new K quota).Affords quota key times := by
  refine ⟨_, _, Store.mirrors_new quota key, fun t _ => t.earliest_le, hclock,
    ?_⟩
  rw [Quota.fits_iff hwindow hburst] at hfits
  apply admitted_of_bounded hfits
  · simp only [List.forall_mem_map]
    exact fun t _ => quota.units_mono t.earliest_le
  · rw [List.pairwise_map]
    exact hclock.imp fun hle => quota.units_mono hle

theorem Store.Affords.consume (h : store.Affords quota key (now :: times)) :
    (store.consume key now 1).2.any Decision.allowed = true ∧
      (store.consume key now 1).1.Affords quota key times := by
  obtain ⟨last, meter, hmirrors, hfrom, hclock, hadmitted⟩ := h
  rw [List.map_cons, admitted_cons_eq_iff] at hadmitted
  obtain ⟨hone, hadmitted⟩ := hadmitted
  obtain ⟨hlater, hclock⟩ := List.pairwise_cons.mp hclock
  obtain ⟨hany, hnext⟩ :=
    (hmirrors.advance (hfrom now List.mem_cons_self)).consume hwindow hburst
  exact ⟨hany.mpr hone, now, _, hnext, hlater, hclock, hadmitted⟩

end

/-! ## One encounter -/

section

variable {J ι Request : Type*} [DecidableEq ι] {stages : ι → Stage Request}
  {requests : J → Request}

/-- Every limiter affords the requests of each key that are still to come. -/
def Traffic.Affords (state : Traffic J stages) (requests : J → Request)
    (encounters : List (Encounter J ι)) : Prop :=
  ∀ i key, (state.stores i).Affords (stages i).limiter.quota key
    (arrivals stages requests i key encounters)

variable {state : Traffic J stages} {encounter : Encounter J ι}
  {rest : List (Encounter J ι)}

theorem Traffic.Affords.consume (hregular : ∀ i, (stages i).Regular)
    (h : state.Affords requests (encounter :: rest))
    {key : Option (stages encounter.stage).Key}
    (hkey : (stages encounter.stage).limiter.metering
      (Conn.new (requests encounter.who)) = .metered key) :
    let outcome :=
      (state.stores encounter.stage).consume key encounter.arrived 1
    outcome.2.any Decision.allowed = true ∧
      outcome.1.Affords (stages encounter.stage).limiter.quota key
        (arrivals stages requests encounter.stage key rest) := by
  have hfound := h encounter.stage key
  rw [arrivals_cons, if_pos ⟨rfl, Stage.meters_iff.mpr hkey⟩] at hfound
  exact hfound.consume (hregular encounter.stage).window
    (hregular encounter.stage).burst

theorem Traffic.Affords.run_passed (hregular : ∀ i, (stages i).Regular)
    (encode : List UInt8 → Text) (overflowChecks : Bool)
    (h : state.Affords requests (encounter :: rest))
    (hrejected : (stages encounter.stage).limiter.metering
      (Conn.new (requests encounter.who)) ≠ .rejected)
    {conn : Conn Request} (hrequest : conn.request = requests encounter.who)
    (hhalted : conn.halted = false) :
    Passed ((stages encounter.stage).limiter.run encode overflowChecks
      (state.stores encounter.stage) conn encounter.arrived
      encounter.draw).2 := by
  let stage := stages encounter.stage
  have hstage : stage.Regular := hregular encounter.stage
  have hreads : stage.limiter.metering conn =
      stage.limiter.metering (Conn.new (requests encounter.who)) :=
    hstage.reads _ _ hrequest
  cases hmetering : stage.limiter.metering
      (Conn.new (requests encounter.who)) with
  | rejected => exact absurd hmetering hrejected
  | skipped =>
      rw [hmetering] at hreads
      exact ⟨conn, by rw [RateLimiter.run_eq, hreads], hhalted⟩
  | metered key =>
      have hsolvent := (h encounter.stage key).solvent
      -- a bucket that is not in debt gives an answer, and the level allows it
      have hrange (other : Option stage.Key) :=
        hstage.envelope.inRange hstage.count
          (Duration.nanos_pos hstage.window).ne'
          (hsolvent.found_nonneg other encounter.arrived) encounter.arrived
          encounter.draw
      obtain ⟨response, hresponse⟩ :=
        RateLimiter.run_of_inRange hsolvent.quota_eq hrange encode conn
      obtain ⟨decision, hdecision, hallowed⟩ :=
        (Option.any_eq_true _ _).mp (h.consume hregular hmetering).1
      have hmetered : stage.limiter.metering conn = .metered key :=
        hreads.trans hmetering
      have hanswered := hresponse overflowChecks
      exact ⟨response, hanswered,
        (RateLimiter.passed_of_allowed hmetered hdecision hallowed
          hanswered).2.1.trans hhalted⟩

/-- A request that passes leaves enough for the others. -/
theorem Traffic.Affords.tail (hregular : ∀ i, (stages i).Regular)
    (h : state.Affords requests (encounter :: rest))
    {next : Traffic J stages}
    (hstep : Traffic.Steps requests encounter state next)
    (hpasses : next.passes encounter.who = true) :
    next.Affords requests rest := by
  intro i key
  have hfound := h i key
  rw [arrivals_cons] at hfound
  by_cases hstage : encounter.stage = i
  · subst hstage
    have hmeets := hstep.meets
    cases hmeets with
    | unmetered hafter hskipped =>
        have hnot : ¬ (stages encounter.stage).meters key
            (requests encounter.who) = true := by
          rw [Stage.meters_iff, hskipped hpasses]
          simp
        rw [if_neg fun hmine => hnot hmine.2] at hfound
        rwa [hafter]
    | @metered found hmetered hafter _ =>
        rw [hafter]
        by_cases hmine : found = key
        · subst hmine
          exact (h.consume hregular hmetered).2
        · have hnot : ¬ (stages encounter.stage).meters key
              (requests encounter.who) = true := by
            rw [Stage.meters_iff, hmetered]
            exact fun heq => hmine (Metering.metered.inj heq)
          rw [if_neg fun hmine => hnot hmine.2] at hfound
          exact hfound.other hmine _
  · rw [if_neg fun hmine => hstage hmine.1] at hfound
    rwa [hstep.stores i (Ne.symm hstage)]

/-! ## Whole runs -/

variable [DecidableEq J] (encode : List UInt8 → Text) (overflowChecks : Bool)

theorem Traffic.Affords.passes_run (hregular : ∀ i, (stages i).Regular)
    (hanswers : state.Answers requests)
    {encounters : List (Encounter J ι)}
    (h : state.Affords requests encounters)
    (hrejected : ∀ encounter ∈ encounters,
      (stages encounter.stage).limiter.metering
        (Conn.new (requests encounter.who)) ≠ .rejected)
    (hall : ∀ j, state.passes j = true) (j : J) :
    (state.run encode overflowChecks encounters).passes j = true := by
  induction encounters generalizing state with
  | nil => exact hall j
  | cons encounter rest ih =>
      obtain ⟨hfirst, hrejected⟩ := List.forall_mem_cons.mp hrejected
      have hstep := Traffic.steps encode overflowChecks
        (fun i => (hregular i).reads) hanswers encounter
      obtain ⟨conn, hconn, hhalted⟩ :=
        Traffic.passes_iff.mp (hall encounter.who)
      have hpassed := h.run_passed hregular encode overflowChecks hfirst
        (hanswers _ conn hconn) hhalted
      have hnext (other : J) :
          (state.step encode overflowChecks encounter).passes other =
            true := by
        rw [Traffic.step_of_passes encode overflowChecks hconn hhalted,
          Traffic.passes_iff]
        by_cases hother : other = encounter.who
        · subst hother
          simpa only [Function.update_self] using hpassed
        · simpa only [Function.update_of_ne hother] using
            Traffic.passes_iff.mp (hall other)
      exact ih hstep.answers (h.tail hregular hstep (hnext encounter.who))
        hrejected hnext

/-- No limiter rejects a request that passes. -/
theorem Traffic.not_rejected_of_run (hreads : ∀ i, (stages i).ReadsRequest)
    (hanswers : state.Answers requests)
    {encounters : List (Encounter J ι)} :
    ∀ encounter ∈ encounters,
      (state.run encode overflowChecks encounters).passes encounter.who =
          true →
        (stages encounter.stage).limiter.metering
          (Conn.new (requests encounter.who)) ≠ .rejected := by
  induction encounters generalizing state with
  | nil => simp
  | cons encounter rest ih =>
      have hstep :=
        Traffic.steps encode overflowChecks hreads hanswers encounter
      refine List.forall_mem_cons.mpr ⟨fun hpasses => ?_, ih hstep.answers⟩
      have hpassed := Traffic.passes_of_run encode overflowChecks hreads
        hstep.answers hpasses
      have hmeets := hstep.meets
      cases hmeets with
      | unmetered _ hskipped => simp [hskipped hpassed]
      | metered hfound _ _ => simp [hfound]

/-- In any interleaving, all requests pass exactly if no limiter rejects one
without a key and each key's requests fit the limiter's quota. -/
theorem stack_passes_all_iff (hregular : ∀ i, (stages i).Regular)
    (requests : J → Request) {encounters : List (Encounter J ι)}
    (hclock : ∀ i key, (arrivals stages requests i key encounters).Pairwise
      (· ≤ ·)) :
    (∀ encounter ∈ encounters,
      ((Traffic.start stages requests).run encode overflowChecks
        encounters).passes encounter.who = true) ↔
      (∀ encounter ∈ encounters,
        (stages encounter.stage).limiter.metering
          (Conn.new (requests encounter.who)) ≠ .rejected) ∧
        ∀ i key, (stages i).limiter.quota.Fits
          (arrivals stages requests i key encounters) := by
  have hreads (i : ι) := (hregular i).reads
  have hanswers := Traffic.answers_start stages requests
  constructor
  · intro hall
    refine ⟨fun encounter hmem => Traffic.not_rejected_of_run encode
      overflowChecks hreads hanswers encounter hmem (hall encounter hmem),
      fun i key => ?_⟩
    have hfits := fits_passing encode overflowChecks hreads (hregular i).window
      (hregular i).burst (hclock i key)
    rwa [List.filter_eq_self.mpr hall] at hfits
  · rintro ⟨hrejected, hfits⟩ encounter _
    have hstart : (Traffic.start stages requests).Affords requests
        encounters := fun i key =>
      Store.affords_new (hregular i).window (hregular i).burst key
        (hclock i key) (hfits i key)
    exact hstart.passes_run encode overflowChecks hregular hanswers hrejected
      (fun _ => rfl) encounter.who

end

/-- Two requests at once pass the first limiter, and the second one with a
second between them. -/
theorem stack_passes_all_iff_two :
    (Quota.perMinute 2).Fits [Instant.atSec 0, Instant.atSec 0] ∧
      (Quota.perSecond 1).Fits [Instant.atSec 0, Instant.atSec 1] := by
  let encounters := [encounterAt 0 0 0, encounterAt 1 0 0, encounterAt 1 1 0,
    encounterAt 0 1 1]
  let requests (_ : Fin 4) := ()
  have hregular (i : Fin 2) : (twoStages.stages i).Regular := by
    fin_cases i
    · exact ⟨fun _ _ _ => rfl, by decide, by decide, by decide,
        by decide +kernel⟩
    · exact ⟨fun _ _ _ => rfl, by decide, by decide, by decide,
        by decide +kernel⟩
  have hclock (i : Fin 2) (key : Option (twoStages.stages i).Key) :
      (arrivals twoStages.stages requests i key encounters).Pairwise
        (· ≤ ·) := by
    have hsorted : (encounters.map Encounter.arrived).Pairwise (· ≤ ·) := by
      decide +kernel
    exact hsorted.sublist (List.filter_sublist.map _)
  have hall : ∀ encounter ∈ encounters,
      ((Traffic.start twoStages.stages requests).run Base64.encode true
        encounters).passes encounter.who = true := by decide +kernel
  obtain ⟨_, hfits⟩ :=
    (stack_passes_all_iff Base64.encode true hregular requests hclock).mp hall
  exact ⟨hfits 0 (some ()), hfits 1 (some ())⟩

end TrilliumRatelimit
