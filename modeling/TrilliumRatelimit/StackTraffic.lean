import TrilliumRatelimit.GreedyStore
import TrilliumRatelimit.StackConversation

/-!
# What passes a stack

Any number of requests on their way through limiters, each with a store of its
own, in any interleaving.  A request that a limiter halts is never seen by
those behind it, but has taken its tokens from the ones before.  What passes
therefore fits the quota of every limiter, however the limiters tell their
partitions apart.
-/

namespace TrilliumRatelimit

open ArrivalCurve CappedLevel StructuredField

/-- A request at a limiter, with what the limiter meets it with. -/
structure Encounter (J ι : Type*) where
  who : J
  stage : ι
  arrived : Instant
  draw : UInt64

/-- The store of every limiter and the response of every request so far, none
if answering it panicked. -/
structure Traffic {ι Request : Type*} (J : Type*)
    (stages : ι → Stage Request) where
  stores : StackStores stages
  conns : J → Option (Conn Request)

section

variable {J ι Request : Type*}

def Traffic.start (stages : ι → Stage Request) (requests : J → Request) :
    Traffic J stages where
  stores := fun i => Store.new _ (stages i).limiter.quota
  conns := fun j => some (Conn.new (requests j))

variable {stages : ι → Stage Request}

/-- The request has a response that is no rejection. -/
def Traffic.passes (state : Traffic J stages) (j : J) : Bool :=
  (state.conns j).any fun conn => !conn.halted

variable [DecidableEq J] [DecidableEq ι]

/-- A handler runs unless the request panicked or was halted before. -/
def Traffic.step (encode : List UInt8 → Text) (overflowChecks : Bool)
    (state : Traffic J stages) (encounter : Encounter J ι) :
    Traffic J stages :=
  match state.conns encounter.who with
  | none => state
  | some conn =>
      if conn.halted then state
      else
        let (store, next) := (stages encounter.stage).limiter.run
          encode overflowChecks (state.stores encounter.stage) conn
          encounter.arrived encounter.draw
        { stores := Function.update state.stores encounter.stage store
          conns := Function.update state.conns encounter.who next }

def Traffic.run (encode : List UInt8 → Text) (overflowChecks : Bool) :
    Traffic J stages → List (Encounter J ι) → Traffic J stages
  | state, [] => state
  | state, encounter :: rest =>
      Traffic.run encode overflowChecks
        (state.step encode overflowChecks encounter) rest

variable (encode : List UInt8 → Text) (overflowChecks : Bool)

omit [DecidableEq J] [DecidableEq ι] in
theorem Traffic.passes_iff {state : Traffic J stages} {j : J} :
    state.passes j = true ↔ Passed (state.conns j) := by
  simp [Traffic.passes, Option.any_eq_true, Passed]

/-- The limiter looks at nothing but the request. -/
def Stage.ReadsRequest (stage : Stage Request) : Prop :=
  ∀ conn other : Conn Request, conn.request = other.request →
    stage.limiter.metering conn = stage.limiter.metering other

/-- The key the limiter meters a request in, if at all. -/
def Stage.meters (stage : Stage Request) (key : Option stage.Key)
    (request : Request) : Bool :=
  stage.limiter.metering (Conn.new request) = .metered key

omit [DecidableEq J] [DecidableEq ι] in
theorem Stage.meters_iff {stage : Stage Request} {key : Option stage.Key}
    {request : Request} :
    stage.meters key request = true ↔
      stage.limiter.metering (Conn.new request) = .metered key :=
  decide_eq_true_iff

/-- The requests of a key as they meet the limiter. -/
def arrivals (stages : ι → Stage Request) (requests : J → Request) (i : ι)
    (key : Option (stages i).Key) (encounters : List (Encounter J ι)) :
    List Instant :=
  (encounters.filter fun encounter =>
    encounter.stage = i && (stages i).meters key (requests encounter.who)).map
      Encounter.arrived

theorem Traffic.step_of_not_passes {state : Traffic J stages}
    {encounter : Encounter J ι}
    (h : ¬ state.passes encounter.who = true) :
    state.step encode overflowChecks encounter = state := by
  unfold Traffic.step
  cases hconn : state.conns encounter.who with
  | none => rfl
  | some conn =>
      have hhalted : conn.halted = true := by
        simpa [Traffic.passes, hconn] using h
      simp only [hhalted, if_true]

theorem Traffic.step_of_passes {state : Traffic J stages}
    {encounter : Encounter J ι}
    {conn : Conn Request} (hconn : state.conns encounter.who = some conn)
    (hhalted : conn.halted = false) :
    let outcome := (stages encounter.stage).limiter.run encode
      overflowChecks (state.stores encounter.stage) conn encounter.arrived
      encounter.draw
    state.step encode overflowChecks encounter =
      ⟨Function.update state.stores encounter.stage outcome.1,
        Function.update state.conns encounter.who outcome.2⟩ := by
  simp only [Traffic.step, hconn, hhalted, Bool.false_eq_true, if_false]

theorem Traffic.run_of_not_passes {state : Traffic J stages} {j : J}
    (h : ¬ state.passes j = true)
    {encounters : List (Encounter J ι)}
    (hwho : ∀ encounter ∈ encounters, encounter.who = j) :
    state.run encode overflowChecks encounters = state := by
  induction encounters with
  | nil => rfl
  | cons encounter rest ih =>
      obtain ⟨hfirst, hrest⟩ := List.forall_mem_cons.mp hwho
      rw [Traffic.run, Traffic.step_of_not_passes encode overflowChecks
        (hfirst ▸ h), ih hrest]

/-- A request goes through a stack encounter by encounter. -/
theorem Traffic.run_order (state : Traffic J stages) (j : J)
    (arrived : ι → Instant) (draw : ι → UInt64) (order : List ι)
    {conn : Conn Request} (hconn : state.conns j = some conn) :
    let outcome := runThrough stages encode overflowChecks arrived draw order
      state.stores conn
    state.run encode overflowChecks
        (order.map fun i => ⟨j, i, arrived i, draw i⟩) =
      ⟨outcome.1, Function.update state.conns j outcome.2⟩ := by
  have hwho (order : List ι) : ∀ encounter ∈
      order.map fun i => (⟨j, i, arrived i, draw i⟩ : Encounter J ι),
        encounter.who = j := by
    simp
  induction order generalizing state conn with
  | nil =>
      simp only [List.map_nil, Traffic.run, runThrough]
      rw [← hconn, Function.update_eq_self]
  | cons i rest ih =>
      cases hhalted : conn.halted with
      | true =>
          have hstopped : ¬ state.passes j = true := by
            simp [Traffic.passes, hconn, hhalted]
          simp only [runThrough, hhalted, if_true]
          rw [Traffic.run_of_not_passes encode overflowChecks hstopped (hwho _),
            ← hconn, Function.update_eq_self]
      | false =>
          simp only [runThrough, hhalted, Bool.false_eq_true, if_false]
          rw [List.map_cons, Traffic.run,
            Traffic.step_of_passes encode overflowChecks hconn hhalted]
          rcases (stages i).limiter.run encode overflowChecks
            (state.stores i) conn (arrived i) (draw i) with ⟨store, next⟩
          cases next with
          | none =>
              apply Traffic.run_of_not_passes encode overflowChecks _
                (hwho rest)
              simp [Traffic.passes]
          | some next =>
              rw [ih _ (Function.update_self _ _ _)]
              simp only [Function.update_idem]

/-! ## One encounter -/

/-- What a limiter of the stack did with a request: nothing, or it asked the
bucket of a key, and what passed was let by or allowed. -/
inductive Store.Meets {K : Type*} [DecidableEq K] (metering : Metering K)
    (now : Instant) (before after : Store (Option K)) (passed : Prop) : Prop
  | unmetered :
      after = before → (passed → metering = .skipped) →
        Store.Meets metering now before after passed
  | metered {key : Option K} :
      metering = .metered key → after = (before.consume key now 1).1 →
      (passed → (before.consume key now 1).2.any Decision.allowed = true) →
        Store.Meets metering now before after passed

theorem Store.Meets.mono {K : Type*} [DecidableEq K] {metering : Metering K}
    {now : Instant} {before after : Store (Option K)} {passed fewer : Prop}
    (h : Store.Meets metering now before after passed)
    (hfewer : fewer → passed) :
    Store.Meets metering now before after fewer := by
  cases h with
  | unmetered hafter hskipped => exact .unmetered hafter (hskipped ∘ hfewer)
  | metered hkey hafter hallowed =>
      exact .metered hkey hafter (hallowed ∘ hfewer)

/-- Nothing passes where nothing is seen. -/
theorem Store.Meets.unseen {K : Type*} [DecidableEq K] (metering : Metering K)
    (now : Instant) (store : Store (Option K)) {passed : Prop}
    (h : ¬ passed) : Store.Meets metering now store store passed :=
  .unmetered rfl fun hpassed => absurd hpassed h

theorem RateLimiter.allowed_of_respond {K : Type*}
    {self : RateLimiter Request K} {overflowChecks : Bool}
    {pk : Option Text} {decision : Decision} {jitter : Duration}
    {answer : Answer}
    (h : self.answer overflowChecks pk decision jitter = some answer)
    {conn : Conn Request}
    (hhalted : (self.respond conn answer).halted = false) :
    decision.allowed = true := by
  by_contra hdenied
  simp only [RateLimiter.answer, hdenied, if_false, Option.bind_eq_bind,
    Option.bind_eq_some_iff, Option.map_eq_some_iff, Option.pure_def,
    Option.some.injEq] at h
  obtain ⟨reset, _, _, ⟨secs, _, rfl⟩, rfl⟩ := h
  simp [RateLimiter.respond, RateLimiter.advertise, Conn.reject] at hhalted

theorem RateLimiter.run_meets {K : Type*} [DecidableEq K]
    (self : RateLimiter Request K) (encode : List UInt8 → Text)
    (overflowChecks : Bool) (store : Store (Option K)) (conn : Conn Request)
    (now : Instant) (draw : UInt64) :
    Store.Meets (self.metering conn) now store
        (self.run encode overflowChecks store conn now draw).1
        (Passed (self.run encode overflowChecks store conn now draw).2) ∧
      ∀ next, (self.run encode overflowChecks store conn now draw).2 =
        some next → next.request = conn.request := by
  cases hmetering : self.metering conn with
  | skipped =>
      simp only [RateLimiter.run_eq, hmetering]
      exact ⟨.unmetered rfl fun _ => rfl,
        fun next hnext => Option.some.inj hnext ▸ rfl⟩
  | rejected =>
      simp only [RateLimiter.run_eq, hmetering]
      refine ⟨.unseen _ _ _ ?_, fun next hnext => Option.some.inj hnext ▸ rfl⟩
      rintro ⟨next, hnext, hhalted⟩
      rw [← Option.some.inj hnext] at hhalted
      simp [Conn.reject] at hhalted
  | metered key =>
      rw [RateLimiter.run_of_metered hmetering]
      refine ⟨.metered rfl rfl ?_, ?_⟩
      · rintro ⟨next, hnext, hhalted⟩
        obtain ⟨answer, hanswer, rfl⟩ := Option.map_eq_some_iff.mp hnext
        obtain ⟨decision, hdecision, hanswer⟩ :=
          Option.bind_eq_some_iff.mp hanswer
        rw [hdecision, Option.any_some]
        exact RateLimiter.allowed_of_respond hanswer hhalted
      · intro next hnext
        obtain ⟨answer, _, rfl⟩ := Option.map_eq_some_iff.mp hnext
        rw [RateLimiter.respond]
        cases answer.retryAfter <;> rfl


variable {requests : J → Request}

/-- Every response belongs to its request. -/
def Traffic.Answers (state : Traffic J stages) (requests : J → Request) :
    Prop :=
  ∀ j conn, state.conns j = some conn → conn.request = requests j

omit [DecidableEq J] [DecidableEq ι] in
theorem Traffic.answers_start (stages : ι → Stage Request)
    (requests : J → Request) :
    (Traffic.start stages requests).Answers requests := by
  intro j conn hconn
  exact Option.some.inj hconn ▸ rfl

/-- What an encounter does to the traffic. -/
structure Traffic.Steps (requests : J → Request) (encounter : Encounter J ι)
    (state next : Traffic J stages) : Prop where
  meets : Store.Meets
    ((stages encounter.stage).limiter.metering
      (Conn.new (requests encounter.who)))
    encounter.arrived (state.stores encounter.stage)
    (next.stores encounter.stage) (next.passes encounter.who = true)
  stores : ∀ i ≠ encounter.stage, next.stores i = state.stores i
  answers : next.Answers requests
  passes : ∀ j, next.passes j = true → state.passes j = true

theorem Traffic.steps (hreads : ∀ i, (stages i).ReadsRequest)
    {state : Traffic J stages} (hanswers : state.Answers requests)
    (encounter : Encounter J ι) :
    Traffic.Steps requests encounter state
      (state.step encode overflowChecks encounter) := by
  by_cases hpasses : state.passes encounter.who = true
  · obtain ⟨conn, hconn, hhalted⟩ := Traffic.passes_iff.mp hpasses
    obtain ⟨hmeets, hrequest⟩ :=
      (stages encounter.stage).limiter.run_meets encode overflowChecks
        (state.stores encounter.stage) conn encounter.arrived encounter.draw
    have hconnRequest := hanswers _ conn hconn
    rw [hreads _ conn (Conn.new (requests encounter.who)) hconnRequest]
      at hmeets
    rw [Traffic.step_of_passes encode overflowChecks hconn hhalted]
    refine ⟨?_, ?_, ?_, ?_⟩
    · simp only [Function.update_self]
      refine hmeets.mono fun hnext => ?_
      simpa using Traffic.passes_iff.mp hnext
    · exact fun i hi => Function.update_of_ne hi _ _
    · intro j next hnext
      by_cases hj : j = encounter.who
      · subst hj
        simp only [Function.update_self] at hnext
        exact (hrequest next hnext).trans hconnRequest
      · simp only [Function.update_of_ne hj] at hnext
        exact hanswers j next hnext
    · intro j hnext
      by_cases hj : j = encounter.who
      · exact hj ▸ hpasses
      · simpa [Traffic.passes, Function.update_of_ne hj] using hnext
  · rw [Traffic.step_of_not_passes encode overflowChecks hpasses]
    exact ⟨.unseen _ _ _ hpasses, fun _ _ => rfl, hanswers, fun _ => id⟩

/-! ## Whole runs -/

theorem Traffic.passes_of_run (hreads : ∀ i, (stages i).ReadsRequest)
    {state : Traffic J stages} (hanswers : state.Answers requests)
    {encounters : List (Encounter J ι)}
    {j : J} (h : (state.run encode overflowChecks encounters).passes j = true) :
    state.passes j = true := by
  induction encounters generalizing state with
  | nil => exact h
  | cons encounter rest ih =>
      have hstep :=
        Traffic.steps encode overflowChecks hreads hanswers encounter
      exact hstep.passes j (ih hstep.answers h)

omit [DecidableEq J] in
theorem arrivals_cons (stages : ι → Stage Request) (requests : J → Request)
    (i : ι) (key : Option (stages i).Key) (encounter : Encounter J ι)
    (rest : List (Encounter J ι)) :
    arrivals stages requests i key (encounter :: rest) =
      if encounter.stage = i ∧
          (stages i).meters key (requests encounter.who) = true
      then encounter.arrived :: arrivals stages requests i key rest
      else arrivals stages requests i key rest := by
  unfold arrivals
  rw [List.filter_cons]
  simp only [Bool.and_eq_true, decide_eq_true_eq]
  split
  · rfl
  · rfl

omit [DecidableEq J] in
theorem arrivals_sublist {some all : List (Encounter J ι)}
    (h : some.Sublist all) (requests : J → Request) (i : ι)
    (key : Option (stages i).Key) :
    (arrivals stages requests i key some).Sublist
      (arrivals stages requests i key all) :=
  (h.filter _).map _

omit [DecidableEq J] in
theorem arrivals_filter_cons {requests : J → Request} {i : ι}
    {key : Option (stages i).Key} {encounter : Encounter J ι}
    (rest : List (Encounter J ι)) {keep : Encounter J ι → Bool}
    (hstage : encounter.stage = i)
    (hkey : (stages i).meters key (requests encounter.who) = true)
    (hkeep : keep encounter = true) :
    arrivals stages requests i key ((encounter :: rest).filter keep) =
      encounter.arrived ::
        arrivals stages requests i key (rest.filter keep) := by
  rw [List.filter_cons_of_pos hkeep, arrivals_cons, if_pos ⟨hstage, hkey⟩]

omit [DecidableEq J] in
theorem arrivals_filter_cons_of_not {requests : J → Request} {i : ι}
    {key : Option (stages i).Key} {encounter : Encounter J ι}
    (rest : List (Encounter J ι)) {keep : Encounter J ι → Bool}
    (h : encounter.stage = i →
      (stages i).meters key (requests encounter.who) = true →
        ¬ keep encounter = true) :
    arrivals stages requests i key ((encounter :: rest).filter keep) =
      arrivals stages requests i key (rest.filter keep) := by
  rw [List.filter_cons]
  split
  next hkeep =>
    rw [arrivals_cons, if_neg fun hmine => h hmine.1 hmine.2 hkeep]
  next => rfl

/-- What passes a limiter was admitted by a level that saw some of the
requests. -/
theorem passing_sublist_admitted (hreads : ∀ i, (stages i).ReadsRequest)
    {i : ι} {quota : Quota} (hwindow : quota.window ≠ Duration.zero)
    (hburst : quota.burst ≤ quota.count) {key : Option (stages i).Key}
    {state : Traffic J stages} (hanswers : state.Answers requests)
    {last : Instant} {meter : Meter ℚ}
    (h : (state.stores i).Mirrors quota key last meter)
    {encounters : List (Encounter J ι)}
    (hfrom : ∀ t ∈ arrivals stages requests i key encounters, last ≤ t)
    (hclock : (arrivals stages requests i key encounters).Pairwise
      (· ≤ ·)) :
    ∃ reached : List Instant,
      reached.Sublist (arrivals stages requests i key encounters) ∧
      ((arrivals stages requests i key (encounters.filter fun encounter =>
        (state.run encode overflowChecks encounters).passes encounter.who)).map
          quota.units).Sublist
        (ArrivalCurve.admitted quota.cap meter (reached.map quota.units)) := by
  induction encounters generalizing state last meter with
  | nil => exact ⟨[], .slnil, .slnil⟩
  | cons encounter rest ih =>
      have hstep :=
        Traffic.steps encode overflowChecks hreads hanswers encounter
      have hrest := arrivals_sublist (List.sublist_cons_self encounter rest)
        requests i key
      have hpassed (hpasses : (state.run encode overflowChecks
          (encounter :: rest)).passes encounter.who = true) :
          (state.step encode overflowChecks encounter).passes encounter.who =
            true :=
        Traffic.passes_of_run encode overflowChecks hreads hstep.answers hpasses
      -- an encounter that is not of the key, or whose request does not pass
      have hskip
          (hgone : encounter.stage = i →
            (stages i).meters key (requests encounter.who) = true →
              ¬ (state.run encode overflowChecks (encounter :: rest)).passes
                encounter.who = true)
          (hnext : ((state.step encode overflowChecks encounter).stores
            i).Mirrors quota key last meter) :
          ∃ reached : List Instant,
            reached.Sublist
              (arrivals stages requests i key (encounter :: rest)) ∧
            ((arrivals stages requests i key
              ((encounter :: rest).filter fun other =>
                (state.run encode overflowChecks (encounter :: rest)).passes
                  other.who)).map quota.units).Sublist
              (ArrivalCurve.admitted quota.cap meter
                (reached.map quota.units)) := by
        obtain ⟨reached, hsub, hadmitted⟩ := ih hstep.answers hnext
          (fun t ht => hfrom t (hrest.subset ht)) (hclock.sublist hrest)
        rw [arrivals_filter_cons_of_not rest hgone]
        exact ⟨reached, hsub.trans hrest, hadmitted⟩
      by_cases hstage : encounter.stage = i
      · subst hstage
        have hmeets := hstep.meets
        cases hmeets with
        | unmetered hafter hskipped =>
            apply hskip
            · intro _ hkey hpasses
              rw [Stage.meters_iff, hskipped (hpassed hpasses)] at hkey
              simp at hkey
            · rwa [hafter]
        | @metered found hfound hafter hallowed =>
            by_cases hmine : found = key
            · subst hmine
              have hkey := Stage.meters_iff.mpr hfound
              rw [arrivals_cons, if_pos ⟨rfl, hkey⟩] at hfrom hclock ⊢
              obtain ⟨hlater, hclock⟩ := List.pairwise_cons.mp hclock
              obtain ⟨hany, hnext⟩ :=
                (h.advance (hfrom _ List.mem_cons_self)).consume hwindow
                  hburst
              obtain ⟨reached, hsub, hadmitted⟩ :=
                ih hstep.answers (hafter ▸ hnext) hlater hclock
              refine ⟨encounter.arrived :: reached, hsub.cons_cons _, ?_⟩
              rw [List.map_cons, ArrivalCurve.admitted]
              by_cases hpasses : (state.run encode overflowChecks
                  (encounter :: rest)).passes encounter.who = true
              · rw [arrivals_filter_cons rest rfl hkey hpasses,
                  if_pos (hany.mp (hallowed (hpassed hpasses))),
                  List.map_cons]
                exact hadmitted.cons_cons _
              · rw [arrivals_filter_cons_of_not rest fun _ _ => hpasses]
                split
                · exact hadmitted.cons _
                · exact hadmitted
            · apply hskip
              · intro _ hkey
                rw [Stage.meters_iff, hfound] at hkey
                exact absurd (Metering.metered.inj hkey) hmine
              · rw [hafter]
                exact h.other hmine encounter.arrived
      · apply hskip fun heq => absurd heq hstage
        rwa [hstep.stores i (Ne.symm hstage)]

theorem fits_passing (hreads : ∀ i, (stages i).ReadsRequest) {i : ι}
    (hwindow : (stages i).limiter.quota.window ≠ Duration.zero)
    (hburst : (stages i).limiter.quota.burst ≤ (stages i).limiter.quota.count)
    {key : Option (stages i).Key} {encounters : List (Encounter J ι)}
    (hclock : (arrivals stages requests i key encounters).Pairwise
      (· ≤ ·)) :
    (stages i).limiter.quota.Fits (arrivals stages requests i key
      (encounters.filter fun encounter =>
        ((Traffic.start stages requests).run encode overflowChecks
          encounters).passes encounter.who)) := by
  let quota := (stages i).limiter.quota
  have hanswers := Traffic.answers_start stages requests
  obtain ⟨reached, hsub, hadmitted⟩ := passing_sublist_admitted encode
    overflowChecks hreads hwindow hburst hanswers
    (Store.mirrors_new quota key) (fun t _ => t.earliest_le) hclock
  have hfits : Bounded quota.cap 1 (unitRequests
      (ArrivalCurve.admitted quota.cap
        ⟨quota.cap, quota.units Instant.earliest⟩
        (reached.map quota.units))) := by
    apply bounded_admitted quota.cap_nonneg
    · simp only [List.forall_mem_map]
      exact fun t _ => quota.units_mono t.earliest_le
    · rw [List.pairwise_map]
      exact (hclock.sublist hsub).imp fun hle => quota.units_mono hle
  rw [Quota.fits_iff hwindow hburst]
  exact hfits.sublist (hadmitted.map _) (by simp [unitRequests])

/-- What passes the limiters fits the quota of each, in any interleaving of
the requests. -/
theorem stack_passes_what_fits (hreads : ∀ i, (stages i).ReadsRequest)
    (requests : J → Request) (i : ι)
    (hwindow : (stages i).limiter.quota.window ≠ Duration.zero)
    (hburst : (stages i).limiter.quota.burst ≤ (stages i).limiter.quota.count)
    (key : Option (stages i).Key) {encounters : List (Encounter J ι)}
    (hclock : (arrivals stages requests i key encounters).Pairwise
      (· ≤ ·)) :
    (stages i).limiter.quota.Fits (arrivals stages requests i key
      (encounters.filter fun encounter =>
        ((Traffic.start stages requests).run encode overflowChecks
          encounters).passes encounter.who)) :=
  fits_passing encode overflowChecks hreads hwindow hburst hclock

end

/-- One of four requests at one of two limiters. -/
def encounterAt (who : Fin 4) (stage : Fin 2) (seconds : UInt32) :
    Encounter (Fin 4) (Fin 2) :=
  ⟨who, stage, Instant.atSec seconds, 0⟩

/-- The second request is halted behind the first limiter, which has no token
left for the third; the requests overtake each other. -/
theorem stack_passes_what_fits_two :
    (Quota.perMinute 2).Fits [Instant.atSec 0, Instant.atSec 40] := by
  let encounters := [encounterAt 0 0 0, encounterAt 1 0 0, encounterAt 2 0 1,
    encounterAt 0 1 1, encounterAt 1 1 1, encounterAt 3 0 40,
    encounterAt 3 1 40]
  let requests (_ : Fin 4) := ()
  have hpassing : arrivals twoStages.stages requests 0 (some ())
      (encounters.filter fun encounter =>
        ((Traffic.start twoStages.stages requests).run Base64.encode true
          encounters).passes encounter.who) =
        [Instant.atSec 0, Instant.atSec 40] := by decide +kernel
  have hreads (i : Fin 2) : (twoStages.stages i).ReadsRequest := by
    intro conn other _
    fin_cases i
    · rfl
    · rfl
  have hclock : (arrivals twoStages.stages requests 0 (some ())
      encounters).Pairwise (· ≤ ·) := by decide +kernel
  have hfits := stack_passes_what_fits Base64.encode true hreads requests 0
    (by decide) (by decide) (some ()) hclock
  rwa [hpassing] at hfits

end TrilliumRatelimit
