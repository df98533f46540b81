import TrilliumRatelimit.RateLimiter

/-!
# Partitions do not interfere

A request reads and writes the bucket of its own partition only.  So what a
run answers in one partition is what the run of that partition's requests
alone answers, whatever else happens in between.
-/

namespace TrilliumRatelimit

open StructuredField

/-! ## What one request touches -/

section

variable {K : Type*} [DecidableEq K]

/-- The stores hold the same for this key. -/
structure Store.AgreesOn (store other : Store K) (key : K) : Prop where
  quota_eq : store.quota = other.quota
  entry_eq : store.entries key = other.entries key

omit [DecidableEq K] in
theorem Store.AgreesOn.refl (store : Store K) (key : K) :
    store.AgreesOn store key := ⟨rfl, rfl⟩

omit [DecidableEq K] in
theorem Store.AgreesOn.trans {store middle other : Store K} {key : K}
    (h : store.AgreesOn middle key) (h' : middle.AgreesOn other key) :
    store.AgreesOn other key :=
  ⟨h.quota_eq.trans h'.quota_eq, h.entry_eq.trans h'.entry_eq⟩

omit [DecidableEq K] in
theorem Store.AgreesOn.found_eq {store other : Store K} {key : K}
    (h : store.AgreesOn other key) (now : Instant) :
    store.found key now = other.found key now := by
  simp only [Store.found, Store.lookup, h.quota_eq, h.entry_eq]

theorem Store.consumeAt_agreesOn_of_ne (store : Store K) {key other : K}
    (hne : key ≠ other) (now locked : Instant) (cost : UInt64) :
    (store.consumeAt key now locked cost).1.AgreesOn store other := by
  rcases store.consumeAt_cases key now locked cost with
    ⟨_, hconsume⟩ | ⟨next, decision, _, hconsume⟩
  · rw [hconsume]
    exact Store.AgreesOn.refl store other
  · rw [hconsume]
    exact ⟨rfl, Function.update_of_ne hne.symm _ _⟩

theorem Store.consume_agreesOn_of_ne (store : Store K) {key other : K}
    (hne : key ≠ other) (now : Instant) (cost : UInt64) :
    (store.consume key now cost).1.AgreesOn store other :=
  store.consumeAt_agreesOn_of_ne hne now now cost

theorem Store.AgreesOn.consume {store other : Store K} {key : K}
    (h : store.AgreesOn other key) (now : Instant) (cost : UInt64) :
    (store.consume key now cost).2 = (other.consume key now cost).2 ∧
      (store.consume key now cost).1.AgreesOn
        (other.consume key now cost).1 key := by
  have hfound := h.found_eq now
  rcases store.consume_cases key now cost with
    ⟨hpanic, hconsume⟩ | ⟨next, decision, hnext, hconsume⟩
  · rcases other.consume_cases key now cost with
      ⟨_, hother⟩ | ⟨next, decision, hnext, hother⟩
    · rw [hconsume, hother]
      exact ⟨rfl, h⟩
    · rw [hfound, h.quota_eq, hnext] at hpanic
      simp at hpanic
  · rw [hfound, h.quota_eq] at hnext
    rw [hconsume, Store.consume_of_tryConsume hnext]
    refine ⟨rfl, h.quota_eq, ?_⟩
    simp only [Function.update_self]

end

/-! ## Runs of the limiter -/

/-- What comes of a metered request.  The decision says whether it passes, and
all that is advertised before jitter; a panic leaves none. -/
structure MeteredOutcome (Request K : Type*) where
  key : Option K
  decision : Option Decision
  response : Option (Conn Request)

section

variable {Request K : Type*} [DecidableEq K]
  (encode : List UInt8 → Text) (overflowChecks : Bool)

/-- The outcomes of the metered requests of a run. -/
def RateLimiter.outcomes (self : RateLimiter Request K) :
    Store (Option K) → List (Arrival Request) → List (MeteredOutcome Request K)
  | _, [] => []
  | store, arrival :: rest =>
      let (next, response) := self.run encode overflowChecks store
        arrival.conn arrival.now arrival.draw
      match self.metering arrival.conn with
      | .metered key =>
          ⟨key, (store.consume key arrival.now 1).2, response⟩ ::
            self.outcomes next rest
      | _ => self.outcomes next rest

/-- The request is metered in the partition of this key. -/
def RateLimiter.sharesPartition (self : RateLimiter Request K)
    (key : Option K) (arrival : Arrival Request) : Bool :=
  self.metering arrival.conn = .metered key

def RateLimiter.isMetered (self : RateLimiter Request K)
    (arrival : Arrival Request) : Bool :=
  self.metering arrival.conn ≠ .skipped ∧
    self.metering arrival.conn ≠ .rejected

variable {encode overflowChecks}

omit [DecidableEq K] in
theorem RateLimiter.metering_eq_shared_iff (self : RateLimiter Request K)
    (conn : Conn Request) :
    self.metering conn = .metered none ↔
      self.extractor conn = none ∧ self.missingKey = .shared := by
  unfold RateLimiter.metering
  cases self.extractor conn with
  | none => cases self.missingKey <;> simp
  | some key => simp

omit [DecidableEq K] in
theorem RateLimiter.metering_eq_key_iff (self : RateLimiter Request K)
    (conn : Conn Request) (key : K) :
    self.metering conn = .metered (some key) ↔
      self.extractor conn = some key := by
  unfold RateLimiter.metering
  cases self.extractor conn with
  | none => cases self.missingKey <;> simp
  | some found => simp

theorem RateLimiter.runAt_of_metered {self : RateLimiter Request K}
    {conn : Conn Request} {key : Option K}
    (h : self.metering conn = .metered key) (store : Store (Option K))
    (now locked : Instant) (draw : UInt64) :
    self.runAt encode overflowChecks store conn now locked draw =
      ((store.consumeAt key now locked 1).1,
        ((store.consumeAt key now locked 1).2.bind fun decision =>
          self.answer overflowChecks (self.pk encode key) decision
            (self.randomJitter draw)).map (self.respond conn)) := by
  simp only [RateLimiter.runAt, h, RateLimiter.serveAt]

theorem RateLimiter.run_of_metered {self : RateLimiter Request K}
    {conn : Conn Request} {key : Option K}
    (h : self.metering conn = .metered key) (store : Store (Option K))
    (now : Instant) (draw : UInt64) :
    self.run encode overflowChecks store conn now draw =
      ((store.consume key now 1).1,
        ((store.consume key now 1).2.bind fun decision =>
          self.answer overflowChecks (self.pk encode key) decision
            (self.randomJitter draw)).map (self.respond conn)) :=
  RateLimiter.runAt_of_metered h store now now draw

theorem RateLimiter.runAt_store_of_not_metered
    {self : RateLimiter Request K} {conn : Conn Request}
    (h : ∀ key, self.metering conn ≠ .metered key) (store : Store (Option K))
    (now locked : Instant) (draw : UInt64) :
    (self.runAt encode overflowChecks store conn now locked draw).1 =
      store := by
  unfold RateLimiter.runAt
  cases hmetering : self.metering conn with
  | skipped => rfl
  | rejected => rfl
  | metered key => exact absurd hmetering (h key)

theorem RateLimiter.run_store_of_not_metered {self : RateLimiter Request K}
    {conn : Conn Request} (h : ∀ key, self.metering conn ≠ .metered key)
    (store : Store (Option K)) (now : Instant) (draw : UInt64) :
    (self.run encode overflowChecks store conn now draw).1 = store :=
  RateLimiter.runAt_store_of_not_metered h store now now draw

theorem RateLimiter.outcomes_of_not_metered {self : RateLimiter Request K}
    {arrival : Arrival Request}
    (h : ∀ key, self.metering arrival.conn ≠ .metered key)
    (store : Store (Option K)) (rest : List (Arrival Request)) :
    self.outcomes encode overflowChecks store (arrival :: rest) =
      self.outcomes encode overflowChecks store rest := by
  have hstore : (self.run encode overflowChecks store arrival.conn
      arrival.now arrival.draw).1 = store :=
    RateLimiter.run_store_of_not_metered h store _ _
  cases hmetering : self.metering arrival.conn with
  | skipped => simp only [RateLimiter.outcomes, hmetering, hstore]
  | rejected => simp only [RateLimiter.outcomes, hmetering, hstore]
  | metered key => exact absurd hmetering (h key)

theorem RateLimiter.outcomes_of_metered {self : RateLimiter Request K}
    {arrival : Arrival Request} {key : Option K}
    (h : self.metering arrival.conn = .metered key)
    (store : Store (Option K)) (rest : List (Arrival Request)) :
    self.outcomes encode overflowChecks store (arrival :: rest) =
      ⟨key, (store.consume key arrival.now 1).2,
        ((store.consume key arrival.now 1).2.bind fun decision =>
          self.answer overflowChecks (self.pk encode key) decision
            (self.randomJitter arrival.draw)).map
              (self.respond arrival.conn)⟩ ::
        self.outcomes encode overflowChecks
          (store.consume key arrival.now 1).1 rest := by
  simp only [RateLimiter.outcomes, h, self.run_of_metered h]

/-- The outcomes in one partition are those of its requests alone. -/
theorem RateLimiter.outcomes_filter {self : RateLimiter Request K}
    {key : Option K} {store other : Store (Option K)}
    (h : store.AgreesOn other key) (arrivals : List (Arrival Request)) :
    (self.outcomes encode overflowChecks store arrivals).filter
        (fun outcome => outcome.key = key) =
      self.outcomes encode overflowChecks other
        (arrivals.filter (self.sharesPartition key)) := by
  induction arrivals generalizing store other with
  | nil => rfl
  | cons arrival rest ih =>
      by_cases hmetered : ∃ found, self.metering arrival.conn = .metered found
      · obtain ⟨found, hfound⟩ := hmetered
        rw [RateLimiter.outcomes_of_metered hfound]
        by_cases hkey : found = key
        · subst hkey
          obtain ⟨hdecision, hnext⟩ := h.consume arrival.now 1
          have hshares : self.sharesPartition found arrival = true := by
            simp [RateLimiter.sharesPartition, hfound]
          rw [List.filter_cons_of_pos (by simp),
            List.filter_cons_of_pos hshares,
            RateLimiter.outcomes_of_metered hfound, ih hnext, hdecision]
        · have hshares : ¬ self.sharesPartition key arrival = true := by
            simp [RateLimiter.sharesPartition, hfound, hkey]
          rw [List.filter_cons_of_neg (by simpa using hkey),
            List.filter_cons_of_neg hshares]
          exact ih ((store.consume_agreesOn_of_ne hkey arrival.now 1).trans h)
      · rw [not_exists] at hmetered
        have hshares : ¬ self.sharesPartition key arrival = true := by
          simpa [RateLimiter.sharesPartition] using hmetered key
        rw [RateLimiter.outcomes_of_not_metered hmetered,
          List.filter_cons_of_neg hshares]
        exact ih h

theorem RateLimiter.isMetered_iff {self : RateLimiter Request K}
    {arrival : Arrival Request} :
    self.isMetered arrival = true ↔
      ∃ key, self.metering arrival.conn = .metered key := by
  unfold RateLimiter.isMetered
  cases self.metering arrival.conn <;> simp

theorem RateLimiter.outcomes_filter_isMetered (self : RateLimiter Request K)
    (store : Store (Option K)) (arrivals : List (Arrival Request)) :
    self.outcomes encode overflowChecks store
        (arrivals.filter self.isMetered) =
      self.outcomes encode overflowChecks store arrivals := by
  induction arrivals generalizing store with
  | nil => rfl
  | cons arrival rest ih =>
      by_cases hmetered : ∃ key, self.metering arrival.conn = .metered key
      · rw [List.filter_cons_of_pos (RateLimiter.isMetered_iff.mpr hmetered)]
        obtain ⟨key, hkey⟩ := hmetered
        rw [RateLimiter.outcomes_of_metered hkey,
          RateLimiter.outcomes_of_metered hkey, ih]
      · rw [List.filter_cons_of_neg fun h =>
          hmetered (RateLimiter.isMetered_iff.mp h)]
        rw [not_exists] at hmetered
        rw [RateLimiter.outcomes_of_not_metered hmetered, ih]

/-- What the random numbers of a run have no part in. -/
def MeteredOutcome.beforeJitter (outcome : MeteredOutcome Request K) :
    Option K × Option Decision :=
  (outcome.key, outcome.decision)

theorem RateLimiter.outcomes_beforeJitter (self : RateLimiter Request K)
    (store : Store (Option K)) {arrivals redrawn : List (Arrival Request)}
    (h : List.Forall₂ (fun a b => a.conn = b.conn ∧ a.now = b.now)
      arrivals redrawn) :
    (self.outcomes encode overflowChecks store arrivals).map
        MeteredOutcome.beforeJitter =
      (self.outcomes encode overflowChecks store redrawn).map
        MeteredOutcome.beforeJitter := by
  induction h generalizing store with
  | nil => rfl
  | @cons arrival other rest others hsame _ ih =>
      obtain ⟨hconn, hnow⟩ := hsame
      by_cases hmetered : ∃ key, self.metering arrival.conn = .metered key
      · obtain ⟨key, hkey⟩ := hmetered
        rw [RateLimiter.outcomes_of_metered hkey, List.map_cons, hnow, ih,
          RateLimiter.outcomes_of_metered (hconn ▸ hkey), List.map_cons]
        rfl
      · rw [not_exists] at hmetered
        rw [RateLimiter.outcomes_of_not_metered hmetered, ih,
          RateLimiter.outcomes_of_not_metered (hconn ▸ hmetered)]

/-- Every metered request comes out as in the run of its partition alone, up
to jitter also if other jitter is drawn there; keyless requests have one
partition of their own or none, and then change nothing. -/
theorem partitions_do_not_interfere (self : RateLimiter Request K)
    (arrivals : List (Arrival Request)) :
    (∀ key, ((self.outcomes encode overflowChecks
          (Store.new (Option K) self.quota) arrivals).filter
            fun outcome => outcome.key = key) =
        self.outcomes encode overflowChecks
          (Store.new (Option K) self.quota)
          (arrivals.filter (self.sharesPartition key))) ∧
      (∀ key alone, List.Forall₂ (fun a b => a.conn = b.conn ∧ a.now = b.now)
          (arrivals.filter (self.sharesPartition key)) alone →
        ((self.outcomes encode overflowChecks
          (Store.new (Option K) self.quota) arrivals).filter
            fun outcome => outcome.key = key).map MeteredOutcome.beforeJitter =
          (self.outcomes encode overflowChecks
            (Store.new (Option K) self.quota) alone).map
              MeteredOutcome.beforeJitter) ∧
      (∀ conn, self.metering conn = .metered none ↔
        self.extractor conn = none ∧ self.missingKey = .shared) ∧
      (∀ conn key, self.metering conn = .metered (some key) ↔
        self.extractor conn = some key) ∧
      (∀ conn store now draw, self.extractor conn = none →
        self.missingKey ≠ .shared →
          (self.run encode overflowChecks store conn now draw).1 = store) ∧
      self.outcomes encode overflowChecks (Store.new (Option K) self.quota)
          (arrivals.filter fun arrival =>
            (self.extractor arrival.conn).isSome ∨
              self.missingKey = .shared) =
        self.outcomes encode overflowChecks
          (Store.new (Option K) self.quota) arrivals := by
  have hagrees (key : Option K) := Store.AgreesOn.refl
    (Store.new (Option K) self.quota) key
  refine ⟨fun key => RateLimiter.outcomes_filter (hagrees key) arrivals, ?_,
    self.metering_eq_shared_iff, self.metering_eq_key_iff, ?_, ?_⟩
  · intro key alone halone
    rw [RateLimiter.outcomes_filter (hagrees key)]
    exact self.outcomes_beforeJitter _ halone
  · intro conn store now draw hnone hmissing
    refine RateLimiter.run_store_of_not_metered (fun key => ?_) store now draw
    cases key with
    | none =>
        intro hmetered
        exact hmissing ((self.metering_eq_shared_iff conn).mp hmetered).2
    | some key =>
        intro hmetered
        rw [self.metering_eq_key_iff, hnone] at hmetered
        simp at hmetered
  · rw [← self.outcomes_filter_isMetered _ arrivals]
    congr 2
    funext arrival
    rw [Bool.eq_iff_iff, RateLimiter.isMetered_iff, decide_eq_true_eq,
      Option.isSome_iff_exists]
    constructor
    · rintro (⟨key, hkey⟩ | hshared)
      · exact ⟨some key, (self.metering_eq_key_iff _ key).mpr hkey⟩
      · cases hkey : self.extractor arrival.conn with
        | none =>
            exact ⟨none, (self.metering_eq_shared_iff _).mpr ⟨hkey, hshared⟩⟩
        | some key =>
            exact ⟨some key, (self.metering_eq_key_iff _ key).mpr hkey⟩
    · rintro ⟨key, hkey⟩
      cases key with
      | none => exact .inr ((self.metering_eq_shared_iff _).mp hkey).2
      | some key => exact .inl ⟨key, (self.metering_eq_key_iff _ key).mp hkey⟩

end

end TrilliumRatelimit
