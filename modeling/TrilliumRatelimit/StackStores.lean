import TrilliumRatelimit.ReadableLimiter

/-!
# A stack and its stores

A request goes through the limiters of a stack in order, each with a store of
its own, until one halts it.  If every limiter it is metered by has a token
for it, it passes all of them, and the response tells what each of them has
left.
-/

namespace TrilliumRatelimit

open StructuredField

/-- A limiter of a stack, with the buckets of it that a client uses. -/
structure Stage (Request : Type*) where
  Key : Type
  decEq : DecidableEq Key
  limiter : RateLimiter Request Key
  owned : Set (Option Key)

attribute [instance] Stage.decEq

/-- The store of every limiter. -/
abbrev StackStores {ι Request : Type*} (stages : ι → Stage Request) :
    Type _ :=
  ∀ i, Store (Option (stages i).Key)

section

variable {ι Request : Type*} [DecidableEq ι]

/-- The handlers of a stack, one after another, each with its own reading of
the clock and its own random number. -/
def runThrough (stages : ι → Stage Request) (encode : List UInt8 → Text)
    (overflowChecks : Bool) (arrived : ι → Instant) (draw : ι → UInt64) :
    List ι → StackStores stages → Conn Request →
      StackStores stages × Option (Conn Request)
  | [], stores, conn => (stores, some conn)
  | i :: rest, stores, conn =>
      if conn.halted then (stores, some conn)
      else
        let (store, next) := (stages i).limiter.run encode overflowChecks
          (stores i) conn (arrived i) (draw i)
        match next with
        | none => (Function.update stores i store, none)
        | some next =>
            runThrough stages encode overflowChecks arrived draw rest
              (Function.update stores i store) next

/-- The request is metered in one of the client's buckets, if at all, whatever
the handlers before did to the response. -/
def Stage.Serves (stage : Stage Request) (request : Request) : Prop :=
  ∀ conn : Conn Request, conn.request = request →
    stage.limiter.metering conn = .skipped ∨
      ∃ key ∈ stage.owned, stage.limiter.metering conn = .metered key

end

/-! ## One limiter -/

section

variable {K : Type*} [DecidableEq K]

/-- Whoever comes now finds a token. -/
structure Store.HasToken (store : Store K) (quota : Quota) (key : K)
    (now : Instant) : Prop where
  one_le : 1 ≤ (store.found key now).levelAt quota now
  whole : quota.WholeWait ((store.found key now).levelAt quota now)

/-- A bucket a token was taken from.  One of the limits tells what is left. -/
structure Entry.Told (quota : Quota) (limits : List RateLimit)
    (now : Instant) (entry : Entry) : Prop where
  lastUpdate : entry.bucket.lastUpdate = now
  le_cap : entry.bucket.tokens ≤ quota.cap
  whole : quota.WholeWait entry.bucket.tokens
  told : ∃ limit ∈ limits, limit.Tells quota entry.bucket.tokens

theorem Entry.Told.mono {quota : Quota} {limits more : List RateLimit}
    {now : Instant} {entry : Entry} (h : entry.Told quota limits now)
    (hsubset : limits ⊆ more) : entry.Told quota more now := by
  obtain ⟨hupdate, hcap, hwhole, limit, hmem, htells⟩ := h
  exact ⟨hupdate, hcap, hwhole, limit, hsubset hmem, htells⟩

/-- The buckets are as they were, or a token was taken from them. -/
def Store.Left (quota : Quota) (limits : List RateLimit) (now : Instant)
    (before after : Store K) : Prop :=
  after.quota = before.quota ∧
    ∀ key, after.entries key = before.entries key ∨
      ∃ entry, after.entries key = some entry ∧ entry.Told quota limits now

omit [DecidableEq K] in
theorem Store.Left.refl (quota : Quota) (limits : List RateLimit)
    (now : Instant) (store : Store K) : store.Left quota limits now store :=
  ⟨rfl, fun _ => .inl rfl⟩

omit [DecidableEq K] in
theorem Store.Left.mono {quota : Quota} {limits more : List RateLimit}
    {now : Instant} {before after : Store K}
    (h : Store.Left quota limits now before after) (hsubset : limits ⊆ more) :
    Store.Left quota more now before after := by
  refine ⟨h.1, fun key => ?_⟩
  rcases h.2 key with hkept | ⟨entry, hentry, htold⟩
  · exact .inl hkept
  · exact .inr ⟨entry, hentry, htold.mono hsubset⟩

omit [DecidableEq K] in
theorem Store.Left.trans {quota : Quota} {limits : List RateLimit}
    {now : Instant} {before middle after : Store K}
    (hfirst : Store.Left quota limits now before middle)
    (hsecond : Store.Left quota limits now middle after) :
    Store.Left quota limits now before after := by
  refine ⟨hsecond.1.trans hfirst.1, fun key => ?_⟩
  rcases hsecond.2 key with hkept | htold
  · rw [hkept]
    exact hfirst.2 key
  · exact .inr htold

end

/-- What a response that was not halted went on with. -/
structure Conn.Continues {Request : Type*} (conn next : Conn Request)
    (limits : List RateLimit) : Prop where
  request : next.request = conn.request
  halted : next.halted = conn.halted
  limitLines : next.limitLines =
    conn.limitLines ++ limits.map RateLimit.display

section

variable {Request : Type*}

theorem Conn.Continues.refl (conn : Conn Request) : conn.Continues conn [] :=
  ⟨rfl, rfl, by simp⟩

theorem Conn.Continues.trans {conn next last : Conn Request}
    {limits more : List RateLimit} (hfirst : conn.Continues next limits)
    (hsecond : next.Continues last more) :
    conn.Continues last (limits ++ more) := by
  refine ⟨hsecond.request.trans hfirst.request,
    hsecond.halted.trans hfirst.halted, ?_⟩
  rw [hsecond.limitLines, hfirst.limitLines, List.map_append,
    List.append_assoc]

theorem RateLimiter.continues_respond {K : Type*}
    (self : RateLimiter Request K) (conn : Conn Request) {answer : Answer}
    (hretry : answer.retryAfter = none) :
    conn.Continues (self.respond conn answer) [answer.limit] := by
  refine ⟨?_, ?_, (self.respond_lines conn answer).2⟩
  · rw [RateLimiter.respond, hretry]
  · rw [RateLimiter.respond, hretry]

variable {accepts : Text → Bool} {encode : List UInt8 → Text}

theorem Stage.run_of_token (hencode : Encodes accepts encode)
    {stage : Stage Request} (hreadable : stage.limiter.Readable)
    (overflowChecks : Bool) {store : Store (Option stage.Key)}
    (hquota : store.quota = stage.limiter.quota) {conn : Conn Request}
    (hserves : stage.Serves conn.request) {now : Instant}
    (htoken : ∀ key ∈ stage.owned,
      store.HasToken stage.limiter.quota key now) (draw : UInt64) :
    ∃ after next limits,
      stage.limiter.run encode overflowChecks store conn now draw =
        (after, some next) ∧
      conn.Continues next limits ∧
      (∀ limit ∈ limits, limit.Canonical accepts) ∧
      store.Left stage.limiter.quota limits now after := by
  rcases hserves conn rfl with hskipped | ⟨key, howned, hkey⟩
  · refine ⟨store, conn, [], ?_, .refl conn, by simp, .refl _ _ _ _⟩
    rw [RateLimiter.run_eq, hskipped]
  · obtain ⟨hone, hwhole⟩ := htoken key howned
    obtain ⟨answer, hserve, hretry, hcanonical, htells⟩ :=
      hreadable.serve_of_token hencode overflowChecks hquota rfl hone hwhole
        draw
    have hrun : stage.limiter.run encode overflowChecks store conn now
        draw = (⟨stage.limiter.quota, Function.update store.entries key
          (some ⟨⟨(store.found key now).levelAt stage.limiter.quota now - 1,
            now⟩, now⟩)⟩, some (stage.limiter.respond conn answer)) := by
      rw [RateLimiter.run_eq, hkey]
      simp only [hserve, Option.map_some]
    refine ⟨_, _, _, hrun, stage.limiter.continues_respond conn hretry, ?_, ?_⟩
    · simpa using hcanonical
    · refine ⟨hquota.symm, fun other => ?_⟩
      by_cases hother : other = key
      · subst hother
        refine .inr ⟨_, Function.update_self _ _ _, rfl, ?_, ?_, _,
          List.mem_singleton_self _, htells⟩
        · have hcap := CappedLevel.Meter.levelAt_le_cap
            stage.limiter.quota.cap
            ((store.found other now).toMeter stage.limiter.quota)
            (stage.limiter.quota.units now)
          change _ ≤ _ at hcap
          exact (sub_le_self _ zero_le_one).trans hcap
        · exact hwhole.spend hreadable.count hreadable.whole
      · exact .inl (Function.update_of_ne hother _ _)

end

/-! ## All of them -/

section

variable {ι Request : Type*} [DecidableEq ι] {stages : ι → Stage Request}
  {accepts : Text → Bool} {encode : List UInt8 → Text}

/-- A request passes all limiters that have a token for it. -/
theorem runThrough_of_tokens (hencode : Encodes accepts encode)
    (hreadable : ∀ i, (stages i).limiter.Readable) (overflowChecks : Bool)
    {arrived : ι → Instant} (draw : ι → UInt64) {order : List ι}
    (horder : order.Nodup) {stores : StackStores stages}
    (hquota : ∀ i, (stores i).quota = (stages i).limiter.quota)
    {conn : Conn Request} (hhalted : conn.halted = false)
    (hserves : ∀ i, (stages i).Serves conn.request)
    (htoken : ∀ i ∈ order, ∀ key ∈ (stages i).owned,
      (stores i).HasToken (stages i).limiter.quota key (arrived i)) :
    ∃ after next limits,
      runThrough stages encode overflowChecks arrived draw order stores
        conn = (after, some next) ∧
      conn.Continues next limits ∧
      (∀ limit ∈ limits, limit.Canonical accepts) ∧
      ∀ i, (stores i).Left (stages i).limiter.quota limits (arrived i)
        (after i) := by
  induction order generalizing stores conn with
  | nil =>
      exact ⟨stores, conn, [], rfl, .refl conn, by simp,
        fun i => .refl _ _ _ _⟩
  | cons i rest ih =>
      obtain ⟨hi, hrest⟩ := List.nodup_cons.mp horder
      obtain ⟨hfirst, htokens⟩ := List.forall_mem_cons.mp htoken
      obtain ⟨store, next, limits, hrun, hnext, hcanonical, hleft⟩ :=
        Stage.run_of_token hencode (hreadable i) overflowChecks (hquota i)
          (hserves i) hfirst (draw i)
      have hquotas : ∀ other, (Function.update stores i store other).quota =
          (stages other).limiter.quota := by
        intro other
        by_cases hother : other = i
        · subst hother
          rw [Function.update_self, hleft.1, hquota]
        · rw [Function.update_of_ne hother, hquota]
      have htokens : ∀ other ∈ rest, ∀ key ∈ (stages other).owned,
          (Function.update stores i store other).HasToken
            (stages other).limiter.quota key (arrived other) := by
        intro other hother
        have hne : other ≠ i := fun heq => hi (heq ▸ hother)
        rw [Function.update_of_ne hne]
        exact htokens other hother
      obtain ⟨after, last, more, hlast, hcontinues, hmore, hafter⟩ :=
        ih hrest hquotas (hnext.halted.trans hhalted)
          (hnext.request ▸ hserves) htokens
      refine ⟨after, last, limits ++ more, ?_, hnext.trans hcontinues, ?_, ?_⟩
      · simp only [runThrough, hhalted, hrun]
        exact hlast
      · exact fun limit hmem =>
          (List.mem_append.mp hmem).elim (hcanonical limit) (hmore limit)
      · intro other
        by_cases hother : other = i
        · subst hother
          have hlater := hafter other
          rw [Function.update_self] at hlater
          exact (hleft.mono (List.subset_append_left _ _)).trans
            (hlater.mono (List.subset_append_right _ _))
        · have hkept := hafter other
          rw [Function.update_of_ne hother] at hkept
          exact hkept.mono (List.subset_append_right _ _)

end

end TrilliumRatelimit
