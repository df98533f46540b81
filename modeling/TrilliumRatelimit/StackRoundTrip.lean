import TrilliumRatelimit.LimiterStack
import TrilliumRatelimit.ReferenceParser

/-!
# Reading a stack's headers back

The lines of a stacked response are read back as what the limiters enforced,
exactly if no window is cut to whole seconds and no number of seconds has too
many digits.  A window below a second is written as zero and lost.
-/

namespace TrilliumRatelimit

open StructuredField

variable {Request : Type*}

/-- Where every line is either an error or one item, the items match exactly
if every line is in order. -/
theorem fromLines_matches_iff {α β : Type}
    {parse : Text → Except Fault (List α)} {display : β → Text}
    {Matches : β → α → Prop} {Fine : β → Prop} {lines : List β}
    (hline : ∀ line ∈ lines,
      (∃ item, parse (display line) = .ok [item] ∧
        (Matches line item ↔ Fine line)) ∨
      (parse (display line) = .error .parseError ∧ ¬ Fine line)) :
    (∃ items,
      fromLines parse ((lines.map display).map some) = .ok items ∧
        List.Forall₂ Matches lines items) ↔
      ∀ line ∈ lines, Fine line := by
  induction lines with
  | nil => exact ⟨by simp, fun _ => ⟨[], rfl, .nil⟩⟩
  | cons line lines ih =>
      obtain ⟨hfirst, hrest⟩ := List.forall_mem_cons.mp hline
      have hiff := ih hrest
      rw [List.forall_mem_cons, ← hiff]
      simp only [List.map_cons, fromLines]
      rcases hfirst with ⟨item, hparse, hmatches⟩ | ⟨hparse, hnot⟩
      · rw [hparse, ← hmatches]
        constructor
        · rintro ⟨items, hitems, hforall⟩
          cases hforall with
          | cons hitem hforall =>
              cases hread : fromLines parse ((lines.map display).map some) with
              | error fault =>
                  rw [hread] at hitems
                  simp [Except.map] at hitems
              | ok rest =>
                  simp only [hread, Except.map, List.singleton_append,
                    Except.ok.injEq, List.cons.injEq] at hitems
                  obtain ⟨rfl, rfl⟩ := hitems
                  exact ⟨hitem, _, rfl, hforall⟩
        · rintro ⟨hitem, items, hitems, hforall⟩
          exact ⟨item :: items, by rw [hitems]; rfl, .cons hitem hforall⟩
      · rw [hparse]
        exact iff_of_false (by simp) fun h => hnot h.1

theorem wholeSecs_iff_le {window : Duration}
    (hshort : Short window.asSecs) :
    WholeSecs window ↔ window ≤ Duration.fromSecs window.asSecs := by
  constructor
  · exact fun h => h.asSecs.2.ge
  · intro hle
    refine ⟨window.asSecs, Duration.ext ?_, hshort⟩
    rw [Duration.le_def, Duration.fromSecs_nanos, Duration.asSecs_toNat] at hle
    rw [Duration.fromSecs_nanos, Duration.asSecs_toNat]
    exact le_antisymm hle (Nat.div_mul_le_self _ _)

theorem Metered.matchesPolicy_iff {metered : Metered}
    (hwindow : metered.quota.window ≠ Duration.zero)
    (hshort : Short metered.quota.window.asSecs) :
    metered.MatchesPolicy metered.policy.readBack ↔
      WholeSecs metered.quota.window := by
  constructor
  · rintro ⟨_, _, _, window, hread, hle⟩
    have hbind : readWindow metered.quota.window = some window := hread
    unfold readWindow at hbind
    split at hbind
    next =>
      rw [Option.some.injEq] at hbind
      rw [wholeSecs_iff_le hshort, hbind]
      exact hle
    next => simp at hbind
  · intro hwhole
    exact ⟨rfl, rfl, rfl, metered.quota.window,
      hwhole.readWindow (Duration.nanos_pos hwindow), le_rfl⟩

section

variable {sf : SfParser} {accepts : Text → Bool} {encode : List UInt8 → Text}

theorem parseListWith_spelled {α Fields : Type}
    {format : ItemFormat α Fields} (hsf : sf.FollowsRfc9651 accepts)
    (reading : format.Reading) {text : Text} {member : Member} {item : α}
    (hspells : SpellsMember accepts text member)
    (hread : reading.member member = some item) :
    parseListWith sf format text = .ok [item] := by
  have hlist := list_join (.cons hspells .nil)
  rw [joinMembers_singleton] at hlist
  rw [parseListWith_eq hsf reading, hlist]
  simp [hread]

theorem parseListWith_none {α Fields : Type} {format : ItemFormat α Fields}
    (hsf : sf.FollowsRfc9651 accepts) (reading : format.Reading) {text : Text}
    (h : list accepts text = none) :
    parseListWith sf format text = .error .parseError := by
  rw [parseListWith_eq hsf reading, h]

theorem Metered.Legible.policy_line (hsf : sf.FollowsRfc9651 accepts)
    {metered : Metered} (h : metered.Legible accepts) :
    (∃ policy,
      RateLimitPolicy.parseList sf metered.policy.display = .ok [policy] ∧
        (metered.MatchesPolicy policy ↔ WholeSecs metered.quota.window)) ∨
    (RateLimitPolicy.parseList sf metered.policy.display =
        .error .parseError ∧ ¬ WholeSecs metered.quota.window) := by
  have hspellable : metered.policy.Spellable accepts :=
    ⟨h.name, h.count, QuotaUnit.requests_canonical, h.partitionKey⟩
  by_cases hshort : Short metered.quota.window.asSecs
  · refine .inl ⟨metered.policy.readBack, ?_,
      Metered.matchesPolicy_iff h.window hshort⟩
    refine parseListWith_spelled hsf policyReading
      (hspellable.spells fun window hmem => ?_)
      (RateLimitPolicy.read_member QuotaUnit.requests_canonical)
    rw [← Option.some.inj hmem]
    exact hshort
  · exact .inr ⟨parseListWith_none hsf policyReading
      (hspellable.list_eq_none rfl hshort), fun hwhole => hshort hwhole.asSecs.1⟩

theorem Metered.Legible.limit_line (hsf : sf.FollowsRfc9651 accepts)
    {metered : Metered} (h : metered.Legible accepts) (reset : UInt64) :
    (∃ limit,
      RateLimit.parseList sf (metered.limit reset).display = .ok [limit] ∧
        (metered.MatchesLimit limit ↔ Short reset)) ∨
    (RateLimit.parseList sf (metered.limit reset).display =
        .error .parseError ∧ ¬ Short reset) := by
  have hspellable : (metered.limit reset).Spellable accepts :=
    ⟨h.name, h.remaining, h.partitionKey⟩
  by_cases hshort : Short reset
  · refine .inl ⟨(metered.limit reset).readBack, ?_,
      iff_of_true ⟨rfl, rfl, rfl⟩ hshort⟩
    refine parseListWith_spelled hsf limitReading
      (hspellable.spells fun duration hmem => ?_)
      (RateLimit.read_member _)
    rw [← Option.some.inj hmem, Duration.asSecs_fromSecs]
    exact hshort
  · refine .inr ⟨parseListWith_none hsf limitReading
      (hspellable.list_eq_none rfl ?_), hshort⟩
    rw [Duration.asSecs_fromSecs]
    exact hshort

/-- A response is read back exactly if every line has whole and short
seconds. -/
theorem Advertises.readsBack_iff (hsf : sf.FollowsRfc9651 accepts)
    {overflowChecks : Bool} {visits : List (Visit Request)}
    {request : Request} {response : Conn Request}
    {lines : List (Metered × UInt64)}
    (h : Advertises accepts encode overflowChecks visits (Conn.new request)
      response lines) :
    ReadsBack sf (visits.filterMap (Visit.metered encode)) response ↔
      ∀ visit ∈ visits, visit.Advertisable overflowChecks := by
  obtain ⟨hmetered, hlegible, hpolicies, hlimits, hshort⟩ := h
  have hpolicyLines : (∃ policies,
      RateLimitPolicy.fromHeaders sf (response.policyLines.map some) =
          .ok policies ∧
        List.Forall₂ Metered.MatchesPolicy
          (visits.filterMap (Visit.metered encode)) policies) ↔
      ∀ line ∈ lines, WholeSecs line.1.quota.window := by
    rw [hpolicies, ← hmetered]
    simp only [List.forall₂_map_left_iff]
    exact fromLines_matches_iff fun line hmem =>
      (hlegible line hmem).policy_line hsf
  have hlimitLines : (∃ limits,
      RateLimit.fromHeaders sf (response.limitLines.map some) = .ok limits ∧
        List.Forall₂ Metered.MatchesLimit
          (visits.filterMap (Visit.metered encode)) limits) ↔
      ∀ line ∈ lines, Short line.2 := by
    rw [hlimits, ← hmetered]
    simp only [List.forall₂_map_left_iff]
    exact fromLines_matches_iff fun line hmem =>
      (hlegible line hmem).limit_line hsf line.2
  rw [hshort]
  constructor
  · rintro ⟨hpolicy, hlimit⟩ line hmem
    exact ⟨hpolicyLines.mp hpolicy line hmem, hlimitLines.mp hlimit line hmem⟩
  · intro h
    exact ⟨hpolicyLines.mpr fun line hmem => (h line hmem).1,
      hlimitLines.mpr fun line hmem => (h line hmem).2⟩

/-- Whatever the stores went through, a request gets a response that is read
back as what was enforced, exactly if every limiter that meters it can
advertise its seconds. -/
theorem stack_reads_back_iff (hsf : sf.FollowsRfc9651 accepts)
    (hencode : Encodes accepts encode) (overflowChecks : Bool)
    (layers : List (Layer Request))
    (hconfigured : ∀ layer ∈ layers, layer.limiter.Configured)
    (request : Request) :
    StackReadsBack sf encode overflowChecks layers (Conn.new request) ↔
      ∀ visit ∈ visits encode overflowChecks layers (Conn.new request),
        visit.Advertisable overflowChecks := by
  constructor
  · rintro ⟨response, hrun, hread⟩
    obtain ⟨lines, hlines⟩ := runStack_advertises hencode hconfigured hrun
    exact (hlines.readsBack_iff hsf).mp hread
  · intro h
    obtain ⟨response, hrun⟩ :=
      Option.isSome_iff_exists.mp (runStack_isSome hconfigured h)
    obtain ⟨lines, hlines⟩ := runStack_advertises hencode hconfigured hrun
    exact ⟨response, hrun, (hlines.readsBack_iff hsf).mpr h⟩

end

/-- A limiter nobody has used yet. -/
def freshLayer {K : Type} [DecidableEq K] (limiter : RateLimiter Unit K) :
    Layer Unit where
  Key := K
  decEq := inferInstance
  limiter := limiter
  store := Store.new (Option K) limiter.quota
  used := .refl
  now := Instant.atSec 0
  draw := 0

/-- Two limiters, one with quotes in its name and one that emits its key. -/
theorem stack_reads_back_iff_two :
    StackReadsBack (referenceParser Base64.canonical) Base64.encode true
      [freshLayer ((oneKeyLimiter (Quota.perMinute 5)).withPolicyName
          "a \"minute\"".toList),
        freshLayer ((RateLimiter.new (Quota.perHour 100) fun _ =>
          some (7 : UInt8)).withPartitionKey fun key => [key])]
      (Conn.new ()) := by
  refine (stack_reads_back_iff (referenceParser_followsRfc9651 _)
    base64_encodes true _ ?_ ()).mpr ?_
  · simp only [List.forall_mem_cons, List.not_mem_nil, false_implies,
      implies_true, and_true]
    constructor
    · exact ⟨by decide +kernel, by decide, by decide, by decide⟩
    · exact ⟨by decide +kernel, by decide, by decide, by decide⟩
  · rintro ⟨layer, conn⟩ hvisit key hkey
    have hlayer := layer_mem_of_visits hvisit
    simp only [List.mem_cons, List.not_mem_nil, or_false] at hlayer
    clear hvisit
    rcases hlayer with rfl | rfl
    · obtain rfl : some () = key := Metering.metered.inj hkey
      change Layer.Advertisable true (freshLayer _) _
      clear hkey conn
      exact ⟨⟨60, rfl, short_of_le (by decide)⟩, by decide +kernel⟩
    · obtain rfl : some (7 : UInt8) = key := Metering.metered.inj hkey
      change Layer.Advertisable true (freshLayer _) _
      clear hkey conn
      exact ⟨⟨3600, rfl, short_of_le (by decide)⟩, by decide +kernel⟩

/-- A window of half a second is advertised as zero seconds, which are read as
no window at all. -/
theorem stack_window_lost :
    ¬ ∀ (sf : SfParser) (accepts : Text → Bool) (encode : List UInt8 → Text),
      sf.FollowsRfc9651 accepts → Encodes accepts encode →
      ∀ (overflowChecks : Bool) (layers : List (Layer Unit)),
        (∀ layer ∈ layers, layer.limiter.Configured) →
        ∀ request, StackReadsBack sf encode overflowChecks layers
          (Conn.new request) := by
  intro hclaim
  let layer := freshLayer (oneKeyLimiter (Quota.per 5 ⟨500000000, by decide⟩))
  have hsf := referenceParser_followsRfc9651 Base64.canonical
  obtain ⟨response, hrun, ⟨policies, hparse, hmatches⟩, _⟩ := hclaim _ _ _ hsf
    base64_encodes true [layer] (by
      rw [List.forall_mem_singleton]
      exact ⟨by decide +kernel, by decide, by decide, by decide⟩) ()
  have hlines : (runStack Base64.encode true [layer] (Conn.new ())).map
      Conn.policyLines = some ["\"default\";q=5;w=0".toList] := by
    decide +kernel
  have hmetered : (visits Base64.encode true [layer] (Conn.new ())).filterMap
      (Visit.metered Base64.encode) = [⟨"default".toList,
        Quota.per 5 ⟨500000000, by decide⟩, none, 4⟩] := by decide +kernel
  have hread : RateLimitPolicy.parseList (referenceParser Base64.canonical)
      "\"default\";q=5;w=0".toList =
        .ok [⟨"default".toList, 5, .requests, none, none⟩] :=
    (parseListWith_eq_ok_iff hsf policyReading).mpr (by decide +kernel)
  rw [hrun, Option.map_some, Option.some.injEq] at hlines
  rw [hlines] at hparse
  rw [hmetered] at hmatches
  simp only [RateLimitPolicy.fromHeaders, List.map_cons, List.map_nil,
    fromLines, hread] at hparse
  obtain rfl := Except.ok.inj hparse
  cases hmatches with
  | cons hpolicy _ =>
      obtain ⟨window, hwindow, _⟩ := hpolicy.window
      simp at hwindow

end TrilliumRatelimit
