import TrilliumRatelimit.Base64
import TrilliumRatelimit.CanonicalHeaders
import TrilliumRatelimit.ReferenceParser

/-!
# Formatting and parsing

A list that was parsed survives being formatted and parsed again, and a single
value survives exactly if it is canonical.
-/

namespace TrilliumRatelimit

open StructuredField

/-- A parsed list of either field is parsed from its own text. -/
theorem parseList_display {sf : SfParser} {accepts : Text → Bool}
    (hsf : sf.FollowsRfc9651 accepts) :
    (∀ input policies, RateLimitPolicy.parseList sf input = .ok policies →
      RateLimitPolicy.parseList sf
        (joinMembers (policies.map RateLimitPolicy.display)) =
          .ok policies) ∧
    ∀ input limits, RateLimit.parseList sf input = .ok limits →
      RateLimit.parseList sf (joinMembers (limits.map RateLimit.display)) =
        .ok limits := by
  constructor
  · intro input policies h
    have hcanonical := RateLimitPolicy.canonical_of_parseList hsf h
    exact parseListWith_joinMembers hsf policyReading
      (fun policy hmem => (hcanonical policy hmem).spells)
      fun policy hmem => (hcanonical policy hmem).read
  · intro input limits h
    have hcanonical := RateLimit.canonical_of_parseList hsf h
    exact parseListWith_joinMembers hsf limitReading
      (fun limit hmem => (hcanonical limit hmem).spells)
      fun limit hmem => (hcanonical limit hmem).read

theorem parseList_display_reference :
    RateLimitPolicy.parseList (referenceParser Base64.canonical)
        (joinMembers [RateLimitPolicy.display ⟨"a\"b".toList, 5, .requests,
          some (Duration.fromSecs 60), some "YWI=".toList⟩]) =
      .ok [⟨"a\"b".toList, 5, .requests, some (Duration.fromSecs 60),
        some "YWI=".toList⟩] ∧
    RateLimit.parseList (referenceParser Base64.canonical)
        (joinMembers [RateLimit.display ⟨"a".toList, 3, none, none⟩,
          RateLimit.display ⟨[], 0, some Duration.zero, none⟩]) =
      .ok [⟨"a".toList, 3, none, none⟩,
        ⟨[], 0, some Duration.zero, none⟩] := by
  have hsf := referenceParser_followsRfc9651 Base64.canonical
  -- duplicate, wrongly typed and unknown parameters, and members to skip
  have hpolicies : RateLimitPolicy.parseList (referenceParser Base64.canonical)
      "(x);q=1, \"a\\\"b\";w=60;pk=:YWI=:;q=9;w=-1;q=5;z, 7".toList =
        .ok [⟨"a\"b".toList, 5, .requests, some (Duration.fromSecs 60),
          some "YWI=".toList⟩] :=
    (parseListWith_eq_ok_iff hsf policyReading).mpr (by decide +kernel)
  have hlimits : RateLimit.parseList (referenceParser Base64.canonical)
      "\"a\";r=3;t=\"x\", \"\";t=0;r=0, \"b\"".toList =
        .ok [⟨"a".toList, 3, none, none⟩,
          ⟨[], 0, some Duration.zero, none⟩] :=
    (parseListWith_eq_ok_iff hsf limitReading).mpr (by decide +kernel)
  obtain ⟨hpolicy, hlimit⟩ := parseList_display hsf
  exact ⟨hpolicy _ _ hpolicies, hlimit _ _ hlimits⟩

/-! ## One value -/

theorem isPartitionKey_iff {accepts : Text → Bool} {key : Text} :
    IsPartitionKey accepts key ↔
      base64Body accepts (key ++ [':']) = some (key, []) :=
  ⟨fun h => base64Body_append h.1 h.2 [], base64Body_legal⟩

theorem printable_iff {text : Text} :
    Printable text ↔ ∀ c ∈ text, 0x20 ≤ c.toNat ∧ c.toNat ≤ 0x7E := by
  unfold Printable
  refine forall₂_congr fun c _ => ?_
  rw [isPrintable, Bool.and_eq_true, decide_eq_true_eq, decide_eq_true_eq]
  exact Iff.rfl

theorem QuotaUnit.fromCow_eq_other_iff {token : Text} :
    QuotaUnit.fromCow token = .other token ↔
      token ≠ "requests".toList ∧ token ≠ "content-bytes".toList ∧
        token ≠ "concurrent-requests".toList := by
  unfold QuotaUnit.fromCow
  split_ifs with hrequests hbytes hconcurrent
  · exact ⟨nofun, fun h => absurd hrequests h.1⟩
  · exact ⟨nofun, fun h => absurd hbytes h.2.1⟩
  · exact ⟨nofun, fun h => absurd hconcurrent h.2.2⟩
  · exact ⟨fun _ => ⟨hrequests, hbytes, hconcurrent⟩, fun _ => rfl⟩

theorem QuotaUnit.canonical_iff {unit : QuotaUnit} :
    unit.Canonical ↔ ∀ token, unit = .other token →
      (∀ c ∈ token, 0x20 ≤ c.toNat ∧ c.toNat ≤ 0x7E) ∧
      token ≠ "requests".toList ∧ token ≠ "content-bytes".toList ∧
        token ≠ "concurrent-requests".toList := by
  cases unit with
  | other token =>
      constructor
      · rintro ⟨hprintable, hread⟩ other heq
        obtain rfl := QuotaUnit.other.inj heq
        exact ⟨printable_iff.mp hprintable,
          QuotaUnit.fromCow_eq_other_iff.mp hread⟩
      · intro h
        obtain ⟨hprintable, hread⟩ := h token rfl
        exact ⟨printable_iff.mpr hprintable,
          QuotaUnit.fromCow_eq_other_iff.mpr hread⟩
  | requests | contentBytes | concurrentRequests =>
      exact ⟨nofun, fun _ => ⟨by decide +kernel, by decide +kernel⟩⟩

theorem short_iff {n : UInt64} : Short n ↔ n.toNat ≤ 999999999999999 :=
  Nat.lt_succ_iff

theorem wholeSecs_iff {d : Duration} :
    WholeSecs d ↔ ∃ secs : UInt64, secs.toNat ≤ 999999999999999 ∧
      d = Duration.fromSecs secs := by
  simp only [WholeSecs, short_iff, and_comm]

theorem wholeSecs_pos_iff {d : Duration} :
    (WholeSecs d ∧ 0 < d.nanos) ↔ ∃ secs : UInt64, 1 ≤ secs.toNat ∧
      secs.toNat ≤ 999999999999999 ∧ d = Duration.fromSecs secs := by
  constructor
  · rintro ⟨⟨secs, rfl, hshort⟩, hpos⟩
    rw [Duration.fromSecs_nanos] at hpos
    exact ⟨secs, Nat.pos_of_mul_pos_right hpos, short_iff.mp hshort, rfl⟩
  · rintro ⟨secs, hpos, hshort, rfl⟩
    have hnanos : 0 < nanosPerSec := by decide
    exact ⟨⟨secs, rfl, short_iff.mpr hshort⟩, Nat.mul_pos hpos hnanos⟩

theorem RateLimitPolicy.canonical_iff {accepts : Text → Bool}
    {policy : RateLimitPolicy} :
    policy.Canonical accepts ↔
      (∀ c ∈ policy.name, 0x20 ≤ c.toNat ∧ c.toNat ≤ 0x7E) ∧
      (∀ token, policy.unit = .other token →
        (∀ c ∈ token, 0x20 ≤ c.toNat ∧ c.toNat ≤ 0x7E) ∧
        token ≠ "requests".toList ∧ token ≠ "content-bytes".toList ∧
          token ≠ "concurrent-requests".toList) ∧
      policy.quota.toNat ≤ 999999999999999 ∧
      (∀ window ∈ policy.window, ∃ secs : UInt64, 1 ≤ secs.toNat ∧
        secs.toNat ≤ 999999999999999 ∧ window = Duration.fromSecs secs) ∧
      ∀ key ∈ policy.partitionKey,
        base64Body accepts (key ++ [':']) = some (key, []) := by
  simp only [← QuotaUnit.canonical_iff, ← wholeSecs_pos_iff]
  simp only [← printable_iff, ← short_iff, ← isPartitionKey_iff]
  constructor
  · rintro ⟨hname, hquota, hunit, hwindow, hkey⟩
    exact ⟨hname, hunit, hquota _ rfl, hwindow, hkey⟩
  · rintro ⟨hname, hunit, hquota, hwindow, hkey⟩
    refine ⟨hname, ?_, hunit, hwindow, hkey⟩
    rintro _ ⟨⟩
    exact hquota

theorem RateLimit.canonical_iff {accepts : Text → Bool} {limit : RateLimit} :
    limit.Canonical accepts ↔
      (∀ c ∈ limit.name, 0x20 ≤ c.toNat ∧ c.toNat ≤ 0x7E) ∧
      limit.remaining.toNat ≤ 999999999999999 ∧
      (∀ reset ∈ limit.reset, ∃ secs : UInt64,
        secs.toNat ≤ 999999999999999 ∧ reset = Duration.fromSecs secs) ∧
      ∀ key ∈ limit.partitionKey,
        base64Body accepts (key ++ [':']) = some (key, []) := by
  simp only [← wholeSecs_iff]
  simp only [← printable_iff, ← short_iff, ← isPartitionKey_iff]
  constructor
  · rintro ⟨hname, hremaining, hreset, hkey⟩
    exact ⟨hname, hremaining _ rfl, hreset, hkey⟩
  · rintro ⟨hname, hremaining, hreset, hkey⟩
    refine ⟨hname, ?_, hreset, hkey⟩
    rintro _ ⟨⟩
    exact hremaining

/-- One value is a list of its own. -/
theorem parseListWith_display_iff {α Fields : Type} {sf : SfParser}
    {accepts : Text → Bool} (hsf : sf.FollowsRfc9651 accepts)
    {format : ItemFormat α Fields} (reading : format.Reading)
    {display : α → Text} {memberOf : α → Member} {Canonical : α → Prop}
    (hcanonical : ∀ {input items}, parseListWith sf format input = .ok items →
      ∀ item ∈ items, Canonical item)
    (hspells : ∀ {item}, Canonical item →
      SpellsMember accepts (display item) (memberOf item))
    (hread : ∀ {item}, Canonical item →
      reading.member (memberOf item) = some item) (item : α) :
    parseListWith sf format (display item) = .ok [item] ↔ Canonical item := by
  constructor
  · intro h
    exact hcanonical h item (List.mem_singleton_self item)
  · intro h
    have hjoin := parseListWith_joinMembers hsf reading
      (List.forall_mem_singleton.mpr (hspells h))
      (List.forall_mem_singleton.mpr (hread h))
    rwa [List.map_singleton, joinMembers_singleton] at hjoin

/-- A policy survives exactly if its texts are printable, its unit is not a
registered one in disguise, and its numbers fit the format. -/
theorem parseList_display_iff {sf : SfParser} {accepts : Text → Bool}
    (hsf : sf.FollowsRfc9651 accepts) :
    (∀ policy : RateLimitPolicy,
      RateLimitPolicy.parseList sf policy.display = .ok [policy] ↔
        (∀ c ∈ policy.name, 0x20 ≤ c.toNat ∧ c.toNat ≤ 0x7E) ∧
        (∀ token, policy.unit = .other token →
          (∀ c ∈ token, 0x20 ≤ c.toNat ∧ c.toNat ≤ 0x7E) ∧
          token ≠ "requests".toList ∧ token ≠ "content-bytes".toList ∧
            token ≠ "concurrent-requests".toList) ∧
        policy.quota.toNat ≤ 999999999999999 ∧
        (∀ window ∈ policy.window, ∃ secs : UInt64, 1 ≤ secs.toNat ∧
          secs.toNat ≤ 999999999999999 ∧ window = Duration.fromSecs secs) ∧
        ∀ key ∈ policy.partitionKey,
          base64Body accepts (key ++ [':']) = some (key, [])) ∧
    ∀ limit : RateLimit,
      RateLimit.parseList sf limit.display = .ok [limit] ↔
        (∀ c ∈ limit.name, 0x20 ≤ c.toNat ∧ c.toNat ≤ 0x7E) ∧
        limit.remaining.toNat ≤ 999999999999999 ∧
        (∀ reset ∈ limit.reset, ∃ secs : UInt64,
          secs.toNat ≤ 999999999999999 ∧ reset = Duration.fromSecs secs) ∧
        ∀ key ∈ limit.partitionKey,
          base64Body accepts (key ++ [':']) = some (key, []) := by
  constructor
  · intro policy
    rw [← RateLimitPolicy.canonical_iff]
    exact parseListWith_display_iff hsf policyReading
      (RateLimitPolicy.canonical_of_parseList hsf)
      RateLimitPolicy.Canonical.spells RateLimitPolicy.Canonical.read policy
  · intro limit
    rw [← RateLimit.canonical_iff]
    exact parseListWith_display_iff hsf limitReading
      (RateLimit.canonical_of_parseList hsf)
      RateLimit.Canonical.spells RateLimit.Canonical.read limit

/-- A policy of everything the format has, and one whose window is a second
and a half. -/
theorem parseList_display_iff_reference :
    RateLimitPolicy.parseList (referenceParser Base64.canonical)
        (RateLimitPolicy.display ⟨"a\"\\b".toList, 999999999999999,
          .other "apples".toList, some (Duration.fromSecs 60),
          some "YWI=".toList⟩) =
      .ok [⟨"a\"\\b".toList, 999999999999999, .other "apples".toList,
        some (Duration.fromSecs 60), some "YWI=".toList⟩] ∧
    RateLimitPolicy.parseList (referenceParser Base64.canonical)
        (RateLimitPolicy.display ⟨"a".toList, 5, .requests,
          some (Duration.fromNanos 1500000000), none⟩) ≠
      .ok [⟨"a".toList, 5, .requests,
        some (Duration.fromNanos 1500000000), none⟩] := by
  have hiff := (parseList_display_iff
    (referenceParser_followsRfc9651 Base64.canonical)).1
  constructor
  · rw [hiff]
    refine ⟨printable_iff.mp (by decide +kernel), ?_, by decide, ?_, ?_⟩
    · rintro token heq
      obtain rfl := QuotaUnit.other.inj heq
      exact ⟨printable_iff.mp (by decide +kernel), by decide +kernel⟩
    · rintro _ ⟨⟩
      exact ⟨60, by decide, by decide, rfl⟩
    · rintro _ ⟨⟩
      decide +kernel
  · rw [Ne, hiff]
    rintro ⟨_, _, _, hwindow, _⟩
    obtain ⟨secs, _, _, hsecs⟩ := hwindow _ rfl
    have hnanos := congrArg Duration.nanos hsecs
    change 1500000000 = secs.toNat * 1000000000 at hnanos
    omega

end TrilliumRatelimit
