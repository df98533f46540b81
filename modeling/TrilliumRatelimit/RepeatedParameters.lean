import TrilliumRatelimit.Base64
import TrilliumRatelimit.RateLimit
import TrilliumRatelimit.RateLimitPolicy
import TrilliumRatelimit.ReferenceParser

/-!
# Repeated parameters

In a structured field the last occurrence of a key is its value.  The
parameter loops do not build that map: an occurrence they cannot use does not
overwrite an earlier one they can.  Where the last occurrence of every key can
be used, or no occurrence can, the two readings agree.
-/

namespace TrilliumRatelimit

open StructuredField

/-! ## Two readings of a key -/

/-- The map of the standard: a later occurrence overwrites an earlier one. -/
def paramMap (params : Params) : Text → Option BareItem :=
  params.foldl (fun map param => Function.update map param.1 (some param.2))
    fun _ => none

def occurrences (key : Text) (params : Params) : List BareItem :=
  (params.filter fun param => param.1 = key).map Prod.snd

def lastWins {β : Type} (params : Params) (key : Text)
    (read : BareItem → Option β) : Option β :=
  (paramMap params key).bind read

/-- The last of the occurrences that can be read. -/
def lastReadable {β : Type} (params : Params) (key : Text)
    (read : BareItem → Option β) : Option β :=
  ((occurrences key params).filterMap read).getLast?

/-- The last occurrence can be read, or none can. -/
def Settled {β : Type} (params : Params) (key : Text)
    (read : BareItem → Option β) : Prop :=
  (∃ bare, (occurrences key params).getLast? = some bare ∧
    (read bare).isSome) ∨ ∀ bare ∈ occurrences key params, read bare = none

theorem occurrences_concat (key : Text) (params : Params)
    (param : Text × BareItem) :
    occurrences key (params ++ [param]) =
      if param.1 = key then occurrences key params ++ [param.2]
      else occurrences key params := by
  unfold occurrences
  split <;> simp_all

theorem paramMap_eq (params : Params) (key : Text) :
    paramMap params key = (occurrences key params).getLast? := by
  induction params using List.reverseRecOn with
  | nil => rfl
  | append_singleton params param ih =>
      rw [paramMap, List.foldl_append, occurrences_concat]
      change Function.update (paramMap params) param.1 (some param.2) key = _
      by_cases hkey : param.1 = key
      · rw [if_pos hkey, hkey, Function.update_self, List.getLast?_concat]
      · rw [if_neg hkey, Function.update_of_ne (Ne.symm hkey), ih]

theorem lastReadable_concat {β : Type} (params : Params) (key : Text)
    (read : BareItem → Option β) (param : Text × BareItem) :
    lastReadable (params ++ [param]) key read =
      if param.1 = key then
        (read param.2).or (lastReadable params key read)
      else lastReadable params key read := by
  unfold lastReadable
  rw [occurrences_concat]
  split
  · rw [List.filterMap_append, List.getLast?_append]
    cases hread : read param.2 with
    | none => simp [hread]
    | some value => simp [hread]
  · rfl

theorem Settled.lastReadable_eq {β : Type} {params : Params} {key : Text}
    {read : BareItem → Option β} (h : Settled params key read) :
    lastReadable params key read = lastWins params key read := by
  unfold lastWins lastReadable
  rw [paramMap_eq]
  rcases h with ⟨bare, hlast, hread⟩ | hnone
  · obtain ⟨before, hbefore⟩ := List.getLast?_eq_some_iff.mp hlast
    obtain ⟨value, hvalue⟩ := Option.isSome_iff_exists.mp hread
    rw [hlast, hbefore, List.filterMap_append]
    simp [hvalue]
  · rw [List.filterMap_eq_nil_iff.mpr hnone]
    cases hlast : (occurrences key params).getLast? with
    | none => rfl
    | some bare =>
        exact (hnone bare (List.mem_of_getLast? hlast)).symm

/-! ## What the loops read -/

def nonNegative : BareItem → Option UInt64
  | .integer n => if 0 ≤ n then some (readCount n) else none
  | _ => none

def positive : BareItem → Option UInt64
  | .integer n => if 0 < n then some (readCount n) else none
  | _ => none

def stringText : BareItem → Option Text
  | .string raw => some (unescape raw)
  | _ => none

def byteText : BareItem → Option Text
  | .byteSequence raw => some raw
  | _ => none

/-- A way to find the value of a key in parameters. -/
abbrev ParamLookup :=
  {β : Type} → Params → Text → (BareItem → Option β) → Option β

def RateLimitPolicy.ofMember (get : ParamLookup) :
    Member → Option RateLimitPolicy
  | .item ⟨.string raw, params⟩ =>
      (get params "q".toList nonNegative).map fun quota =>
        { name := unescape raw
          quota := quota
          unit := (get params "qu".toList stringText).elim .requests
            QuotaUnit.fromCow
          window := (get params "w".toList positive).map Duration.fromSecs
          partitionKey := get params "pk".toList byteText }
  | _ => none

def RateLimit.ofMember (get : ParamLookup) : Member → Option RateLimit
  | .item ⟨.string raw, params⟩ =>
      (get params "r".toList nonNegative).map fun remaining =>
        { name := unescape raw
          remaining := remaining
          reset := (get params "t".toList nonNegative).map Duration.fromSecs
          partitionKey := get params "pk".toList byteText }
  | _ => none

/-- One parameter is read for its own key only, and only if it can be. -/
theorem PolicyFields.set_eq (fields : PolicyFields) (key : Text)
    (bare : BareItem) :
    fields.set key bare =
      { quota := if key = "q".toList then (nonNegative bare).or fields.quota
          else fields.quota
        unit := if key = "qu".toList then
            (stringText bare).elim fields.unit QuotaUnit.fromCow
          else fields.unit
        window := if key = "w".toList then
            ((positive bare).map Duration.fromSecs).or fields.window
          else fields.window
        partitionKey := if key = "pk".toList then
            (byteText bare).or fields.partitionKey
          else fields.partitionKey } := by
  have hkeys : "w".toList ≠ "q".toList := by decide
  cases bare with
  | integer n =>
      simp only [PolicyFields.set, nonNegative, positive, stringText, byteText]
      generalize "q".toList = q at hkeys ⊢
      generalize "w".toList = w at hkeys ⊢
      by_cases hq : key = q
      · subst hq
        by_cases hn : 0 ≤ n <;> simp [hn, hkeys.symm]
      · by_cases hw : key = w
        · subst hw
          by_cases hn : 0 < n <;> simp [hn, hkeys]
        · simp [hq, hw]
  | string raw =>
      simp only [PolicyFields.set, nonNegative, positive, stringText, byteText]
      split <;> simp
  | byteSequence raw =>
      simp only [PolicyFields.set, nonNegative, positive, stringText, byteText]
      split <;> simp
  | _ => simp [PolicyFields.set, nonNegative, positive, stringText, byteText]

theorem LimitFields.set_eq (fields : LimitFields) (key : Text)
    (bare : BareItem) :
    fields.set key bare =
      { remaining := if key = "r".toList then
            (nonNegative bare).or fields.remaining
          else fields.remaining
        reset := if key = "t".toList then
            ((nonNegative bare).map Duration.fromSecs).or fields.reset
          else fields.reset
        partitionKey := if key = "pk".toList then
            (byteText bare).or fields.partitionKey
          else fields.partitionKey } := by
  have hkeys : "t".toList ≠ "r".toList := by decide
  cases bare with
  | integer n =>
      simp only [LimitFields.set, nonNegative, byteText]
      generalize "r".toList = r at hkeys ⊢
      generalize "t".toList = t at hkeys ⊢
      by_cases hr : key = r
      · subst hr
        by_cases hn : 0 ≤ n <;> simp [hn, hkeys.symm]
      · by_cases ht : key = t
        · subst ht
          by_cases hn : 0 ≤ n <;> simp [hn, hkeys]
        · simp [hr, ht]
  | byteSequence raw =>
      simp only [LimitFields.set, nonNegative, byteText]
      split <;> simp
  | _ => simp [LimitFields.set, nonNegative, byteText]

theorem policyReading_params (params : Params) :
    policyReading.params params policyFormat.fields =
      { quota := lastReadable params "q".toList nonNegative
        unit := (lastReadable params "qu".toList stringText).elim .requests
          QuotaUnit.fromCow
        window := (lastReadable params "w".toList positive).map
          Duration.fromSecs
        partitionKey := lastReadable params "pk".toList byteText } := by
  induction params using List.reverseRecOn with
  | nil => rfl
  | append_singleton params param ih =>
      rw [ItemFormat.Reading.params, List.foldl_append]
      change PolicyFields.set (policyReading.params params _) param.1
        param.2 = _
      rw [ih, PolicyFields.set_eq]
      simp only [lastReadable_concat]
      congr 1
      · cases stringText param.2 <;> split <;> rfl
      · cases positive param.2 <;> split <;> rfl

theorem limitReading_params (params : Params) :
    limitReading.params params limitFormat.fields =
      { remaining := lastReadable params "r".toList nonNegative
        reset := (lastReadable params "t".toList nonNegative).map
          Duration.fromSecs
        partitionKey := lastReadable params "pk".toList byteText } := by
  induction params using List.reverseRecOn with
  | nil => rfl
  | append_singleton params param ih =>
      rw [ItemFormat.Reading.params, List.foldl_append]
      change LimitFields.set (limitReading.params params _) param.1
        param.2 = _
      rw [ih, LimitFields.set_eq]
      simp only [lastReadable_concat]
      congr 1
      cases nonNegative param.2 <;> split <;> rfl

theorem policyReading_member (member : Member) :
    policyReading.member member =
      RateLimitPolicy.ofMember lastReadable member := by
  cases member with
  | innerList => rfl
  | item item =>
      obtain ⟨bare, params⟩ := item
      cases bare with
      | string raw =>
          change policyFormat.finish _ (policyReading.params params _) = _
          rw [policyReading_params]
          rfl
      | _ => rfl

theorem limitReading_member (member : Member) :
    limitReading.member member = RateLimit.ofMember lastReadable member := by
  cases member with
  | innerList => rfl
  | item item =>
      obtain ⟨bare, params⟩ := item
      cases bare with
      | string raw =>
          change limitFormat.finish _ (limitReading.params params _) = _
          rw [limitReading_params]
          rfl
      | _ => rfl

/-! ## Where the readings agree -/

def SettledPolicy (params : Params) : Prop :=
  Settled params "q".toList nonNegative ∧
    Settled params "qu".toList stringText ∧
      Settled params "w".toList positive ∧ Settled params "pk".toList byteText

def SettledLimit (params : Params) : Prop :=
  Settled params "r".toList nonNegative ∧
    Settled params "t".toList nonNegative ∧
      Settled params "pk".toList byteText

theorem SettledPolicy.ofMember_eq {params : Params}
    (h : SettledPolicy params) (raw : Text) :
    RateLimitPolicy.ofMember lastReadable (.item ⟨.string raw, params⟩) =
      RateLimitPolicy.ofMember lastWins (.item ⟨.string raw, params⟩) := by
  obtain ⟨hquota, hunit, hwindow, hkey⟩ := h
  simp only [RateLimitPolicy.ofMember, hquota.lastReadable_eq,
    hunit.lastReadable_eq, hwindow.lastReadable_eq, hkey.lastReadable_eq]

theorem SettledLimit.ofMember_eq {params : Params}
    (h : SettledLimit params) (raw : Text) :
    RateLimit.ofMember lastReadable (.item ⟨.string raw, params⟩) =
      RateLimit.ofMember lastWins (.item ⟨.string raw, params⟩) := by
  obtain ⟨hremaining, hreset, hkey⟩ := h
  simp only [RateLimit.ofMember, hremaining.lastReadable_eq,
    hreset.lastReadable_eq, hkey.lastReadable_eq]

theorem filterMap_congr_of_strings {α : Type} {members : List Member}
    {read read' : Member → Option α}
    (hother : ∀ member, (∀ raw params, member ≠ .item ⟨.string raw, params⟩) →
      read member = read' member)
    (hstring : ∀ raw params, .item ⟨.string raw, params⟩ ∈ members →
      read (.item ⟨.string raw, params⟩) =
        read' (.item ⟨.string raw, params⟩)) :
    members.filterMap read = members.filterMap read' := by
  apply List.filterMap_congr
  intro member hmem
  by_cases hname : ∃ raw params, member = .item ⟨.string raw, params⟩
  · obtain ⟨raw, params, rfl⟩ := hname
    exact hstring raw params hmem
  · exact hother member fun raw params heq => hname ⟨raw, params, heq⟩

theorem RateLimitPolicy.ofMember_of_no_string (get get' : ParamLookup)
    {member : Member}
    (h : ∀ raw params, member ≠ .item ⟨.string raw, params⟩) :
    RateLimitPolicy.ofMember get member =
      RateLimitPolicy.ofMember get' member := by
  cases member with
  | innerList => rfl
  | item item =>
      obtain ⟨bare, params⟩ := item
      cases bare with
      | string raw => exact absurd rfl (h raw params)
      | _ => rfl

theorem RateLimit.ofMember_of_no_string (get get' : ParamLookup)
    {member : Member}
    (h : ∀ raw params, member ≠ .item ⟨.string raw, params⟩) :
    RateLimit.ofMember get member = RateLimit.ofMember get' member := by
  cases member with
  | innerList => rfl
  | item item =>
      obtain ⟨bare, params⟩ := item
      cases bare with
      | string raw => exact absurd rfl (h raw params)
      | _ => rfl

/-- The parsers take the last occurrence of a key that they can read, which
is the value of the key where that value can be read or no occurrence can. -/
theorem parseList_lastReadable {sf : SfParser} {accepts : Text → Bool}
    (hsf : sf.FollowsRfc9651 accepts) {input : Text} {members : List Member}
    (hlist : list accepts input = some members) :
    (RateLimitPolicy.parseList sf input =
        .ok (members.filterMap (RateLimitPolicy.ofMember lastReadable)) ∧
      ((∀ raw params, .item ⟨.string raw, params⟩ ∈ members →
          SettledPolicy params) →
        RateLimitPolicy.parseList sf input =
          .ok (members.filterMap (RateLimitPolicy.ofMember lastWins)))) ∧
    RateLimit.parseList sf input =
        .ok (members.filterMap (RateLimit.ofMember lastReadable)) ∧
      ((∀ raw params, .item ⟨.string raw, params⟩ ∈ members →
          SettledLimit params) →
        RateLimit.parseList sf input =
          .ok (members.filterMap (RateLimit.ofMember lastWins))) := by
  have hpolicies : RateLimitPolicy.parseList sf input =
      .ok (members.filterMap (RateLimitPolicy.ofMember lastReadable)) := by
    rw [RateLimitPolicy.parseList, parseListWith_eq hsf policyReading, hlist,
      funext policyReading_member]
  have hlimits : RateLimit.parseList sf input =
      .ok (members.filterMap (RateLimit.ofMember lastReadable)) := by
    rw [RateLimit.parseList, parseListWith_eq hsf limitReading, hlist,
      funext limitReading_member]
  refine ⟨⟨hpolicies, fun hsettled => ?_⟩, hlimits, fun hsettled => ?_⟩
  · rw [hpolicies, filterMap_congr_of_strings
      (fun _ => RateLimitPolicy.ofMember_of_no_string lastReadable lastWins)
      fun raw params hmem => (hsettled raw params hmem).ofMember_eq raw]
  · rw [hlimits, filterMap_congr_of_strings
      (fun _ => RateLimit.ofMember_of_no_string lastReadable lastWins)
      fun raw params hmem => (hsettled raw params hmem).ofMember_eq raw]

/-- A quota and a limit that a later occurrence of another type does not
overwrite, and one that a later number does. -/
theorem parseList_lastReadable_repeated :
    RateLimitPolicy.parseList (referenceParser Base64.canonical)
        "\"a\";q=1;q=2;w=60;w=0;q=x".toList =
          .ok [⟨"a".toList, 2, .requests, some (Duration.fromSecs 60),
            none⟩] ∧
      RateLimit.parseList (referenceParser Base64.canonical)
        "\"a\";r=1;t=5;r=?1".toList =
          .ok [⟨"a".toList, 1, some (Duration.fromSecs 5), none⟩] := by
  have hsf := referenceParser_followsRfc9651 Base64.canonical
  obtain ⟨⟨hpolicies, _⟩, _⟩ := parseList_lastReadable hsf
    (show list Base64.canonical "\"a\";q=1;q=2;w=60;w=0;q=x".toList =
      some [.item ⟨.string "a".toList, [("q".toList, .integer 1),
        ("q".toList, .integer 2), ("w".toList, .integer 60),
        ("w".toList, .integer 0), ("q".toList, .token "x".toList)]⟩]
      by decide +kernel)
  obtain ⟨_, hlimits, _⟩ := parseList_lastReadable hsf
    (show list Base64.canonical "\"a\";r=1;t=5;r=?1".toList =
      some [.item ⟨.string "a".toList, [("r".toList, .integer 1),
        ("t".toList, .integer 5), ("r".toList, .boolean true)]⟩]
      by decide +kernel)
  rw [hpolicies, hlimits]
  decide +kernel

/-- A negative quota does not overwrite the quota before it, where the
parameter map of the standard leaves no quota. -/
theorem parseList_ne_lastWins :
    ¬ ∀ (sf : SfParser) (accepts : Text → Bool), sf.FollowsRfc9651 accepts →
      ∀ input members, list accepts input = some members →
        RateLimitPolicy.parseList sf input =
          .ok (members.filterMap (RateLimitPolicy.ofMember lastWins)) := by
  intro h
  have hsf := referenceParser_followsRfc9651 Base64.canonical
  have hwins := h _ _ hsf "\"a\";q=5;q=-1".toList
    [.item ⟨.string "a".toList, [("q".toList, .integer 5),
      ("q".toList, .integer (-1))]⟩] (by decide +kernel)
  have hcode : RateLimitPolicy.parseList (referenceParser Base64.canonical)
      "\"a\";q=5;q=-1".toList =
        .ok [⟨"a".toList, 5, .requests, none, none⟩] :=
    (parseListWith_eq_ok_iff hsf policyReading).mpr (by decide +kernel)
  rw [hcode] at hwins
  exact absurd hwins (by decide +kernel)

end TrilliumRatelimit
