import TrilliumRatelimit.HeaderErrors
import TrilliumRatelimit.RepeatedParameters
import TrilliumRatelimit.StructuredCuts

/-!
# Header fields member by member

What a field is parsed to is put together from what its members are parsed to,
each on its own.  It does not matter how the members are spread over lines,
members that are no policy or limit leave no trace, and neither do parameters
whose keys the parser does not know.
-/

namespace TrilliumRatelimit

open StructuredField

/-! ## What a parser does not know -/

/-- A string with a count under this key. -/
def Counted (key : Text) (member : Member) : Prop :=
  ∃ raw params n, member = .item ⟨.string raw, params⟩ ∧
    (key, .integer n) ∈ params ∧ 0 ≤ n

def knownParams (keys : List Text) (params : Params) : Params :=
  params.filter fun param => param.1 ∈ keys

def knownItem (keys : List Text) (item : Item) : Item :=
  { item with params := knownParams keys item.params }

/-- The member without its unknown parameters. -/
def knownMember (keys : List Text) : Member → Member
  | .item item => .item (knownItem keys item)
  | .innerList items params =>
      .innerList (items.map (knownItem keys)) (knownParams keys params)

/-- Lists that differ in unknown parameters only. -/
def SameKnown (accepts : Text → Bool) (keys : List Text)
    (input input' : Text) : Prop :=
  ∃ members members', list accepts input = some members ∧
    list accepts input' = some members' ∧
      members.map (knownMember keys) = members'.map (knownMember keys)

structure ParsesMemberwise {α : Type} (accepts : Text → Bool)
    (parseList : Text → Except Fault (List α))
    (fromHeaders : List (Option Text) → Except Fault (List α))
    (count : Text) (keys : List Text) : Prop where
  lines : ∀ {lines},
    (∀ line ∈ lines, NonBlank line ∧ (list accepts line).isSome) →
      fromHeaders (lines.map some) = parseList (joinMembers lines) ∧
        ∃ pieces, CutInto accepts pieces lines
  pieces : ∀ {pieces lines}, CutInto accepts pieces lines →
    ∃ items,
      List.Forall₂ (fun piece items => parseList piece = .ok items)
        pieces items ∧
      parseList (joinMembers lines) = .ok items.flatten
  foreign : ∀ {piece member}, IsMember accepts piece member →
    (parseList piece = .ok [] ↔ ¬ Counted count member)
  unknown : ∀ {input input'}, SameKnown accepts keys input input' →
    parseList input = parseList input'
  unknownLines : ∀ {lines lines'},
    List.Forall₂ (SameKnown accepts keys) lines lines' →
      fromHeaders (lines.map some) = fromHeaders (lines'.map some)

theorem lastReadable_eq_none_iff {β : Type} {params : Params} {key : Text}
    {read : BareItem → Option β} :
    lastReadable params key read = none ↔
      ∀ bare, (key, bare) ∈ params → read bare = none := by
  rw [lastReadable, List.getLast?_eq_none_iff, List.filterMap_eq_nil_iff]
  simp [occurrences]

theorem nonNegative_eq_none_iff {bare : BareItem} :
    nonNegative bare = none ↔ ∀ n, bare = .integer n → ¬ 0 ≤ n := by
  cases bare <;> simp [nonNegative]

theorem not_counted_iff {key raw : Text} {params : Params} :
    ¬ Counted key (.item ⟨.string raw, params⟩) ↔
      lastReadable params key nonNegative = none := by
  rw [lastReadable_eq_none_iff]
  constructor
  · intro h bare hmem
    rw [nonNegative_eq_none_iff]
    rintro n rfl hn
    exact h ⟨raw, params, n, rfl, hmem, hn⟩
  · rintro h ⟨_, _, n, heq, hmem, hn⟩
    simp only [Member.item.injEq, Item.mk.injEq] at heq
    obtain ⟨_, rfl⟩ := heq
    exact nonNegative_eq_none_iff.mp (h _ hmem) n rfl hn

section

variable {α Fields : Type} {sf : SfParser} {accepts : Text → Bool}
  {format : ItemFormat α Fields}

theorem fromLines_membersOf (hsf : sf.FollowsRfc9651 accepts)
    (reading : format.Reading) {members : List (List Member)}
    {lines : List Text} (h : MembersOf accepts members lines) :
    fromLines (parseListWith sf format) (lines.map some) =
      .ok (members.flatten.filterMap reading.member) := by
  induction h with
  | nil => rfl
  | cons hmembers _ ih =>
      rw [List.map_cons, fromLines, parseListWith_eq hsf reading, hmembers]
      simp only [ih, List.flatten_cons, List.filterMap_append]
      rfl

theorem parseListWith_member (hsf : sf.FollowsRfc9651 accepts)
    (reading : format.Reading) {piece : Text} {member : Member}
    (h : IsMember accepts piece member) :
    parseListWith sf format piece = .ok (reading.member member).toList := by
  rw [parseListWith_eq hsf reading, h.list_eq]
  cases hmember : reading.member member <;> simp [hmember]

theorem parseListWith_pieces (hsf : sf.FollowsRfc9651 accepts)
    (reading : format.Reading) {pieces : List Text} {members : List Member}
    (h : List.Forall₂ (IsMember accepts) pieces members) :
    List.Forall₂ (fun piece items => parseListWith sf format piece = .ok items)
      pieces (members.map fun member => (reading.member member).toList) := by
  induction h with
  | nil => exact .nil
  | cons hpiece _ ih => exact .cons (parseListWith_member hsf reading hpiece) ih

/-- The parameters a reading passes over do not change what is read. -/
theorem ItemFormat.Reading.params_known {reading : format.Reading}
    {keys : List Text}
    (hkeys : ∀ fields key bare, key ∉ keys →
      reading.set fields key bare = fields)
    (params : Params) (fields : Fields) :
    reading.params (knownParams keys params) fields =
      reading.params params fields := by
  induction params generalizing fields with
  | nil => rfl
  | cons param params ih =>
      rw [ItemFormat.Reading.params, ItemFormat.Reading.params,
        List.foldl_cons]
      by_cases hkey : param.1 ∈ keys
      · rw [knownParams, List.filter_cons_of_pos (by simpa using hkey)]
        exact ih _
      · rw [knownParams, List.filter_cons_of_neg (by simpa using hkey),
          hkeys _ _ _ hkey]
        exact ih _

theorem ItemFormat.Reading.member_known {reading : format.Reading}
    {keys : List Text}
    (hkeys : ∀ fields key bare, key ∉ keys →
      reading.set fields key bare = fields)
    (member : Member) :
    reading.member (knownMember keys member) = reading.member member := by
  cases member with
  | innerList => rfl
  | item item =>
      obtain ⟨bare, params⟩ := item
      cases bare with
      | string raw =>
          change format.finish _ (reading.params (knownParams keys params) _) =
            format.finish _ (reading.params params _)
          rw [reading.params_known hkeys]
      | _ => rfl

theorem SameKnown.filterMap_eq {reading : format.Reading}
    {keys : List Text}
    (hkeys : ∀ fields key bare, key ∉ keys →
      reading.set fields key bare = fields)
    {members members' : List Member}
    (h : members.map (knownMember keys) = members'.map (knownMember keys)) :
    members.filterMap reading.member = members'.filterMap reading.member := by
  have hmember := funext (reading.member_known hkeys)
  have hread := congrArg (List.filterMap reading.member) h
  rw [List.filterMap_map, List.filterMap_map] at hread
  change List.filterMap (fun member => reading.member (knownMember keys member))
    members = List.filterMap
      (fun member => reading.member (knownMember keys member)) members' at hread
  rwa [hmember] at hread

theorem SameKnown.parseListWith_eq (hsf : sf.FollowsRfc9651 accepts)
    {reading : format.Reading} {keys : List Text}
    (hkeys : ∀ fields key bare, key ∉ keys →
      reading.set fields key bare = fields)
    {input input' : Text} (h : SameKnown accepts keys input input') :
    parseListWith sf format input = parseListWith sf format input' := by
  obtain ⟨members, members', hlist, hlist', hsame⟩ := h
  rw [TrilliumRatelimit.parseListWith_eq hsf reading,
    TrilliumRatelimit.parseListWith_eq hsf reading, hlist, hlist']
  simp only [filterMap_eq hkeys hsame]

theorem fromLines_sameKnown (hsf : sf.FollowsRfc9651 accepts)
    {reading : format.Reading} {keys : List Text}
    (hkeys : ∀ fields key bare, key ∉ keys →
      reading.set fields key bare = fields)
    {lines lines' : List Text}
    (h : List.Forall₂ (SameKnown accepts keys) lines lines') :
    fromLines (parseListWith sf format) (lines.map some) =
      fromLines (parseListWith sf format) (lines'.map some) := by
  induction h with
  | nil => rfl
  | cons hline _ ih =>
      simp only [List.map_cons, fromLines, hline.parseListWith_eq hsf hkeys, ih]

theorem ItemFormat.Reading.member_eq_none_iff {reading : format.Reading}
    {count : Text}
    (hcount : ∀ raw params,
      reading.member (.item ⟨.string raw, params⟩) = none ↔
        lastReadable params count nonNegative = none)
    (member : Member) :
    reading.member member = none ↔ ¬ Counted count member := by
  cases member with
  | innerList => exact iff_of_true rfl (by rintro ⟨_, _, _, heq, _⟩; cases heq)
  | item item =>
      obtain ⟨bare, params⟩ := item
      cases bare with
      | string raw => exact (hcount raw params).trans not_counted_iff.symm
      | _ => exact iff_of_true rfl (by rintro ⟨_, _, _, heq, _⟩; cases heq)

theorem parsesMemberwise (hsf : sf.FollowsRfc9651 accepts)
    (reading : format.Reading) {count : Text} {keys : List Text}
    (hcount : ∀ raw params,
      reading.member (.item ⟨.string raw, params⟩) = none ↔
        lastReadable params count nonNegative = none)
    (hkeys : ∀ fields key bare, key ∉ keys →
      reading.set fields key bare = fields) :
    ParsesMemberwise accepts (parseListWith sf format)
      (fromLines (parseListWith sf format)) count keys where
  lines := by
    intro lines hlines
    refine ⟨?_, exists_cutInto hlines⟩
    obtain ⟨members, hmembers⟩ := exists_membersOf fun line hline =>
      (hlines line hline).2
    have hjoin := hmembers.list_join fun line hline => (hlines line hline).1
    rw [fromLines_membersOf hsf reading hmembers,
      parseListWith_eq hsf reading, hjoin]
  pieces := by
    intro pieces lines hcut
    obtain ⟨members, hpieces, hjoin⟩ := hcut.list_join
    refine ⟨_, parseListWith_pieces hsf reading hpieces, ?_⟩
    rw [parseListWith_eq hsf reading, hjoin]
    simp only [List.filterMap_eq_flatMap_toList, List.flatMap_def]
  foreign := by
    intro piece member hpiece
    rw [parseListWith_member hsf reading hpiece,
      ← reading.member_eq_none_iff hcount]
    simp
  unknown := fun hsame => hsame.parseListWith_eq hsf hkeys
  unknownLines := fromLines_sameKnown hsf hkeys

end

/-! ## Policies and limits -/

def policyKeys : List Text :=
  ["q".toList, "qu".toList, "w".toList, "pk".toList]

def limitKeys : List Text := ["r".toList, "t".toList, "pk".toList]

theorem PolicyFields.set_of_unknown (fields : PolicyFields) {key : Text}
    (bare : BareItem) (h : key ∉ policyKeys) : fields.set key bare = fields := by
  simp only [policyKeys, List.mem_cons, List.not_mem_nil, or_false, not_or] at h
  obtain ⟨hq, hqu, hw, hpk⟩ := h
  rw [PolicyFields.set_eq, if_neg hq, if_neg hqu, if_neg hw, if_neg hpk]

theorem LimitFields.set_of_unknown (fields : LimitFields) {key : Text}
    (bare : BareItem) (h : key ∉ limitKeys) : fields.set key bare = fields := by
  simp only [limitKeys, List.mem_cons, List.not_mem_nil, or_false, not_or] at h
  obtain ⟨hr, ht, hpk⟩ := h
  rw [LimitFields.set_eq, if_neg hr, if_neg ht, if_neg hpk]

theorem policyReading_eq_none_iff (raw : Text) (params : Params) :
    policyReading.member (.item ⟨.string raw, params⟩) = none ↔
      lastReadable params "q".toList nonNegative = none := by
  rw [policyReading_member, RateLimitPolicy.ofMember, Option.map_eq_none_iff]

theorem limitReading_eq_none_iff (raw : Text) (params : Params) :
    limitReading.member (.item ⟨.string raw, params⟩) = none ↔
      lastReadable params "r".toList nonNegative = none := by
  rw [limitReading_member, RateLimit.ofMember, Option.map_eq_none_iff]

/-- Both fields are parsed member by member. -/
theorem headers_parse_memberwise {sf : SfParser} {accepts : Text → Bool}
    (hsf : sf.FollowsRfc9651 accepts) :
    ParsesMemberwise accepts (RateLimitPolicy.parseList sf)
        (RateLimitPolicy.fromHeaders sf) "q".toList policyKeys ∧
      ParsesMemberwise accepts (RateLimit.parseList sf)
        (RateLimit.fromHeaders sf) "r".toList limitKeys :=
  ⟨parsesMemberwise hsf policyReading policyReading_eq_none_iff
      fun fields _ bare hkey => fields.set_of_unknown bare hkey,
    parsesMemberwise hsf limitReading limitReading_eq_none_iff
      fun fields _ bare hkey => fields.set_of_unknown bare hkey⟩

/-- Two lines with a token, an inner list and a negative quota between the
policies, and a limit with and without an unknown parameter. -/
theorem headers_parse_memberwise_foreign :
    RateLimitPolicy.fromHeaders (referenceParser Base64.canonical)
        [some "\"a\";q=1;x, tok;q=2".toList,
          some "(\"b\";q=3 1);q=4,\t\"c\";q=5, \"d\";q=-1".toList] =
      .ok [RateLimitPolicy.new "a".toList 1,
        RateLimitPolicy.new "c".toList 5] ∧
    RateLimit.parseList (referenceParser Base64.canonical)
        "\"a\";x=tok;r=1;y".toList =
      RateLimit.parseList (referenceParser Base64.canonical)
        "\"a\";r=1".toList := by
  have hsf := referenceParser_followsRfc9651 Base64.canonical
  obtain ⟨hpolicy, hlimit⟩ := headers_parse_memberwise hsf
  have hlines : ∀ line ∈ ["\"a\";q=1;x, tok;q=2".toList,
      "(\"b\";q=3 1);q=4,\t\"c\";q=5, \"d\";q=-1".toList],
        NonBlank line ∧ (list Base64.canonical line).isSome := by
    simp only [List.forall_mem_cons, List.not_mem_nil, false_implies,
      implies_true, and_true]
    exact ⟨⟨⟨'a', by decide, by decide⟩, by decide +kernel⟩,
      ⟨'b', by decide, by decide⟩, by decide +kernel⟩
  constructor
  · exact (hpolicy.lines hlines).1.trans
      ((parseListWith_eq_ok_iff hsf policyReading).mpr (by decide +kernel))
  · exact hlimit.unknown ⟨_, _,
      Option.eq_some_of_isSome (by decide +kernel),
      Option.eq_some_of_isSome (by decide +kernel), by decide +kernel⟩

end TrilliumRatelimit
