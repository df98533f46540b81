import TrilliumRatelimit.StructuredField

/-!
# Lists of members

The list level of RFC 9651, cut into the steps a streaming reader takes: the
next member of a list, the next item of an inner list, the next parameter.
`list` drives these steps to the end and collects what they read.
-/

namespace StructuredField

/-- What a member starts with: a bare item or an opening parenthesis. -/
inductive Start where
  | item (bare : BareItem)
  | innerList
  deriving DecidableEq

def memberStart (accepts : Text → Bool) : Text → Option (Start × Text)
  | '(' :: rest => some (.innerList, rest)
  | text => (bareItem accepts text).map fun value => (.item value.1, value.2)

/-- The next item of an inner list, or none behind its end.  After an item a
space or the closing parenthesis has to follow. -/
def innerStep (accepts : Text → Bool) (first : Bool) (text : Text) :
    Option (Option BareItem × Text) :=
  if first = false ∧ text.head? ≠ some ' ' ∧ text.head? ≠ some ')' then none
  else
    match skipSp text with
    | ')' :: rest => some (none, rest)
    | rest => (bareItem accepts rest).map fun value => (some value.1, value.2)

/-- Behind a member: nothing, or a comma and another member. -/
def separator (text : Text) : Option (Option Text) :=
  match skipOws text with
  | [] => some none
  | ',' :: rest => if skipOws rest = [] then none else some (skipOws rest)
  | _ => none

/-- The start of the next member, or none at the end of the list. -/
def nextMember (accepts : Text → Bool) (first : Bool) (text : Text) :
    Option (Option (Start × Text)) :=
  if first then
    match skipSp text with
    | [] => some none
    | rest => (memberStart accepts rest).map some
  else
    match separator text with
    | none => none
    | some none => some none
    | some (some rest) => (memberStart accepts rest).map some

theorem memberStart_after {accepts : Text → Bool} {text rest : Text}
    {start : Start} (h : memberStart accepts text = some (start, rest)) :
    After rest text := by
  unfold memberStart at h
  split at h
  next text =>
    simp only [Option.some.injEq, Prod.mk.injEq] at h
    obtain ⟨_, rfl⟩ := h
    exact .cons _ _
  next =>
    obtain ⟨value, hvalue, heq⟩ := Option.map_eq_some_iff.mp h
    simp only [Prod.mk.injEq] at heq
    obtain ⟨_, rfl⟩ := heq
    exact bareItem_after hvalue

theorem innerStep_suffix {accepts : Text → Bool} {first : Bool}
    {text rest : Text} {bare : Option BareItem}
    (h : innerStep accepts first text = some (bare, rest)) :
    After rest text := by
  unfold innerStep at h
  split at h
  next => simp at h
  next =>
    split at h
    next left heq =>
      simp only [Option.some.injEq, Prod.mk.injEq] at h
      obtain ⟨_, rfl⟩ := h
      exact (After.cons ')' left).of_suffix (heq ▸ skipSp_suffix text)
    next =>
      obtain ⟨value, hvalue, heq⟩ := Option.map_eq_some_iff.mp h
      simp only [Prod.mk.injEq] at heq
      obtain ⟨_, rfl⟩ := heq
      exact (bareItem_after hvalue).of_suffix (skipSp_suffix text)

theorem separator_suffix {text rest : Text}
    (h : separator text = some (some rest)) : rest <:+ text := by
  unfold separator at h
  split at h
  next => simp at h
  next left heq =>
    split at h
    next => simp at h
    next =>
      simp only [Option.some.injEq] at h
      subst h
      exact (skipOws_suffix left).trans
        ((List.suffix_cons _ _).trans (heq ▸ skipOws_suffix text))
  next => simp at h

theorem nextMember_start {accepts : Text → Bool} {first : Bool}
    {text rest : Text} {start : Start}
    (h : nextMember accepts first text = some (some (start, rest))) :
    ∃ left, left <:+ text ∧
      memberStart accepts left = some (start, rest) := by
  unfold nextMember at h
  split at h
  · split at h
    next => simp at h
    next => exact ⟨_, skipSp_suffix text, by simpa using h⟩
  · split at h
    next => simp at h
    next => simp at h
    next left hleft =>
      exact ⟨left, separator_suffix hleft, by simpa using h⟩

theorem nextMember_after {accepts : Text → Bool} {first : Bool}
    {text rest : Text} {start : Start}
    (h : nextMember accepts first text = some (some (start, rest))) :
    After rest text := by
  obtain ⟨left, hleft, hstart⟩ := nextMember_start h
  exact (memberStart_after hstart).of_suffix hleft

/-! ## Whole members and lists -/

def innerItems (accepts : Text → Bool) (first : Bool) (text : Text) :
    Option (List Item × Text) :=
  match _h : innerStep accepts first text with
  | none => none
  | some (none, rest) => some ([], rest)
  | some (some bare, rest) =>
      match _hparams : parameters accepts rest with
      | none => none
      | some (params, rest) =>
          (innerItems accepts false rest).map fun items =>
            (⟨bare, params⟩ :: items.1, items.2)
termination_by text.length
decreasing_by
  exact (After.trans_suffix (parameters_suffix _hparams)
    (innerStep_suffix _h)).length_lt

/-- The rest of a member behind its start. -/
def memberBody (accepts : Text → Bool) :
    Start → Text → Option (Member × Text)
  | .item bare, text =>
      (parameters accepts text).map fun params =>
        (.item ⟨bare, params.1⟩, params.2)
  | .innerList, text =>
      match innerItems accepts true text with
      | none => none
      | some (items, rest) =>
          (parameters accepts rest).map fun params =>
            (.innerList items params.1, params.2)

theorem innerItems_none {accepts : Text → Bool} {first : Bool} {text : Text}
    (h : innerStep accepts first text = none) :
    innerItems accepts first text = none := by
  rw [innerItems]
  split <;> simp_all

theorem innerItems_end {accepts : Text → Bool} {first : Bool}
    {text rest : Text} (h : innerStep accepts first text = some (none, rest)) :
    innerItems accepts first text = some ([], rest) := by
  rw [innerItems]
  split <;> simp_all

theorem innerItems_cons {accepts : Text → Bool} {first : Bool}
    {text rest : Text} {bare : BareItem}
    (h : innerStep accepts first text = some (some bare, rest)) :
    innerItems accepts first text =
      match parameters accepts rest with
      | none => none
      | some (params, rest) =>
          (innerItems accepts false rest).map fun items =>
            (⟨bare, params⟩ :: items.1, items.2) := by
  rw [innerItems]
  split
  next => simp_all
  next => simp_all
  next _ _ heq =>
    rw [h] at heq
    simp only [Option.some.injEq, Prod.mk.injEq] at heq
    obtain ⟨rfl, rfl⟩ := heq
    split <;> simp_all

theorem innerItems_suffix {accepts : Text → Bool} {first : Bool}
    {text rest : Text} {items : List Item}
    (h : innerItems accepts first text = some (items, rest)) :
    rest <:+ text := by
  induction first, text using innerItems.induct accepts
    generalizing items with
  | case1 first text hnone => simp [innerItems_none hnone] at h
  | case2 first text left hend =>
      simp only [innerItems_end hend, Option.some.injEq, Prod.mk.injEq] at h
      exact h.2 ▸ (innerStep_suffix hend).suffix
  | case3 first text bare left hstep hnone =>
      simp [innerItems_cons hstep, hnone] at h
  | case4 first text bare left hstep params middle hparams ih =>
      simp only [innerItems_cons hstep, hparams] at h
      obtain ⟨tail, htail, heq⟩ := Option.map_eq_some_iff.mp h
      simp only [Prod.mk.injEq] at heq
      obtain ⟨_, rfl⟩ := heq
      exact (ih htail).trans
        ((parameters_suffix hparams).trans (innerStep_suffix hstep).suffix)

theorem memberBody_suffix {accepts : Text → Bool} {start : Start}
    {text rest : Text} {member : Member}
    (h : memberBody accepts start text = some (member, rest)) :
    rest <:+ text := by
  cases start with
  | item bare =>
      obtain ⟨params, hparams, heq⟩ := Option.map_eq_some_iff.mp h
      simp only [Prod.mk.injEq] at heq
      exact heq.2 ▸ parameters_suffix hparams
  | innerList =>
      simp only [memberBody] at h
      split at h
      next => simp at h
      next items middle hitems =>
        obtain ⟨params, hparams, heq⟩ := Option.map_eq_some_iff.mp h
        simp only [Prod.mk.injEq] at heq
        exact heq.2 ▸ (parameters_suffix hparams).trans
          (innerItems_suffix hitems)

def membersFrom (accepts : Text → Bool) (first : Bool) (text : Text) :
    Option (List Member) :=
  match _h : nextMember accepts first text with
  | none => none
  | some none => some []
  | some (some (start, rest)) =>
      match _hbody : memberBody accepts start rest with
      | none => none
      | some (member, rest) =>
          (membersFrom accepts false rest).map fun members =>
            member :: members
termination_by text.length
decreasing_by
  exact (After.trans_suffix (memberBody_suffix _hbody)
    (nextMember_after _h)).length_lt

/-- The members of a list, unless the text is not a well-formed list. -/
def list (accepts : Text → Bool) (text : Text) : Option (List Member) :=
  membersFrom accepts true text

theorem membersFrom_none {accepts : Text → Bool} {first : Bool} {text : Text}
    (h : nextMember accepts first text = none) :
    membersFrom accepts first text = none := by
  rw [membersFrom]
  split <;> simp_all

theorem membersFrom_end {accepts : Text → Bool} {first : Bool} {text : Text}
    (h : nextMember accepts first text = some none) :
    membersFrom accepts first text = some [] := by
  rw [membersFrom]
  split <;> simp_all

theorem membersFrom_cons {accepts : Text → Bool} {first : Bool}
    {text rest : Text} {start : Start}
    (h : nextMember accepts first text = some (some (start, rest))) :
    membersFrom accepts first text =
      match memberBody accepts start rest with
      | none => none
      | some (member, rest) =>
          (membersFrom accepts false rest).map fun members =>
            member :: members := by
  rw [membersFrom]
  split
  next => simp_all
  next => simp_all
  next _ _ heq =>
    rw [h] at heq
    simp only [Option.some.injEq, Prod.mk.injEq] at heq
    obtain ⟨rfl, rfl⟩ := heq
    split <;> simp_all

end StructuredField
