import TrilliumRatelimit.SfParser

/-!
# Parsing a header field

`RateLimitPolicy::parse_list` and `RateLimit::parse_list` are the same loops
around different parameters.  `parseItems` is these loops; an `ItemFormat`
says what a parameter does to the fields read so far and what item they make
in the end.

The loops read exactly the lists of the grammar.  Where the input is not a
well-formed list they return the parse error and nothing else; where it is,
they return what its members are read as, in order.  No range they cut is off
a boundary.
-/

namespace TrilliumRatelimit

open StructuredField

structure ItemFormat (α Fields : Type) where
  fields : Fields
  param : Text → Fields → Text → SfValue → Option Fields
  finish : Text → Fields → Option α

/-- What a format reads from a parameter of the grammar. -/
structure ItemFormat.Reading {α Fields : Type} (format : ItemFormat α Fields)
    where
  set : Fields → Text → BareItem → Fields
  param_eq : ∀ {input value bare}, Denotes input value bare →
    ∀ fields key, format.param input fields key value =
      some (set fields key bare)

section

variable {α Fields : Type}

/-- The loop over the parameters of a member that has a name. -/
def readParams (sf : SfParser) (format : ItemFormat α Fields) (input : Text)
    (parser : sf.State) (fields : Fields) : Except Fault (Fields × sf.State) :=
  match _h : sf.parseParam parser with
  | none => .error .parseError
  | some (none, next) => .ok (fields, next)
  | some (some (key, value), next) =>
      match format.param input fields key value with
      | none => .error .panic
      | some fields => readParams sf format input next fields
termination_by sf.unread parser
decreasing_by exact sf.parseParam_unread _h

theorem readParams_none {sf : SfParser} {format : ItemFormat α Fields}
    {input : Text} {parser : sf.State} {fields : Fields}
    (h : sf.parseParam parser = none) :
    readParams sf format input parser fields = .error .parseError := by
  rw [readParams]
  split <;> simp_all

theorem readParams_end {sf : SfParser} {format : ItemFormat α Fields}
    {input : Text} {parser next : sf.State} {fields : Fields}
    (h : sf.parseParam parser = some (none, next)) :
    readParams sf format input parser fields = .ok (fields, next) := by
  rw [readParams]
  split <;> simp_all

theorem readParams_cons {sf : SfParser} {format : ItemFormat α Fields}
    {input key : Text} {value : SfValue} {parser next : sf.State}
    {fields : Fields}
    (h : sf.parseParam parser = some (some (key, value), next)) :
    readParams sf format input parser fields =
      match format.param input fields key value with
      | none => .error .panic
      | some fields => readParams sf format input next fields := by
  rw [readParams]
  split <;> simp_all

theorem readParams_unread {sf : SfParser} {format : ItemFormat α Fields}
    {input : Text} {parser next : sf.State} {fields result : Fields}
    (h : readParams sf format input parser fields = .ok (result, next)) :
    sf.unread next ≤ sf.unread parser := by
  induction parser, fields using readParams.induct sf format input with
  | case1 parser fields hnone => simp [readParams_none hnone] at h
  | case2 parser fields left hend =>
      have hle := sf.parseParam_unread hend
      simp only [readParams_end hend, Except.ok.injEq, Prod.mk.injEq] at h
      obtain ⟨_, rfl⟩ := h
      omega
  | case3 parser fields left key value hparam hpanic =>
      simp [readParams_cons hparam, hpanic] at h
  | case4 parser fields left key value hparam fields' hset ih =>
      have hle := sf.parseParam_unread hparam
      rw [readParams_cons hparam, hset] at h
      exact (ih h).trans (by omega)

/-- The loop over the members. -/
def parseItems (sf : SfParser) (format : ItemFormat α Fields) (input : Text)
    (parser : sf.State) : Except Fault (List α) :=
  match _h : sf.parseList parser with
  | none => .error .parseError
  | some (none, _) => .ok []
  | some (some (.string range escape), next) =>
      match stringValue input range escape with
      | none => .error .panic
      | some name =>
          match _hparams : readParams sf format input next format.fields with
          | .error fault => .error fault
          | .ok (fields, next) =>
              (parseItems sf format input next).map fun items =>
                (format.finish name fields).toList ++ items
  | some (some other, next) =>
      match _hskip : skipItem sf next other with
      | .error fault => .error fault
      | .ok next => parseItems sf format input next
termination_by sf.unread parser
decreasing_by
  · exact (readParams_unread _hparams).trans_lt (sf.parseList_unread _h)
  · exact (skipItem_unread _hskip).trans_lt (sf.parseList_unread _h)

def parseListWith (sf : SfParser) (format : ItemFormat α Fields)
    (input : Text) : Except Fault (List α) :=
  parseItems sf format input (sf.new (utf8 input))

theorem parseItems_none {sf : SfParser} {format : ItemFormat α Fields}
    {input : Text} {parser : sf.State} (h : sf.parseList parser = none) :
    parseItems sf format input parser = .error .parseError := by
  rw [parseItems]
  split <;> simp_all

theorem parseItems_end {sf : SfParser} {format : ItemFormat α Fields}
    {input : Text} {parser next : sf.State}
    (h : sf.parseList parser = some (none, next)) :
    parseItems sf format input parser = .ok [] := by
  rw [parseItems]
  split <;> simp_all

theorem parseItems_string {sf : SfParser} {format : ItemFormat α Fields}
    {input name : Text} {parser next : sf.State} {range : ByteRange}
    {escape : Bool}
    (h : sf.parseList parser = some (some (.string range escape), next))
    (hname : stringValue input range escape = some name) :
    parseItems sf format input parser =
      match readParams sf format input next format.fields with
      | .error fault => .error fault
      | .ok (fields, next) =>
          (parseItems sf format input next).map fun items =>
            (format.finish name fields).toList ++ items := by
  rw [parseItems]
  split <;> simp_all
  split <;> simp_all

theorem parseItems_skip {sf : SfParser} {format : ItemFormat α Fields}
    {input : Text} {parser next : sf.State} {value : SfValue}
    (h : sf.parseList parser = some (some value, next))
    (hvalue : ∀ range escape, value ≠ .string range escape) :
    parseItems sf format input parser =
      match skipItem sf next value with
      | .error fault => .error fault
      | .ok next => parseItems sf format input next := by
  rw [parseItems]
  split
  next => simp_all
  next => simp_all
  next range escape left heq =>
    rw [h] at heq
    simp only [Option.some.injEq, Prod.mk.injEq] at heq
    exact absurd heq.1 (hvalue range escape)
  next other left _ heq =>
    rw [h] at heq
    simp only [Option.some.injEq, Prod.mk.injEq] at heq
    obtain ⟨rfl, rfl⟩ := heq
    split <;> simp_all

/-- `from_headers` over the field lines in order; `none` is a line that is no
text. -/
def fromLines (parse : Text → Except Fault (List α)) :
    List (Option Text) → Except Fault (List α)
  | [] => .ok []
  | none :: lines => fromLines parse lines
  | some line :: lines =>
      match parse line with
      | .error fault => .error fault
      | .ok items => (fromLines parse lines).map fun rest => items ++ rest

/-! ## The helpers follow the grammar -/

section

variable {sf : SfParser} {accepts : Text → Bool} {input : Text}
  {At : sf.State → Phase → Text → Prop}

theorem drainParams_spec (hsteps : sf.Steps accepts input At)
    {parser : sf.State} {text : Text} (hat : At parser .params text) :
    match parameters accepts text with
    | none => drainParams sf parser = .error .parseError
    | some (_, rest) => ∃ next, drainParams sf parser = .ok next ∧
        At next (.list false) rest := by
  induction text using parameters.induct accepts generalizing parser with
  | case1 text hnone =>
      have hstep := hsteps.parseParam hat
      rw [hnone] at hstep
      rw [parameters_none hnone]
      exact drainParams_none hstep
  | case2 text rest hend =>
      have hstep := hsteps.parseParam hat
      rw [hend] at hstep
      obtain ⟨next, hcall, hnext⟩ := hstep
      rw [parameters_end hend]
      exact ⟨next, drainParams_end hcall, hnext⟩
  | case3 text param rest hparam ih =>
      have hstep := hsteps.parseParam hat
      rw [hparam] at hstep
      obtain ⟨value, next, hcall, _, hnext⟩ := hstep
      have hrest := ih hnext
      rw [parameters_cons hparam, drainParams_cons hcall]
      cases hparams : parameters accepts rest with
      | none =>
          rw [hparams] at hrest
          exact hrest
      | some params =>
          rw [hparams] at hrest
          exact hrest

/-- The items of an inner list that are still to come. -/
def innerRest (accepts : Text → Bool) (first : Bool) (text : Text) :
    Option (List Item × Text) :=
  if first then innerItems accepts true text
  else
    match parameters accepts text with
    | none => none
    | some (_, rest) => innerItems accepts false rest

theorem innerRest_eq (accepts : Text → Bool) (first : Bool) (text : Text) :
    (innerRest accepts first text).map Prod.snd =
      match nextInner accepts first text with
      | none => none
      | some (none, rest) => some rest
      | some (some _, rest) =>
          (innerRest accepts false rest).map Prod.snd := by
  have hitems (first : Bool) (text : Text) :
      (innerItems accepts first text).map Prod.snd =
        match innerStep accepts first text with
        | none => none
        | some (none, rest) => some rest
        | some (some _, rest) =>
            (innerRest accepts false rest).map Prod.snd := by
    cases hstep : innerStep accepts first text with
    | none => simp [innerItems_none hstep]
    | some step =>
        obtain ⟨bare, rest⟩ := step
        cases bare with
        | none => simp [innerItems_end hstep]
        | some bare =>
            rw [innerItems_cons hstep]
            simp only [innerRest]
            cases parameters accepts rest with
            | none => rfl
            | some params =>
                simp only [Option.map_map]
                rfl
  cases first with
  | true => exact hitems true text
  | false =>
      simp only [innerRest, nextInner]
      cases parameters accepts text with
      | none => rfl
      | some params => exact hitems false params.2

theorem drainInnerList_spec (hsteps : sf.Steps accepts input At)
    {parser : sf.State} {first : Bool} {text : Text}
    (hat : At parser (.inner first) text) :
    match (innerRest accepts first text).map Prod.snd with
    | none => drainInnerList sf parser = .error .parseError
    | some rest => ∃ next, drainInnerList sf parser = .ok next ∧
        At next .params rest := by
  have hstep := hsteps.parseInnerList hat
  rw [innerRest_eq]
  cases hnext : nextInner accepts first text with
  | none =>
      rw [hnext] at hstep
      exact drainInnerList_none hstep
  | some pair =>
      obtain ⟨bare, rest⟩ := pair
      rw [hnext] at hstep
      cases bare with
      | none =>
          obtain ⟨next, hcall, hafter⟩ := hstep
          exact ⟨next, drainInnerList_end hcall, hafter⟩
      | some bare =>
          obtain ⟨value, next, hcall, hafter⟩ := hstep
          rw [drainInnerList_cons hcall]
          exact drainInnerList_spec hsteps hafter
termination_by text.length
decreasing_by exact (nextInner_after hnext).length_lt

theorem skipItem_spec (hsteps : sf.Steps accepts input At)
    {parser : sf.State} {start : Start} {value : SfValue} {text : Text}
    (hvalue : DenotesStart input value start)
    (hat : At parser (startPhase start) text) :
    match memberBody accepts start text with
    | none => skipItem sf parser value = .error .parseError
    | some (_, rest) => ∃ next, skipItem sf parser value = .ok next ∧
        At next (.list false) rest := by
  cases start with
  | item bare =>
      have hnot : value ≠ .innerList := by
        intro heq
        subst heq
        exact hvalue
      have hparams := drainParams_spec hsteps hat
      rw [skipItem, if_neg hnot, memberBody]
      cases hread : parameters accepts text with
      | none =>
          rw [hread] at hparams
          exact hparams
      | some params =>
          rw [hread] at hparams
          exact hparams
  | innerList =>
      have hinner := drainInnerList_spec hsteps hat
      have heq : value = .innerList := hvalue
      rw [skipItem, if_pos heq, memberBody]
      simp only [innerRest, if_true] at hinner
      cases hitems : innerItems accepts true text with
      | none =>
          rw [hitems] at hinner
          simp only [Option.map_none] at hinner
          simp only [hinner]
      | some items =>
          rw [hitems] at hinner
          obtain ⟨middle, hdrain, hmiddle⟩ := hinner
          have hparams := drainParams_spec hsteps hmiddle
          simp only [hdrain]
          cases hread : parameters accepts items.2 with
          | none =>
              rw [hread] at hparams
              exact hparams
          | some params =>
              rw [hread] at hparams
              exact hparams

end

/-! ## What a member is read as -/

/-- The fields a format reads from the parameters of a member. -/
def ItemFormat.Reading.params {format : ItemFormat α Fields}
    (reading : format.Reading) (params : Params) (fields : Fields) : Fields :=
  params.foldl (fun fields param => reading.set fields param.1 param.2) fields

def ItemFormat.Reading.member {format : ItemFormat α Fields}
    (reading : format.Reading) : Member → Option α
  | .item ⟨.string raw, params⟩ =>
      format.finish (unescape raw) (reading.params params format.fields)
  | _ => none

section

variable {sf : SfParser} {accepts : Text → Bool} {input : Text}
  {At : sf.State → Phase → Text → Prop} {format : ItemFormat α Fields}

theorem readParams_spec (hsteps : sf.Steps accepts input At)
    (reading : format.Reading) {parser : sf.State} {text : Text}
    (hat : At parser .params text) (fields : Fields) :
    match parameters accepts text with
    | none => readParams sf format input parser fields = .error .parseError
    | some (params, rest) => ∃ next,
        readParams sf format input parser fields =
            .ok (reading.params params fields, next) ∧
          At next (.list false) rest := by
  induction text using parameters.induct accepts
    generalizing parser fields with
  | case1 text hnone =>
      have hstep := hsteps.parseParam hat
      rw [hnone] at hstep
      rw [parameters_none hnone]
      exact readParams_none hstep
  | case2 text rest hend =>
      have hstep := hsteps.parseParam hat
      rw [hend] at hstep
      obtain ⟨next, hcall, hnext⟩ := hstep
      rw [parameters_end hend]
      exact ⟨next, readParams_end hcall, hnext⟩
  | case3 text param rest hparam ih =>
      have hstep := hsteps.parseParam hat
      rw [hparam] at hstep
      obtain ⟨value, next, hcall, hvalue, hnext⟩ := hstep
      have hrest := ih hnext (reading.set fields param.1 param.2)
      rw [parameters_cons hparam, readParams_cons hcall,
        reading.param_eq hvalue]
      cases hparams : parameters accepts rest with
      | none =>
          rw [hparams] at hrest
          exact hrest
      | some params =>
          rw [hparams] at hrest
          exact hrest

theorem member_eq_none {reading : format.Reading} {start : Start}
    (hstart : ∀ raw, start ≠ .item (.string raw)) {text rest : Text}
    {member : Member}
    (hbody : memberBody accepts start text = some (member, rest)) :
    reading.member member = none := by
  cases start with
  | item bare =>
      obtain ⟨params, _, heq⟩ := Option.map_eq_some_iff.mp hbody
      simp only [Prod.mk.injEq] at heq
      obtain ⟨rfl, _⟩ := heq
      cases bare <;> first | rfl | exact absurd rfl (hstart _)
  | innerList =>
      simp only [memberBody] at hbody
      split at hbody
      next => simp at hbody
      next =>
        obtain ⟨params, _, heq⟩ := Option.map_eq_some_iff.mp hbody
        simp only [Prod.mk.injEq] at heq
        obtain ⟨rfl, _⟩ := heq
        rfl

theorem parseItems_member (hsteps : sf.Steps accepts input At)
    (reading : format.Reading) {parser next : sf.State} {start : Start}
    {value : SfValue} {text : Text}
    (hcall : sf.parseList parser = some (some value, next))
    (hvalue : DenotesStart input value start)
    (hat : At next (startPhase start) text) :
    match memberBody accepts start text with
    | none => parseItems sf format input parser = .error .parseError
    | some (member, rest) => ∃ after, At after (.list false) rest ∧
        parseItems sf format input parser =
          (parseItems sf format input after).map fun items =>
            (reading.member member).toList ++ items := by
  by_cases hstring : ∃ raw, start = .item (.string raw)
  · obtain ⟨raw, rfl⟩ := hstring
    cases value with
    | string range escape =>
        have hparams := readParams_spec hsteps reading hat format.fields
        rw [parseItems_string hcall (stringValue_eq hvalue), memberBody]
        cases hread : parameters accepts text with
        | none =>
            rw [hread] at hparams
            simp only [Option.map_none, hparams]
        | some params =>
            rw [hread] at hparams
            obtain ⟨after, hloop, hafter⟩ := hparams
            simp only [Option.map_some, hloop]
            exact ⟨after, hafter, rfl⟩
    | _ => exact absurd hvalue id
  · have hstart : ∀ raw, start ≠ .item (.string raw) :=
      fun raw heq => hstring ⟨raw, heq⟩
    have hnot : ∀ range escape, value ≠ .string range escape := by
      rintro range escape rfl
      cases start with
      | item bare =>
          cases bare <;> first | exact hvalue | exact hstart _ rfl
      | innerList => simp [DenotesStart] at hvalue
    have hskip := skipItem_spec hsteps hvalue hat
    rw [parseItems_skip hcall hnot]
    cases hbody : memberBody accepts start text with
    | none =>
        rw [hbody] at hskip
        simp only [hskip]
    | some body =>
        rw [hbody] at hskip
        obtain ⟨after, hloop, hafter⟩ := hskip
        refine ⟨after, hafter, ?_⟩
        simp only [hloop, member_eq_none hstart hbody, Option.toList_none,
          List.nil_append]
        cases parseItems sf format input after <;> rfl

theorem parseItems_spec (hsteps : sf.Steps accepts input At)
    (reading : format.Reading) {parser : sf.State} {first : Bool}
    {text : Text} (hat : At parser (.list first) text) :
    parseItems sf format input parser =
      match membersFrom accepts first text with
      | none => .error .parseError
      | some members => .ok (members.filterMap reading.member) := by
  induction first, text using membersFrom.induct accepts
    generalizing parser with
  | case1 first text hnone =>
      have hstep := hsteps.parseList hat
      rw [hnone] at hstep
      rw [membersFrom_none hnone]
      exact parseItems_none hstep
  | case2 first text hend =>
      have hstep := hsteps.parseList hat
      rw [hend] at hstep
      obtain ⟨next, hcall⟩ := hstep
      rw [membersFrom_end hend]
      exact parseItems_end hcall
  | case3 first text start rest hmember hnone =>
      have hstep := hsteps.parseList hat
      rw [hmember] at hstep
      obtain ⟨value, next, hcall, hvalue, hnext⟩ := hstep
      have hone := parseItems_member hsteps reading hcall hvalue hnext
      rw [hnone] at hone
      rw [membersFrom_cons hmember, hnone]
      exact hone
  | case4 first text start rest hmember member left hbody ih =>
      have hstep := hsteps.parseList hat
      rw [hmember] at hstep
      obtain ⟨value, next, hcall, hvalue, hnext⟩ := hstep
      have hone := parseItems_member hsteps reading hcall hvalue hnext
      rw [hbody] at hone
      obtain ⟨after, hafter, hone⟩ := hone
      rw [membersFrom_cons hmember, hbody, hone, ih hafter]
      simp only
      cases membersFrom accepts false left with
      | none => rfl
      | some members =>
          cases hread : reading.member member <;>
            simp [Except.map, hread]

/-- The loops read the list the grammar reads, or fail with the parse
error. -/
theorem parseListWith_eq (hsf : sf.FollowsRfc9651 accepts)
    (reading : format.Reading) (input : Text) :
    parseListWith sf format input =
      match list accepts input with
      | none => .error .parseError
      | some members => .ok (members.filterMap reading.member) := by
  obtain ⟨At, hsteps⟩ := hsf input
  exact parseItems_spec hsteps reading hsteps.new

theorem parseListWith_eq_ok_iff (hsf : sf.FollowsRfc9651 accepts)
    (reading : format.Reading) {input : Text} {items : List α} :
    parseListWith sf format input = .ok items ↔
      (list accepts input).map (List.filterMap reading.member) =
        some items := by
  rw [parseListWith_eq hsf reading]
  cases list accepts input with
  | none => simp
  | some members => simp

/-! ## Whole fields -/

/-- Every line that is text is a well-formed list. -/
def WellFormed (accepts : Text → Bool) (lines : List (Option Text)) : Prop :=
  ∀ line, some line ∈ lines → (list accepts line).isSome

/-- A member of one of the lines is read as this item. -/
def ItemFormat.Reading.Carries (reading : format.Reading)
    (accepts : Text → Bool) (lines : List (Option Text)) (item : α) : Prop :=
  ∃ line members member, some line ∈ lines ∧
    list accepts line = some members ∧ member ∈ members ∧
    reading.member member = some item

theorem fromLines_of_wellFormed (hsf : sf.FollowsRfc9651 accepts)
    (reading : format.Reading) {lines : List (Option Text)}
    (hlines : WellFormed accepts lines) :
    ∃ items, fromLines (parseListWith sf format) lines = .ok items ∧
      ∀ item, item ∈ items ↔ reading.Carries accepts lines item := by
  induction lines with
  | nil => exact ⟨[], rfl, by simp [ItemFormat.Reading.Carries]⟩
  | cons line lines ih =>
      obtain ⟨rest, hrest, hmem⟩ := ih fun line hline =>
        hlines line (List.mem_cons_of_mem _ hline)
      cases line with
      | none =>
          refine ⟨rest, hrest, fun item => (hmem item).trans ?_⟩
          simp [ItemFormat.Reading.Carries]
      | some line =>
          obtain ⟨members, hmembers⟩ := Option.isSome_iff_exists.mp
            (hlines line List.mem_cons_self)
          have hline := parseListWith_eq hsf reading line
          rw [hmembers] at hline
          refine ⟨members.filterMap reading.member ++ rest, ?_, ?_⟩
          · rw [fromLines, hline, hrest]
            rfl
          · intro item
            rw [List.mem_append, hmem, List.mem_filterMap]
            constructor
            · rintro (⟨member, hin, hread⟩ |
                ⟨other, others, member, hother, hrests⟩)
              · exact ⟨line, members, member, List.mem_cons_self, hmembers,
                  hin, hread⟩
              · exact ⟨other, others, member,
                  List.mem_cons_of_mem _ hother, hrests⟩
            · rintro ⟨other, others, member, hother, hothers, hin, hread⟩
              rcases List.mem_cons.mp hother with heq | hother
              · rw [Option.some.injEq] at heq
                rw [heq, hmembers, Option.some.injEq] at hothers
                exact .inl ⟨member, hothers ▸ hin, hread⟩
              · exact .inr ⟨other, others, member, hother, hothers, hin,
                  hread⟩

theorem fromLines_of_not_wellFormed (hsf : sf.FollowsRfc9651 accepts)
    (reading : format.Reading) {lines : List (Option Text)}
    (hlines : ¬ WellFormed accepts lines) :
    fromLines (parseListWith sf format) lines = .error .parseError := by
  induction lines with
  | nil => exact absurd (by simp [WellFormed]) hlines
  | cons line lines ih =>
      cases line with
      | none =>
          exact ih fun hrest => hlines fun line hline =>
            hrest line (by simpa using hline)
      | some line =>
          rw [fromLines, parseListWith_eq hsf reading]
          cases hmembers : list accepts line with
          | none => rfl
          | some members =>
              have hrest : ¬ WellFormed accepts lines := by
                intro hrest
                apply hlines
                intro other hother
                rcases List.mem_cons.mp hother with heq | hother
                · rw [Option.some.inj heq, hmembers, Option.isSome_some]
                · exact hrest other hother
              simp only [ih hrest]
              rfl

end

end

end TrilliumRatelimit
