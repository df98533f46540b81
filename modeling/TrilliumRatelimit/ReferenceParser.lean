import TrilliumRatelimit.SfParser
import TrilliumRatelimit.StructuredText

/-!
# A parser that follows the grammar

`referenceParser` keeps the whole input and the suffix it has not read, and
takes one step of the grammar at each call.  Where a value stands is the
number of bytes before that suffix.  It is the parser the assumptions about
`sfparse` are tried on.
-/

namespace TrilliumRatelimit

open StructuredField

structure Cursor where
  input : Text
  phase : Phase
  rest : Text

def decodeUtf8 (bytes : List UInt8) : Text :=
  match bytes.toByteArray.utf8Decode? with
  | none => []
  | some chars => chars.toList

theorem decodeUtf8_utf8 (text : Text) : decodeUtf8 (utf8 text) = text := by
  have hdecode : (utf8 text).toByteArray.utf8Decode? = some text.toArray :=
    List.utf8Decode?_utf8Encode
  rw [decodeUtf8, hdecode]

/-- The range of a text that ends one byte before `rest`. -/
def rangeBefore (input raw rest : Text) : ByteRange :=
  ⟨byteLen input - byteLen rest - 1 - byteLen raw,
    byteLen input - byteLen rest - 1⟩

def valueOf (input rest : Text) : BareItem → SfValue
  | .integer n => .integer (Int64.ofInt n)
  | .decimal _ => .decimal
  | .string raw =>
      .string (rangeBefore input raw rest) (decide ('\\' ∈ raw))
  | .token _ => .token
  | .byteSequence raw => .byteSeq (rangeBefore input raw rest)
  | .boolean _ => .boolean
  | .date _ => .date
  | .displayString _ => .displayString

def startValue (input rest : Text) : Start → SfValue
  | .item bare => valueOf input rest bare
  | .innerList => .innerList

def Cursor.parseList (accepts : Text → Bool) (s : Cursor) :
    Option (Option SfValue × Cursor) :=
  match nextMember accepts (decide (s.phase = .list true)) s.rest with
  | none => none
  | some none => some (none, s)
  | some (some (start, rest)) =>
      some (some (startValue s.input rest start),
        ⟨s.input, startPhase start, rest⟩)

def Cursor.parseParam (accepts : Text → Bool) (s : Cursor) :
    Option (Option (Text × SfValue) × Cursor) :=
  match parameter accepts s.rest with
  | none => none
  | some (none, rest) => some (none, ⟨s.input, .list false, rest⟩)
  | some (some (key, bare), rest) =>
      some (some (key, valueOf s.input rest bare), ⟨s.input, .params, rest⟩)

def Cursor.parseInnerList (accepts : Text → Bool) (s : Cursor) :
    Option (Option SfValue × Cursor) :=
  match nextInner accepts (decide (s.phase = .inner true)) s.rest with
  | none => none
  | some (none, rest) => some (none, ⟨s.input, .params, rest⟩)
  | some (some bare, rest) =>
      some (some (valueOf s.input rest bare), ⟨s.input, .inner false, rest⟩)

/-! ## Every value costs input -/

theorem Cursor.parseList_unread {accepts : Text → Bool} {s s' : Cursor}
    {value : Option SfValue} (h : s.parseList accepts = some (value, s')) :
    s'.rest.length + value.isSome.toNat ≤ s.rest.length := by
  unfold Cursor.parseList at h
  split at h
  next => simp at h
  next =>
    simp only [Option.some.injEq, Prod.mk.injEq] at h
    obtain ⟨rfl, rfl⟩ := h
    simp
  next start rest hmember =>
    simp only [Option.some.injEq, Prod.mk.injEq] at h
    obtain ⟨rfl, rfl⟩ := h
    exact (nextMember_after hmember).length_lt

theorem Cursor.parseParam_unread {accepts : Text → Bool} {s s' : Cursor}
    {value : Option (Text × SfValue)}
    (h : s.parseParam accepts = some (value, s')) :
    s'.rest.length + value.isSome.toNat ≤ s.rest.length := by
  unfold Cursor.parseParam at h
  split at h
  next => simp at h
  next rest hend =>
    simp only [Option.some.injEq, Prod.mk.injEq] at h
    obtain ⟨rfl, rfl⟩ := h
    exact (parameter_end_suffix hend).length_le
  next key bare rest hparam =>
    simp only [Option.some.injEq, Prod.mk.injEq] at h
    obtain ⟨rfl, rfl⟩ := h
    exact (parameter_after hparam).length_lt

theorem Cursor.parseInnerList_unread {accepts : Text → Bool} {s s' : Cursor}
    {value : Option SfValue}
    (h : s.parseInnerList accepts = some (value, s')) :
    s'.rest.length + value.isSome.toNat ≤ s.rest.length := by
  unfold Cursor.parseInnerList at h
  split at h
  next => simp at h
  next rest hend =>
    simp only [Option.some.injEq, Prod.mk.injEq] at h
    obtain ⟨rfl, rfl⟩ := h
    exact (nextInner_after hend).suffix.length_le
  next bare rest hitem =>
    simp only [Option.some.injEq, Prod.mk.injEq] at h
    obtain ⟨rfl, rfl⟩ := h
    exact (nextInner_after hitem).length_lt

def referenceParser (accepts : Text → Bool) : SfParser where
  State := Cursor
  new bytes := ⟨decodeUtf8 bytes, .list true, decodeUtf8 bytes⟩
  parseList := Cursor.parseList accepts
  parseParam := Cursor.parseParam accepts
  parseInnerList := Cursor.parseInnerList accepts
  unread s := s.rest.length
  parseList_unread := Cursor.parseList_unread
  parseParam_unread := Cursor.parseParam_unread
  parseInnerList_unread := Cursor.parseInnerList_unread

/-! ## Every value is where it was read -/

theorem byteLen_append (text more : Text) :
    byteLen (text ++ more) = byteLen text + byteLen more := by
  simp [byteLen]

theorem delimits_rangeBefore {input raw rest : Text} {delimiter : Char}
    (hdelimiter : delimiter.utf8Size = 1)
    (h : raw ++ delimiter :: rest <:+ input) :
    Delimits input (rangeBefore input raw rest) raw := by
  obtain ⟨before, rfl⟩ := h
  have hlen : byteLen (before ++ (raw ++ delimiter :: rest)) =
      byteLen before + byteLen raw + 1 + byteLen rest := by
    rw [byteLen_append, byteLen_append]
    simp only [byteLen, List.map_cons, List.sum_cons, hdelimiter]
    omega
  refine ⟨before, delimiter :: rest, by simp, ?_⟩
  rw [rangeBefore, hlen]
  congr 1 <;> omega

theorem signedNumber_kind {text rest : Text} {bare : BareItem}
    (h : signedNumber text = some (bare, rest)) :
    (∃ n, bare = .integer n) ∨ ∃ raw, bare = .decimal raw := by
  have hnumber (negative : Bool) (text : Text)
      (h : number negative text = some (bare, rest)) :
      (∃ n, bare = .integer n) ∨ ∃ raw, bare = .decimal raw := by
    unfold number at h
    split at h
    next =>
      split_ifs at h
      simp only [Option.some.injEq, Prod.mk.injEq] at h
      exact .inr ⟨_, h.1.symm⟩
    next =>
      split_ifs at h
      simp only [Option.some.injEq, Prod.mk.injEq] at h
      exact .inl ⟨_, h.1.symm⟩
  unfold signedNumber at h
  split at h
  · exact hnumber _ _ h
  · exact hnumber _ _ h

theorem denotes_valueOf {accepts : Text → Bool} {input text rest : Text}
    {bare : BareItem} (hsuffix : text <:+ input)
    (h : bareItem accepts text = some (bare, rest)) :
    Denotes input (valueOf input rest bare) bare := by
  have hlegal := bareItem_legal h
  rcases bareItem_cases h with
    hnumber | ⟨raw, body, rfl, rfl, hbody⟩ | ⟨raw, body, rfl, rfl, hbody⟩ |
      ⟨_, _⟩
  · rcases signedNumber_kind hnumber with ⟨n, rfl⟩ | ⟨raw, rfl⟩
    · change n.natAbs < 10 ^ 15 at hlegal
      exact Int64.toInt_ofInt_of_le (by omega) (by omega)
    · trivial
  · have hraw : raw ++ '"' :: rest <:+ input := by
      rw [← stringBody_eq hbody]
      exact (List.suffix_cons _ _).trans hsuffix
    exact ⟨delimits_rangeBefore (by decide) hraw, by simp⟩
  · have hraw : raw ++ ':' :: rest <:+ input := by
      rw [← base64Body_eq hbody]
      exact (List.suffix_cons _ _).trans hsuffix
    exact delimits_rangeBefore (by decide) hraw
  · cases bare <;> trivial

theorem denotesStart_startValue {accepts : Text → Bool}
    {input text rest : Text} {start : Start} (hsuffix : text <:+ input)
    (h : memberStart accepts text = some (start, rest)) :
    DenotesStart input (startValue input rest start) start := by
  unfold memberStart at h
  split at h
  next =>
    simp only [Option.some.injEq, Prod.mk.injEq] at h
    obtain ⟨rfl, _⟩ := h
    rfl
  next =>
    obtain ⟨value, hvalue, heq⟩ := Option.map_eq_some_iff.mp h
    simp only [Prod.mk.injEq] at heq
    obtain ⟨rfl, rfl⟩ := heq
    exact denotes_valueOf hsuffix hvalue

theorem parameter_bare {accepts : Text → Bool} {text rest key : Text}
    {bare : BareItem}
    (h : parameter accepts text = some (some (key, bare), rest)) :
    (∃ left, left <:+ text ∧ bareItem accepts left = some (bare, rest)) ∨
      bare = .boolean true := by
  unfold parameter at h
  split at h
  next text =>
    have hkey := (keyOf_suffix (skipSp text)).trans (skipSp_suffix text)
    split at h
    next => simp at h
    next key left _ heq =>
      rw [heq] at hkey
      obtain ⟨value, hvalue, heq⟩ := Option.map_eq_some_iff.mp h
      simp only [Prod.mk.injEq, Option.some.injEq] at heq
      obtain ⟨⟨_, rfl⟩, rfl⟩ := heq
      exact .inl ⟨left, ((List.suffix_cons _ _).trans hkey).trans
        (List.suffix_cons _ _), hvalue⟩
    next =>
      simp only [Option.some.injEq, Prod.mk.injEq] at h
      exact .inr h.1.2.symm
  next => simp at h

/-! ## Its calls are the steps of the grammar -/

/-- The cursor stands in the input before `rest`. -/
def Cursor.At (input : Text) (s : Cursor) (phase : Phase) (rest : Text) :
    Prop :=
  s = ⟨input, phase, rest⟩ ∧ rest <:+ input

theorem referenceParser_steps (accepts : Text → Bool) (input : Text) :
    (referenceParser accepts).Steps accepts input (Cursor.At input) where
  new := by
    refine ⟨?_, List.suffix_rfl⟩
    simp only [referenceParser, decodeUtf8_utf8]
  parseList := by
    rintro s first text ⟨rfl, hsuffix⟩
    have hphase : decide (Phase.list first = .list true) = first := by simp
    simp only [referenceParser, Cursor.parseList, hphase]
    cases hmember : nextMember accepts first text with
    | none => rfl
    | some member =>
        cases member with
        | none => exact ⟨_, rfl⟩
        | some member =>
            obtain ⟨start, rest⟩ := member
            obtain ⟨left, hleft, hstart⟩ := nextMember_start hmember
            refine ⟨_, _, rfl,
              denotesStart_startValue (hleft.trans hsuffix) hstart, rfl, ?_⟩
            exact (nextMember_after hmember).suffix.trans hsuffix
  parseParam := by
    rintro s text ⟨rfl, hsuffix⟩
    simp only [referenceParser, Cursor.parseParam]
    cases hparam : parameter accepts text with
    | none => rfl
    | some param =>
        obtain ⟨param, rest⟩ := param
        cases param with
        | none =>
            refine ⟨_, rfl, rfl, ?_⟩
            exact (parameter_end_suffix hparam).trans hsuffix
        | some param =>
            obtain ⟨key, bare⟩ := param
            refine ⟨_, _, rfl, ?_, rfl,
              (parameter_after hparam).suffix.trans hsuffix⟩
            rcases parameter_bare hparam with ⟨left, hleft, hbare⟩ | rfl
            · exact denotes_valueOf (hleft.trans hsuffix) hbare
            · trivial
  parseInnerList := by
    rintro s first text ⟨rfl, hsuffix⟩
    have hphase : decide (Phase.inner first = .inner true) = first := by simp
    simp only [referenceParser, Cursor.parseInnerList, hphase]
    cases hnext : nextInner accepts first text with
    | none => rfl
    | some item =>
        obtain ⟨item, rest⟩ := item
        have hrest := (nextInner_after hnext).suffix.trans hsuffix
        cases item with
        | none => exact ⟨_, rfl, rfl, hrest⟩
        | some bare => exact ⟨_, _, rfl, rfl, hrest⟩

theorem referenceParser_followsRfc9651 (accepts : Text → Bool) :
    (referenceParser accepts).FollowsRfc9651 accepts :=
  fun input => ⟨Cursor.At input, referenceParser_steps accepts input⟩

end TrilliumRatelimit
