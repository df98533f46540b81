import TrilliumRatelimit.StructuredList

/-!
# The structured field parser and its helpers

Header values are parsed by a streaming parser of another crate, `sfparse`.
It is a parameter here: `SfParser` is its interface, with the fact that every
value it yields costs input, and `FollowsRfc9651` says that its calls take the
steps of the grammar of `StructuredList` as long as they come in the order the
helpers call them in.  Strings and byte sequences come back as byte ranges
into the input, which are then cut out of the text.

The rest are the helpers of `sf.rs`.  Cutting a range that is out of bounds or
off a character boundary is a panic.
-/

namespace TrilliumRatelimit

open StructuredField

/-! ## Texts and bytes -/

def utf8 (text : Text) : List UInt8 := text.flatMap String.utf8EncodeChar

def byteLen (text : Text) : ℕ := (text.map Char.utf8Size).sum

structure ByteRange where
  start : ℕ
  stop : ℕ
  deriving DecidableEq

/-- `none` where the text ends before `n` bytes or `n` is no boundary. -/
def dropBytes : ℕ → Text → Option Text
  | 0, text => some text
  | _ + 1, [] => none
  | n + 1, c :: rest =>
      if c.utf8Size ≤ n + 1 then dropBytes (n + 1 - c.utf8Size) rest else none

def takeBytes : ℕ → Text → Option Text
  | 0, _ => some []
  | _ + 1, [] => none
  | n + 1, c :: rest =>
      if c.utf8Size ≤ n + 1 then
        (takeBytes (n + 1 - c.utf8Size) rest).map fun text => c :: text
      else none

/-- `&input[range]`; `none` is its panic. -/
def slice (input : Text) (range : ByteRange) : Option Text :=
  if range.start ≤ range.stop then
    (dropBytes range.start input).bind (takeBytes (range.stop - range.start))
  else none

theorem dropBytes_append (before text : Text) :
    dropBytes (byteLen before) (before ++ text) = some text := by
  induction before with
  | nil => cases text <;> rfl
  | cons c before ih =>
      have hpos := c.utf8Size_pos
      have hlen : byteLen (c :: before) =
          c.utf8Size + byteLen before - 1 + 1 := by
        simp only [byteLen, List.map_cons, List.sum_cons]
        omega
      rw [hlen, List.cons_append, dropBytes, if_pos (by omega)]
      convert ih using 2
      omega

theorem takeBytes_append (text after : Text) :
    takeBytes (byteLen text) (text ++ after) = some text := by
  induction text with
  | nil => cases after <;> rfl
  | cons c text ih =>
      have hpos := c.utf8Size_pos
      have hlen : byteLen (c :: text) =
          c.utf8Size + byteLen text - 1 + 1 := by
        simp only [byteLen, List.map_cons, List.sum_cons]
        omega
      have hrest : c.utf8Size + byteLen text - 1 + 1 - c.utf8Size =
          byteLen text := by omega
      rw [hlen, List.cons_append, takeBytes, if_pos (by omega), hrest, ih]
      rfl

/-- The range is where this text stands in the input. -/
def Delimits (input : Text) (range : ByteRange) (text : Text) : Prop :=
  ∃ before after, input = before ++ text ++ after ∧
    range = ⟨byteLen before, byteLen before + byteLen text⟩

theorem Delimits.slice_eq {input text : Text} {range : ByteRange}
    (h : Delimits input range text) : slice input range = some text := by
  obtain ⟨before, after, rfl, rfl⟩ := h
  rw [slice, if_pos (Nat.le_add_right _ _), List.append_assoc,
    dropBytes_append, Option.bind_some, Nat.add_sub_cancel_left,
    takeBytes_append]

/-! ## The parser -/

/-- `sfparse::Value`; the payloads nothing reads are left out. -/
inductive SfValue where
  | boolean
  | integer (value : Int64)
  | decimal
  | string (range : ByteRange) (escape : Bool)
  | token
  | byteSeq (range : ByteRange)
  | innerList
  | date
  | displayString
  deriving DecidableEq

/-- `sfparse::Parser`.  A call returns `none` for its error, and else its
optional value and the parser behind it. -/
structure SfParser where
  State : Type
  new : List UInt8 → State
  parseList : State → Option (Option SfValue × State)
  parseParam : State → Option (Option (Text × SfValue) × State)
  parseInnerList : State → Option (Option SfValue × State)
  unread : State → ℕ
  parseList_unread : ∀ {s value s'}, parseList s = some (value, s') →
    unread s' + value.isSome.toNat ≤ unread s
  parseParam_unread : ∀ {s value s'}, parseParam s = some (value, s') →
    unread s' + value.isSome.toNat ≤ unread s
  parseInnerList_unread : ∀ {s value s'},
    parseInnerList s = some (value, s') →
      unread s' + value.isSome.toNat ≤ unread s

/-- What a parser has been reading: a list before or behind a member, an inner
list before or behind an item, or the parameters of a member. -/
inductive Phase where
  | list (first : Bool)
  | inner (first : Bool)
  | params
  deriving DecidableEq

def startPhase : Start → Phase
  | .item _ => .params
  | .innerList => .inner true

def Denotes (input : Text) : SfValue → BareItem → Prop
  | .integer value, .integer number => value.toInt = number
  | .string range escape, .string raw =>
      Delimits input range raw ∧ (escape = true ↔ '\\' ∈ raw)
  | .byteSeq range, .byteSequence raw => Delimits input range raw
  | .decimal, .decimal _ => True
  | .token, .token _ => True
  | .boolean, .boolean _ => True
  | .date, .date _ => True
  | .displayString, .displayString _ => True
  | _, _ => False

def DenotesStart (input : Text) (value : SfValue) : Start → Prop
  | .item bare => Denotes input value bare
  | .innerList => value = .innerList

/-- The next item of an inner list, after the parameters of the item before
it. -/
def nextInner (accepts : Text → Bool) (first : Bool) (text : Text) :
    Option (Option BareItem × Text) :=
  if first then innerStep accepts true text
  else
    match parameters accepts text with
    | none => none
    | some (_, rest) => innerStep accepts false rest

theorem nextInner_after {first : Bool} {text rest : Text}
    {bare : Option BareItem}
    (h : nextInner accepts first text = some (bare, rest)) :
    After rest text := by
  unfold nextInner at h
  split at h
  · exact innerStep_suffix h
  · split at h
    next => simp at h
    next params middle hparams =>
      exact (innerStep_suffix h).of_suffix (parameters_suffix hparams)

/-- `At s phase rest`: the parser in state `s` has `rest` still to read.  From
there its calls take the steps of the grammar. -/
structure SfParser.Steps (sf : SfParser) (accepts : Text → Bool)
    (input : Text) (At : sf.State → Phase → Text → Prop) : Prop where
  new : At (sf.new (utf8 input)) (.list true) input
  parseList : ∀ {s first text}, At s (.list first) text →
    match nextMember accepts first text with
    | none => sf.parseList s = none
    | some none => ∃ s', sf.parseList s = some (none, s')
    | some (some (start, rest)) => ∃ value s',
        sf.parseList s = some (some value, s') ∧
          DenotesStart input value start ∧ At s' (startPhase start) rest
  parseParam : ∀ {s text}, At s .params text →
    match parameter accepts text with
    | none => sf.parseParam s = none
    | some (none, rest) => ∃ s', sf.parseParam s = some (none, s') ∧
        At s' (.list false) rest
    | some (some (key, bare), rest) => ∃ value s',
        sf.parseParam s = some (some (key, value), s') ∧
          Denotes input value bare ∧ At s' .params rest
  parseInnerList : ∀ {s first text}, At s (.inner first) text →
    match nextInner accepts first text with
    | none => sf.parseInnerList s = none
    | some (none, rest) => ∃ s', sf.parseInnerList s = some (none, s') ∧
        At s' .params rest
    | some (some _, rest) => ∃ value s',
        sf.parseInnerList s = some (some value, s') ∧
          At s' (.inner false) rest

def SfParser.FollowsRfc9651 (sf : SfParser) (accepts : Text → Bool) : Prop :=
  ∀ input, ∃ At, sf.Steps accepts input At

/-- `value as u64` of an integer that is not negative. -/
def readCount (n : ℤ) : UInt64 := UInt64.ofNat n.toNat

theorem toUInt64_eq_readCount {value : Int64} (h : 0 ≤ value) :
    value.toUInt64 = readCount value.toInt := by
  have hnat : value.toInt.toNat < UInt64.size := by
    have hlt := value.toNatClampNeg_lt
    rw [← Int64.toNat_toInt] at hlt
    exact hlt.trans (by decide)
  rw [← UInt64.toNat_inj, Int64.toNat_toUInt64_of_le h, readCount,
    UInt64.toNat_ofNat_of_lt' hnat, Int64.toNat_toInt]

/-! ## The helpers -/

/-- Why parsing gives no result: `ParseError`, or a panic. -/
inductive Fault where
  | parseError
  | panic
  deriving DecidableEq

def unescape : Text → Text
  | [] => []
  | c :: rest =>
      if c = '\\' then
        match rest with
        | [] => []
        | escaped :: rest => escaped :: unescape rest
      else c :: unescape rest

def stringValue (input : Text) (range : ByteRange) (escape : Bool) :
    Option Text :=
  (slice input range).map fun raw => if escape then unescape raw else raw

theorem unescape_cons {c : Char} (h : c ≠ '\\') (rest : Text) :
    unescape (c :: rest) = c :: unescape rest := by
  cases rest <;> simp [unescape, h]

theorem unescape_backslash (escaped : Char) (rest : Text) :
    unescape ('\\' :: escaped :: rest) = escaped :: unescape rest := by
  simp [unescape]

theorem unescape_of_not_mem {raw : Text} (h : '\\' ∉ raw) :
    unescape raw = raw := by
  induction raw with
  | nil => rfl
  | cons c rest ih =>
      simp only [List.mem_cons, not_or] at h
      rw [unescape_cons (Ne.symm h.1), ih h.2]

/-- Where there is nothing to unescape the range is taken as it is. -/
theorem stringValue_eq {input raw : Text} {range : ByteRange} {escape : Bool}
    (h : Denotes input (.string range escape) (.string raw)) :
    stringValue input range escape = some (unescape raw) := by
  obtain ⟨hrange, hescape⟩ := h
  rw [stringValue, hrange.slice_eq, Option.map_some]
  cases escape with
  | true => rfl
  | false =>
      have hraw : '\\' ∉ raw := fun hmem => by simpa using hescape.mpr hmem
      rw [unescape_of_not_mem hraw]
      rfl

def escapeChars : Text → Text
  | [] => []
  | c :: rest =>
      if c = '\\' ∨ c = '"' then '\\' :: c :: escapeChars rest
      else c :: escapeChars rest

def writeSfString (value : Text) : Text := '"' :: escapeChars value ++ ['"']

/-- An unsigned integer as it is displayed. -/
def decimalText (n : UInt64) : Text := Nat.toDigits 10 n.toNat

def drainParams (sf : SfParser) (parser : sf.State) :
    Except Fault sf.State :=
  match _h : sf.parseParam parser with
  | none => .error .parseError
  | some (none, next) => .ok next
  | some (some _, next) => drainParams sf next
termination_by sf.unread parser
decreasing_by exact sf.parseParam_unread _h

def drainInnerList (sf : SfParser) (parser : sf.State) :
    Except Fault sf.State :=
  match _h : sf.parseInnerList parser with
  | none => .error .parseError
  | some (none, next) => .ok next
  | some (some _, next) => drainInnerList sf next
termination_by sf.unread parser
decreasing_by exact sf.parseInnerList_unread _h

def skipItem (sf : SfParser) (parser : sf.State) (value : SfValue) :
    Except Fault sf.State :=
  if value = .innerList then
    match drainInnerList sf parser with
    | .error fault => .error fault
    | .ok next => drainParams sf next
  else drainParams sf parser

theorem drainParams_none {sf : SfParser} {parser : sf.State}
    (h : sf.parseParam parser = none) :
    drainParams sf parser = .error .parseError := by
  rw [drainParams]
  split <;> simp_all

theorem drainParams_end {sf : SfParser} {parser next : sf.State}
    (h : sf.parseParam parser = some (none, next)) :
    drainParams sf parser = .ok next := by
  rw [drainParams]
  split <;> simp_all

theorem drainParams_cons {sf : SfParser} {parser next : sf.State}
    {value : Text × SfValue}
    (h : sf.parseParam parser = some (some value, next)) :
    drainParams sf parser = drainParams sf next := by
  rw [drainParams]
  split <;> simp_all

theorem drainParams_unread {sf : SfParser} {parser next : sf.State}
    (h : drainParams sf parser = .ok next) :
    sf.unread next ≤ sf.unread parser := by
  induction parser using drainParams.induct sf with
  | case1 parser hnone => simp [drainParams_none hnone] at h
  | case2 parser left hend =>
      have hle := sf.parseParam_unread hend
      rw [drainParams_end hend, Except.ok.injEq] at h
      subst h
      omega
  | case3 parser value left hvalue ih =>
      have hle := sf.parseParam_unread hvalue
      rw [drainParams_cons hvalue] at h
      exact (ih h).trans (by omega)

theorem drainInnerList_none {sf : SfParser} {parser : sf.State}
    (h : sf.parseInnerList parser = none) :
    drainInnerList sf parser = .error .parseError := by
  rw [drainInnerList]
  split <;> simp_all

theorem drainInnerList_end {sf : SfParser} {parser next : sf.State}
    (h : sf.parseInnerList parser = some (none, next)) :
    drainInnerList sf parser = .ok next := by
  rw [drainInnerList]
  split <;> simp_all

theorem drainInnerList_cons {sf : SfParser} {parser next : sf.State}
    {value : SfValue}
    (h : sf.parseInnerList parser = some (some value, next)) :
    drainInnerList sf parser = drainInnerList sf next := by
  rw [drainInnerList]
  split <;> simp_all

theorem drainInnerList_unread {sf : SfParser} {parser next : sf.State}
    (h : drainInnerList sf parser = .ok next) :
    sf.unread next ≤ sf.unread parser := by
  induction parser using drainInnerList.induct sf with
  | case1 parser hnone => simp [drainInnerList_none hnone] at h
  | case2 parser left hend =>
      have hle := sf.parseInnerList_unread hend
      rw [drainInnerList_end hend, Except.ok.injEq] at h
      subst h
      omega
  | case3 parser value left hvalue ih =>
      have hle := sf.parseInnerList_unread hvalue
      rw [drainInnerList_cons hvalue] at h
      exact (ih h).trans (by omega)

theorem skipItem_unread {sf : SfParser} {parser next : sf.State}
    {value : SfValue} (h : skipItem sf parser value = .ok next) :
    sf.unread next ≤ sf.unread parser := by
  unfold skipItem at h
  split at h
  · split at h
    next => simp at h
    next middle hmiddle =>
      exact (drainParams_unread h).trans (drainInnerList_unread hmiddle)
  · exact drainParams_unread h

end TrilliumRatelimit
