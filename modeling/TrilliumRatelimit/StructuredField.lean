import Mathlib.Tactic

/-!
# Structured field lists

The parsing algorithms of RFC 9651 for Lists, over text as a list of
characters.  A parser returns what it read and the text that is left, or
nothing where the algorithm fails.  Every parser that reads a value leaves a
strictly shorter suffix, which is what the loops terminate by.

Two things are kept abstract.  Strings and byte sequences are kept as they
stand between their delimiters, and which base64 texts a recipient accepts is
a parameter, since the standard leaves padding to it.
-/

namespace StructuredField

abbrev Text := List Char

inductive BareItem where
  | integer (value : ℤ)
  | decimal (raw : Text)
  | string (raw : Text)
  | token (raw : Text)
  | byteSequence (raw : Text)
  | boolean (value : Bool)
  | date (seconds : ℤ)
  | displayString (raw : Text)
  deriving DecidableEq

abbrev Params := List (Text × BareItem)

structure Item where
  bare : BareItem
  params : Params
  deriving DecidableEq

inductive Member where
  | item (item : Item)
  | innerList (items : List Item) (params : Params)
  deriving DecidableEq

/-! ## Characters -/

def isPrintable (c : Char) : Bool := decide (' ' ≤ c) && decide (c ≤ '~')

def isTokenChar (c : Char) : Bool :=
  c.isAlphanum || "!#$%&'*+-.^_`|~:/".toList.contains c

def isKeyStart (c : Char) : Bool := c.isLower || c = '*'

def isKeyChar (c : Char) : Bool :=
  c.isLower || c.isDigit || "_-.*".toList.contains c

def isBase64Char (c : Char) : Bool :=
  c.isAlphanum || "+/=".toList.contains c

def skipSp (text : Text) : Text := text.dropWhile fun c => c = ' '

def skipOws (text : Text) : Text := text.dropWhile fun c => c = ' ' || c = '\t'

/-! ## Bare items -/

def integerOf (negative : Bool) (digits : Text) : BareItem :=
  .integer (if negative then -(Nat.ofDigitChars 10 digits 0 : ℤ)
    else Nat.ofDigitChars 10 digits 0)

/-- At most 15 digits, or at most 12 and up to three behind a point. -/
def number (negative : Bool) (text : Text) : Option (BareItem × Text) :=
  match text.takeWhile Char.isDigit, text.dropWhile Char.isDigit with
  | digits, '.' :: rest =>
      if digits ≠ [] ∧ digits.length ≤ 12 ∧
          rest.takeWhile Char.isDigit ≠ [] ∧
          (rest.takeWhile Char.isDigit).length ≤ 3
      then some (.decimal (digits ++ '.' :: rest.takeWhile Char.isDigit),
        rest.dropWhile Char.isDigit)
      else none
  | digits, rest =>
      if digits ≠ [] ∧ digits.length ≤ 15
      then some (integerOf negative digits, rest)
      else none

def signedNumber : Text → Option (BareItem × Text)
  | '-' :: rest => number true rest
  | text => number false text

/-- A string after its opening quote; the raw text keeps the backslashes. -/
def stringBody : Text → Option (Text × Text)
  | [] => none
  | c :: rest =>
      if c = '"' then some ([], rest)
      else if c = '\\' then
        match rest with
        | [] => none
        | escaped :: rest =>
            if escaped = '"' ∨ escaped = '\\' then
              (stringBody rest).map fun body =>
                (c :: escaped :: body.1, body.2)
            else none
      else if isPrintable c then
        (stringBody rest).map fun body => (c :: body.1, body.2)
      else none

theorem stringBody_quote (rest : Text) :
    stringBody ('"' :: rest) = some ([], rest) := by
  cases rest <;> simp [stringBody]

theorem stringBody_escaped {escaped : Char}
    (h : escaped = '"' ∨ escaped = '\\') (rest : Text) :
    stringBody ('\\' :: escaped :: rest) =
      (stringBody rest).map fun body =>
        ('\\' :: escaped :: body.1, body.2) := by
  simp [stringBody, h]

theorem stringBody_plain {c : Char} (hprintable : isPrintable c = true)
    (hquote : c ≠ '"') (hbackslash : c ≠ '\\') (rest : Text) :
    stringBody (c :: rest) =
      (stringBody rest).map fun body => (c :: body.1, body.2) := by
  cases rest <;> simp [stringBody, hquote, hbackslash, hprintable]

/-- A byte sequence after its opening colon. -/
def base64Body (accepts : Text → Bool) (text : Text) : Option (Text × Text) :=
  match text.takeWhile fun c => c ≠ ':', text.dropWhile fun c => c ≠ ':' with
  | body, ':' :: rest =>
      if body.all isBase64Char ∧ accepts body then some (body, rest) else none
  | _, _ => none

def hexValue (c : Char) : Option ℕ :=
  if c.isDigit then some (c.toNat - '0'.toNat)
  else if 'a' ≤ c ∧ c ≤ 'f' then some (c.toNat - 'a'.toNat + 10)
  else none

/-- A display string after its opening quote: raw text, the bytes it spells,
and the rest. -/
def displayBody : Text → Option (Text × List UInt8 × Text)
  | [] => none
  | c :: rest =>
      if c = '"' then some ([], [], rest)
      else if c = '%' then
        match rest with
        | high :: low :: rest =>
            match hexValue high, hexValue low with
            | some highValue, some lowValue =>
                (displayBody rest).map fun body =>
                  (c :: high :: low :: body.1,
                    UInt8.ofNat (16 * highValue + lowValue) :: body.2.1,
                    body.2.2)
            | _, _ => none
        | _ => none
      else if isPrintable c then
        (displayBody rest).map fun body =>
          (c :: body.1, UInt8.ofNat c.toNat :: body.2.1, body.2.2)
      else none

def bareItem (accepts : Text → Bool) : Text → Option (BareItem × Text)
  | [] => none
  | c :: rest =>
      if c = '-' ∨ c.isDigit then signedNumber (c :: rest)
      else if c = '"' then
        (stringBody rest).map fun body => (.string body.1, body.2)
      else if c.isAlpha ∨ c = '*' then
        some (.token (c :: rest.takeWhile isTokenChar),
          rest.dropWhile isTokenChar)
      else if c = ':' then
        (base64Body accepts rest).map fun body =>
          (.byteSequence body.1, body.2)
      else if c = '?' then
        match rest with
        | '0' :: rest => some (.boolean false, rest)
        | '1' :: rest => some (.boolean true, rest)
        | _ => none
      else if c = '@' then
        match signedNumber rest with
        | some (.integer seconds, rest) => some (.date seconds, rest)
        | _ => none
      else if c = '%' then
        match rest with
        | '"' :: rest =>
            match displayBody rest with
            | some (raw, bytes, rest) =>
                if (ByteArray.mk bytes.toArray).validateUTF8
                then some (.displayString raw, rest) else none
            | none => none
        | _ => none
      else none

/-! ## Text that is left -/

/-- `rest` is what is left of `text` after at least one character. -/
def After (rest text : Text) : Prop := ∃ c read, text = c :: (read ++ rest)

theorem After.length_lt {rest text : Text} (h : After rest text) :
    rest.length < text.length := by
  obtain ⟨c, read, rfl⟩ := h
  simp only [List.length_cons, List.length_append]
  omega

theorem After.suffix {rest text : Text} (h : After rest text) :
    rest <:+ text := by
  obtain ⟨c, read, rfl⟩ := h
  exact ⟨c :: read, rfl⟩

theorem After.cons (c : Char) (rest : Text) : After rest (c :: rest) :=
  ⟨c, [], rfl⟩

theorem After.cons_of_suffix {rest text : Text} (c : Char)
    (h : rest <:+ text) : After rest (c :: text) := by
  obtain ⟨read, rfl⟩ := h
  exact ⟨c, read, rfl⟩

theorem After.of_suffix {rest middle text : Text} (h : After rest middle)
    (hsuffix : middle <:+ text) : After rest text := by
  obtain ⟨c, read, rfl⟩ := h
  obtain ⟨before, rfl⟩ := hsuffix
  cases before with
  | nil => exact ⟨c, read, rfl⟩
  | cons b before => exact ⟨b, before ++ c :: read, by simp⟩

theorem After.trans_suffix {rest middle text : Text} (hsuffix : rest <:+ middle)
    (h : After middle text) : After rest text := by
  obtain ⟨c, read, rfl⟩ := h
  obtain ⟨before, rfl⟩ := hsuffix
  exact ⟨c, read ++ before, by simp⟩

theorem skipSp_suffix (text : Text) : skipSp text <:+ text :=
  List.dropWhile_suffix _

theorem skipOws_suffix (text : Text) : skipOws text <:+ text :=
  List.dropWhile_suffix _

theorem after_dropWhile {p : Char → Bool} {text : Text}
    (h : text.takeWhile p ≠ []) : After (text.dropWhile p) text := by
  obtain ⟨c, read, hread⟩ := List.exists_cons_of_ne_nil h
  refine ⟨c, read, ?_⟩
  rw [← List.cons_append, ← hread, List.takeWhile_append_dropWhile]

theorem number_after {negative : Bool} {text rest : Text} {bare : BareItem}
    (h : number negative text = some (bare, rest)) : After rest text := by
  unfold number at h
  split at h
  next left hleft =>
    split at h
    next hlengths =>
      simp only [Option.some.injEq, Prod.mk.injEq] at h
      obtain ⟨_, rfl⟩ := h
      have hafter := after_dropWhile hlengths.1
      rw [hleft] at hafter
      exact hafter.trans_suffix
        ((List.dropWhile_suffix _).trans (List.suffix_cons _ _))
    next => simp at h
  next left hleft =>
    split at h
    next hlengths =>
      simp only [Option.some.injEq, Prod.mk.injEq] at h
      obtain ⟨_, rfl⟩ := h
      exact after_dropWhile hlengths.1
    next => simp at h

theorem signedNumber_after {text rest : Text} {bare : BareItem}
    (h : signedNumber text = some (bare, rest)) : After rest text := by
  unfold signedNumber at h
  split at h
  next text => exact .cons_of_suffix _ (number_after h).suffix
  next => exact number_after h

theorem stringBody_eq {text raw rest : Text}
    (h : stringBody text = some (raw, rest)) :
    text = raw ++ '"' :: rest := by
  fun_induction stringBody text generalizing raw with
  | case1 => simp at h
  | case2 text =>
      simp only [Option.some.injEq, Prod.mk.injEq] at h
      obtain ⟨rfl, rfl⟩ := h
      rfl
  | case3 => simp at h
  | case4 _ _ _ _ ih | case6 _ _ _ _ _ ih =>
      obtain ⟨body, hbody, heq⟩ := Option.map_eq_some_iff.mp h
      simp only [Prod.mk.injEq] at heq
      obtain ⟨rfl, rfl⟩ := heq
      rw [ih hbody]
      rfl
  | case5 => simp at h
  | case7 => simp at h

theorem base64Body_eq {accepts : Text → Bool} {text raw rest : Text}
    (h : base64Body accepts text = some (raw, rest)) :
    text = raw ++ ':' :: rest := by
  unfold base64Body at h
  split at h
  next left hleft =>
    split at h
    next =>
      simp only [Option.some.injEq, Prod.mk.injEq] at h
      obtain ⟨rfl, rfl⟩ := h
      rw [← hleft, List.takeWhile_append_dropWhile]
    next => simp at h
  next => simp at h

theorem displayBody_suffix {text raw rest : Text} {bytes : List UInt8}
    (h : displayBody text = some (raw, bytes, rest)) : rest <:+ text := by
  fun_induction displayBody text generalizing raw bytes with
  | case1 => simp at h
  | case2 text =>
      simp only [Option.some.injEq, Prod.mk.injEq] at h
      obtain ⟨_, _, rfl⟩ := h
      exact List.suffix_cons _ _
  | case3 high low text _ _ _ _ _ ih =>
      obtain ⟨body, hbody, heq⟩ := Option.map_eq_some_iff.mp h
      simp only [Prod.mk.injEq] at heq
      obtain ⟨_, _, rfl⟩ := heq
      exact (ih hbody).trans ⟨['%', high, low], rfl⟩
  | case6 c text _ _ _ ih =>
      obtain ⟨body, hbody, heq⟩ := Option.map_eq_some_iff.mp h
      simp only [Prod.mk.injEq] at heq
      obtain ⟨_, _, rfl⟩ := heq
      exact (ih hbody).trans (List.suffix_cons _ _)
  | case4 => simp at h
  | case5 => simp at h
  | case7 => simp at h

/-- The bare items that are read for their value; the others are only
recognised. -/
def BareItem.isRead : BareItem → Bool
  | .integer _ | .string _ | .byteSequence _ => true
  | _ => false

theorem bareItem_cases {accepts : Text → Bool} {text rest : Text}
    {bare : BareItem} (h : bareItem accepts text = some (bare, rest)) :
    signedNumber text = some (bare, rest) ∨
    (∃ raw body, text = '"' :: body ∧ bare = .string raw ∧
      stringBody body = some (raw, rest)) ∨
    (∃ raw body, text = ':' :: body ∧ bare = .byteSequence raw ∧
      base64Body accepts body = some (raw, rest)) ∨
    (bare.isRead = false ∧ After rest text) := by
  cases text with
  | nil => simp [bareItem] at h
  | cons c text =>
      simp only [bareItem] at h
      split_ifs at h with hnumber hquote htoken hcolon hquestion hat hpercent
      · exact .inl h
      · obtain ⟨body, hbody, heq⟩ := Option.map_eq_some_iff.mp h
        simp only [Prod.mk.injEq] at heq
        obtain ⟨rfl, rfl⟩ := heq
        exact .inr (.inl ⟨_, _, by rw [hquote], rfl, hbody⟩)
      · simp only [Option.some.injEq, Prod.mk.injEq] at h
        obtain ⟨rfl, rfl⟩ := h
        exact .inr (.inr (.inr
          ⟨rfl, .cons_of_suffix _ (List.dropWhile_suffix _)⟩))
      · obtain ⟨body, hbody, heq⟩ := Option.map_eq_some_iff.mp h
        simp only [Prod.mk.injEq] at heq
        obtain ⟨rfl, rfl⟩ := heq
        exact .inr (.inr (.inl ⟨_, _, by rw [hcolon], rfl, hbody⟩))
      · right; right; right
        split at h
        all_goals
          simp only [Option.some.injEq, Prod.mk.injEq, reduceCtorEq] at h
        all_goals
          obtain ⟨rfl, rfl⟩ := h
          exact ⟨rfl, .cons_of_suffix _ (List.suffix_cons _ _)⟩
      · right; right; right
        split at h
        next seconds left hseconds =>
          simp only [Option.some.injEq, Prod.mk.injEq] at h
          obtain ⟨rfl, rfl⟩ := h
          exact ⟨rfl, .cons_of_suffix _ (signedNumber_after hseconds).suffix⟩
        next => simp at h
      · right; right; right
        split at h
        next body =>
          split at h
          next raw bytes left hbody =>
            split_ifs at h
            simp only [Option.some.injEq, Prod.mk.injEq] at h
            obtain ⟨rfl, rfl⟩ := h
            exact ⟨rfl, .cons_of_suffix _
              ((displayBody_suffix hbody).trans (List.suffix_cons _ _))⟩
          next => simp at h
        next => simp at h

theorem bareItem_after {accepts : Text → Bool} {text rest : Text}
    {bare : BareItem} (h : bareItem accepts text = some (bare, rest)) :
    After rest text := by
  rcases bareItem_cases h with
    hnumber | ⟨raw, body, rfl, _, hbody⟩ | ⟨raw, body, rfl, _, hbody⟩ |
      ⟨_, hafter⟩
  · exact signedNumber_after hnumber
  · rw [stringBody_eq hbody]
    exact ⟨'"', raw ++ ['"'], by simp⟩
  · rw [base64Body_eq hbody]
    exact ⟨':', raw ++ [':'], by simp⟩
  · exact hafter

/-! ## Parameters -/

/-- A key that is not there is the empty text. -/
def keyOf : Text → Text × Text
  | [] => ([], [])
  | c :: rest =>
      if isKeyStart c
      then (c :: rest.takeWhile isKeyChar, rest.dropWhile isKeyChar)
      else ([], c :: rest)

/-- One parameter, or none where the parameters end. -/
def parameter (accepts : Text → Bool) :
    Text → Option (Option (Text × BareItem) × Text)
  | ';' :: rest =>
      match keyOf (skipSp rest) with
      | ([], _) => none
      | (key, '=' :: rest) =>
          (bareItem accepts rest).map fun value =>
            (some (key, value.1), value.2)
      | (key, rest) => some (some (key, .boolean true), rest)
  | text => some (none, text)

theorem keyOf_suffix (text : Text) : (keyOf text).2 <:+ text := by
  cases text with
  | nil => exact List.suffix_rfl
  | cons c rest =>
      simp only [keyOf]
      split
      · exact (List.dropWhile_suffix _).trans (List.suffix_cons _ _)
      · exact List.suffix_rfl

theorem parameter_after {accepts : Text → Bool} {text rest : Text}
    {param : Text × BareItem}
    (h : parameter accepts text = some (some param, rest)) :
    After rest text := by
  unfold parameter at h
  split at h
  next text =>
    have hkey := (keyOf_suffix (skipSp text)).trans (skipSp_suffix text)
    split at h
    next => simp at h
    next key left _ heq =>
      rw [heq] at hkey
      obtain ⟨value, hvalue, heq⟩ := Option.map_eq_some_iff.mp h
      simp only [Prod.mk.injEq] at heq
      obtain ⟨_, rfl⟩ := heq
      exact .cons_of_suffix _ ((bareItem_after hvalue).suffix.trans
        ((List.suffix_cons _ _).trans hkey))
    next key left _ _ heq =>
      rw [heq] at hkey
      simp only [Option.some.injEq, Prod.mk.injEq] at h
      obtain ⟨_, rfl⟩ := h
      exact .cons_of_suffix _ hkey
  next => simp at h

def parameters (accepts : Text → Bool) (text : Text) :
    Option (Params × Text) :=
  match _h : parameter accepts text with
  | none => none
  | some (none, rest) => some ([], rest)
  | some (some param, rest) =>
      (parameters accepts rest).map fun params =>
        (param :: params.1, params.2)
termination_by text.length
decreasing_by exact (parameter_after _h).length_lt

theorem parameters_none {accepts : Text → Bool} {text : Text}
    (h : parameter accepts text = none) : parameters accepts text = none := by
  rw [parameters]
  split <;> simp_all

theorem parameters_end {accepts : Text → Bool} {text rest : Text}
    (h : parameter accepts text = some (none, rest)) :
    parameters accepts text = some ([], rest) := by
  rw [parameters]
  split <;> simp_all

theorem parameters_cons {accepts : Text → Bool} {text rest : Text}
    {param : Text × BareItem}
    (h : parameter accepts text = some (some param, rest)) :
    parameters accepts text =
      (parameters accepts rest).map fun params =>
        (param :: params.1, params.2) := by
  rw [parameters]
  split <;> simp_all

theorem parameter_end_suffix {accepts : Text → Bool} {text rest : Text}
    (h : parameter accepts text = some (none, rest)) : rest <:+ text := by
  unfold parameter at h
  split at h
  next text =>
    split at h
    next => simp at h
    next => simp at h
    next => simp at h
  next =>
    simp only [Option.some.injEq, Prod.mk.injEq, true_and] at h
    exact h ▸ List.suffix_rfl

theorem parameters_suffix {accepts : Text → Bool} {text rest : Text}
    {params : Params} (h : parameters accepts text = some (params, rest)) :
    rest <:+ text := by
  induction text using parameters.induct accepts generalizing params with
  | case1 text hnone => simp [parameters_none hnone] at h
  | case2 text left hend =>
      simp only [parameters_end hend, Option.some.injEq, Prod.mk.injEq] at h
      exact h.2 ▸ parameter_end_suffix hend
  | case3 text param left hparam ih =>
      rw [parameters_cons hparam] at h
      obtain ⟨tail, htail, heq⟩ := Option.map_eq_some_iff.mp h
      simp only [Prod.mk.injEq] at heq
      obtain ⟨_, rfl⟩ := heq
      exact (ih htail).trans (parameter_after hparam).suffix

end StructuredField
