import Mathlib.Data.List.TakeWhile
import TrilliumRatelimit.StructuredList

/-!
# Spelling lists

Texts that the parsing algorithms read back: the serialisation of integers,
strings, byte sequences, parameters and lists, as far as their values are read
at all.  `Spells` is about one value and any text that may stand behind it, so
that spellings compose; `list_join` puts members together.

The other direction says what a value read from any text looks like.
-/

namespace StructuredField

/-- What may stand behind a bare item. -/
def Stops (rest : Text) : Prop := ∀ c ∈ rest.head?, c = ';' ∨ c = ','

/-- What may stand behind a member. -/
def EndsMember (rest : Text) : Prop := ∀ c ∈ rest.head?, c = ','

def Spells (accepts : Text → Bool) (text : Text) (bare : BareItem) : Prop :=
  ∀ rest, Stops rest → bareItem accepts (text ++ rest) = some (bare, rest)

theorem EndsMember.stops {rest : Text} (h : EndsMember rest) : Stops rest :=
  fun c hc => .inr (h c hc)

theorem Stops.takeWhile {p : Char → Bool} {text rest : Text}
    (hstops : Stops rest) (htext : ∀ c ∈ text, p c = true)
    (hsemicolon : p ';' = false) (hcomma : p ',' = false) :
    (text ++ rest).takeWhile p = text ∧ (text ++ rest).dropWhile p = rest := by
  have hrest : rest.takeWhile p = [] ∧ rest.dropWhile p = rest := by
    cases rest with
    | nil => exact ⟨rfl, rfl⟩
    | cons c rest =>
        have hc : p c = false := by
          rcases hstops c rfl with rfl | rfl
          · exact hsemicolon
          · exact hcomma
        simp [hc]
  rw [List.takeWhile_append_of_pos htext, List.dropWhile_append_of_pos htext,
    hrest.1, hrest.2, List.append_nil]
  exact ⟨rfl, rfl⟩

/-! ## Bare items -/

theorem spells_integer (accepts : Text → Bool) {n : ℕ} (hn : n < 10 ^ 15) :
    Spells accepts (Nat.toDigits 10 n) (.integer n) := by
  intro rest hrest
  have hdigits : ∀ c ∈ Nat.toDigits 10 n, Char.isDigit c = true :=
    fun c hc => Nat.isDigit_of_mem_toDigits (by decide) (by decide) hc
  have hlength : (Nat.toDigits 10 n).length ≤ 15 :=
    (Nat.length_toDigits_le_iff (by decide) (by decide)).mpr hn
  obtain ⟨htake, hdrop⟩ := hrest.takeWhile hdigits (by decide) (by decide)
  have hpoint : ∀ left, rest ≠ '.' :: left := by
    rintro left rfl
    rcases hrest '.' rfl with h | h <;> exact absurd h (by decide)
  have hnumber : number false (Nat.toDigits 10 n ++ rest) =
      some (.integer n, rest) := by
    rw [number, htake, hdrop]
    split
    next left => exact absurd rfl (hpoint left)
    next =>
      rw [if_pos ⟨Nat.toDigits_ne_nil, hlength⟩, integerOf, if_neg (by decide),
        Nat.ofDigitChars_ten_toDigits]
  obtain ⟨c, tail, hcons⟩ := List.exists_cons_of_ne_nil
    (Nat.toDigits_ne_nil (n := n) (b := 10))
  have hc : c.isDigit = true := hdigits c (by rw [hcons]; simp)
  rw [hcons] at hnumber ⊢
  rw [List.cons_append] at hnumber ⊢
  simp only [bareItem, hc, or_true, if_true]
  unfold signedNumber
  split
  next left heq =>
    rw [(List.cons.inj heq).1] at hc
    exact absurd hc (by decide)
  next => exact hnumber

/-- A number of more than fifteen digits is none, whatever follows. -/
theorem bareItem_long (accepts : Text → Bool) {digits : Text}
    (hdigits : ∀ c ∈ digits, Char.isDigit c = true)
    (hlong : 15 < digits.length) (rest : Text) :
    bareItem accepts (digits ++ rest) = none := by
  have hlength :
      15 < ((digits ++ rest).takeWhile Char.isDigit).length := by
    rw [List.takeWhile_append_of_pos hdigits, List.length_append]
    omega
  have hnumber : number false (digits ++ rest) = none := by
    unfold number
    split
    next => rw [if_neg (by omega)]
    next => rw [if_neg (by omega)]
  cases digits with
  | nil => simp at hlong
  | cons c tail =>
      have hc := hdigits c List.mem_cons_self
      simp only [List.cons_append, bareItem, hc, or_true, if_true]
      unfold signedNumber
      split
      next heq =>
        rw [(List.cons.inj heq).1] at hc
        exact absurd hc (by decide)
      next => exact hnumber

/-- Text that stands between quotes. -/
def Quotable (raw : Text) : Prop :=
  ∀ rest, stringBody (raw ++ '"' :: rest) = some (raw, rest)

theorem spells_string (accepts : Text → Bool) {raw : Text}
    (h : Quotable raw) :
    Spells accepts ('"' :: raw ++ ['"']) (.string raw) := by
  intro rest _
  have hquote : ¬ ('"' = '-' ∨ '"'.isDigit = true) := by decide
  simp only [List.cons_append, List.append_assoc, List.nil_append, bareItem,
    if_neg hquote, if_true, h rest, Option.map_some]

theorem base64Body_append {accepts : Text → Bool} {raw : Text}
    (hchars : ∀ c ∈ raw, isBase64Char c = true) (haccepts : accepts raw)
    (rest : Text) :
    base64Body accepts (raw ++ ':' :: rest) = some (raw, rest) := by
  have hraw : ∀ c ∈ raw, decide (c ≠ ':') = true := by
    intro c hc
    have hbase := hchars c hc
    rw [decide_eq_true_eq]
    rintro rfl
    exact absurd hbase (by decide)
  rw [base64Body, List.takeWhile_append_of_pos hraw,
    List.dropWhile_append_of_pos hraw]
  simpa [haccepts] using hchars

theorem spells_byteSequence {accepts : Text → Bool} {raw : Text}
    (hchars : ∀ c ∈ raw, isBase64Char c = true) (haccepts : accepts raw) :
    Spells accepts (':' :: raw ++ [':']) (.byteSequence raw) := by
  intro rest _
  simp [bareItem, base64Body_append hchars haccepts]

/-! ## Parameters -/

def IsKey (key : Text) : Prop :=
  ∃ c tail, key = c :: tail ∧ isKeyStart c = true ∧
    ∀ c ∈ tail, isKeyChar c = true

theorem IsKey.of_all {c : Char} {tail : Text} (hstart : isKeyStart c = true)
    (htail : tail.all isKeyChar = true) : IsKey (c :: tail) :=
  ⟨c, tail, rfl, hstart, List.all_eq_true.mp htail⟩

inductive SpellsParams (accepts : Text → Bool) : Text → Params → Prop
  | nil : SpellsParams accepts [] []
  | cons {key text rest : Text} {bare : BareItem} {params : Params} :
      IsKey key → Spells accepts text bare → SpellsParams accepts rest params →
        SpellsParams accepts (';' :: key ++ '=' :: text ++ rest)
          ((key, bare) :: params)

theorem SpellsParams.single {accepts : Text → Bool} {key text : Text}
    {bare : BareItem} (hkey : IsKey key) (h : Spells accepts text bare) :
    SpellsParams accepts (';' :: key ++ '=' :: text) [(key, bare)] := by
  have hcons := SpellsParams.cons hkey h .nil
  rwa [List.append_nil] at hcons

theorem SpellsParams.append {accepts : Text → Bool} {text more : Text}
    {params moreParams : Params} (h : SpellsParams accepts text params)
    (hmore : SpellsParams accepts more moreParams) :
    SpellsParams accepts (text ++ more) (params ++ moreParams) := by
  induction h with
  | nil => exact hmore
  | cons hkey hspells _ ih =>
      have hcons := SpellsParams.cons hkey hspells ih
      simpa using hcons

theorem SpellsParams.stops {accepts : Text → Bool} {text rest : Text}
    {params : Params} (h : SpellsParams accepts text params)
    (hrest : Stops rest) : Stops (text ++ rest) := by
  cases h with
  | nil => exact hrest
  | cons =>
      intro c hc
      simp only [List.cons_append, List.head?_cons, Option.mem_def,
        Option.some.injEq] at hc
      exact .inl hc.symm

theorem keyOf_append {key : Text} (hkey : IsKey key) (rest : Text) :
    keyOf (key ++ '=' :: rest) = (key, '=' :: rest) := by
  obtain ⟨c, tail, rfl, hstart, htail⟩ := hkey
  have hequals : isKeyChar '=' = false := by decide
  rw [List.cons_append, keyOf, if_pos hstart,
    List.takeWhile_append_of_pos htail, List.dropWhile_append_of_pos htail]
  simp [hequals]

theorem skipSp_key {key : Text} (hkey : IsKey key) (rest : Text) :
    skipSp (key ++ rest) = key ++ rest := by
  obtain ⟨c, tail, rfl, hstart, _⟩ := hkey
  have hc : c ≠ ' ' := by
    rintro rfl
    exact absurd hstart (by decide)
  simp [skipSp, hc]

theorem parameter_key (accepts : Text → Bool) {key : Text} (hkey : IsKey key)
    (text : Text) :
    parameter accepts (';' :: (key ++ '=' :: text)) =
      (bareItem accepts text).map fun value =>
        (some (key, value.1), value.2) := by
  obtain ⟨c, tail, rfl, _, _⟩ := id hkey
  rw [parameter, skipSp_key hkey, keyOf_append hkey]
  rfl

theorem SpellsParams.parameters_append {accepts : Text → Bool}
    {text rest : Text} {params : Params}
    (h : SpellsParams accepts text params) (hrest : Stops rest) :
    parameters accepts (text ++ rest) =
      (parameters accepts rest).map fun more =>
        (params ++ more.1, more.2) := by
  induction h with
  | nil => cases hmore : parameters accepts rest <;> simp [hmore]
  | @cons key text more bare params hkey hspells hparams ih =>
      have hparam := parameter_key accepts hkey (text ++ (more ++ rest))
      rw [hspells _ (hparams.stops hrest)] at hparam
      have htext : ';' :: key ++ '=' :: text ++ more ++ rest =
          ';' :: (key ++ '=' :: (text ++ (more ++ rest))) := by simp
      rw [htext, parameters_cons hparam, ih, Option.map_map]
      rfl

theorem SpellsParams.parameters_eq {accepts : Text → Bool}
    {text rest : Text} {params : Params}
    (h : SpellsParams accepts text params) (hrest : EndsMember rest) :
    parameters accepts (text ++ rest) = some (params, rest) := by
  have hend : parameters accepts rest = some ([], rest) := by
    apply parameters_end
    cases rest with
    | nil => rfl
    | cons c rest =>
        obtain rfl := hrest c rfl
        simp [parameter]
  rw [h.parameters_append hrest.stops, hend, Option.map_some,
    List.append_nil]

/-! ## Lists -/

/-- A member that starts with a quote. -/
structure SpellsMember (accepts : Text → Bool) (text : Text)
    (member : Member) : Prop where
  quoted : ∃ tail, text = '"' :: tail
  body : ∀ rest, EndsMember rest → ∃ start left,
    memberStart accepts (text ++ rest) = some (start, left) ∧
      memberBody accepts start left = some (member, rest)

theorem spellsMember_string {accepts : Text → Bool} {raw text : Text}
    {params : Params} (hraw : Quotable raw)
    (hparams : SpellsParams accepts text params) :
    SpellsMember accepts ('"' :: raw ++ '"' :: text)
      (.item ⟨.string raw, params⟩) where
  quoted := ⟨_, rfl⟩
  body := by
    intro rest hrest
    refine ⟨.item (.string raw), text ++ rest, ?_, ?_⟩
    · have hspells := spells_string accepts hraw _ (hparams.stops hrest.stops)
      simp only [List.cons_append, List.append_assoc, List.nil_append]
        at hspells ⊢
      simp [memberStart, hspells]
    · rw [memberBody, hparams.parameters_eq hrest]
      rfl

/-- Members joined by a comma and a space. -/
def joinMembers (texts : List Text) : Text :=
  [',', ' '].intercalate texts

@[simp] theorem joinMembers_singleton (text : Text) :
    joinMembers [text] = text := by
  simp [joinMembers]

/-- What stands behind the first member. -/
def joinTail : List Text → Text
  | [] => []
  | text :: texts => ',' :: ' ' :: (text ++ joinTail texts)

theorem joinMembers_cons (text : Text) (texts : List Text) :
    joinMembers (text :: texts) = text ++ joinTail texts := by
  induction texts generalizing text with
  | nil => simp [joinMembers, joinTail]
  | cons next texts ih =>
      have hnext := ih next
      simp only [joinMembers, List.intercalate] at hnext ⊢
      rw [List.intersperse_cons_cons, List.flatten_cons, List.flatten_cons, hnext]
      rfl

theorem joinTail_endsMember (texts : List Text) :
    EndsMember (joinTail texts) := by
  intro c hc
  cases texts with
  | nil => simp [joinTail] at hc
  | cons text texts =>
      simp only [joinTail, List.head?_cons, Option.mem_def,
        Option.some.injEq] at hc
      exact hc.symm

theorem membersFrom_joinTail {accepts : Text → Bool} {texts : List Text}
    {members : List Member}
    (h : List.Forall₂ (SpellsMember accepts) texts members) :
    membersFrom accepts false (joinTail texts) = some members := by
  induction h with
  | nil => exact membersFrom_end (by simp [nextMember, separator, joinTail, skipOws])
  | @cons text member texts members hspells _ ih =>
      obtain ⟨start, left, hstart, hbody⟩ :=
        hspells.body _ (joinTail_endsMember texts)
      obtain ⟨tail, rfl⟩ := hspells.quoted
      have hnext : nextMember accepts false
          (joinTail (('"' :: tail) :: texts)) = some (some (start, left)) := by
        rw [List.cons_append] at hstart
        simp [nextMember, separator, joinTail, skipOws, hstart]
      rw [membersFrom_cons hnext, hbody]
      simp only [ih, Option.map_some]

theorem list_join {accepts : Text → Bool} {texts : List Text}
    {members : List Member}
    (h : List.Forall₂ (SpellsMember accepts) texts members) :
    list accepts (joinMembers texts) = some members := by
  cases h with
  | nil => exact membersFrom_end rfl
  | @cons text member texts members hspells hrest =>
      obtain ⟨start, left, hstart, hbody⟩ :=
        hspells.body _ (joinTail_endsMember texts)
      obtain ⟨tail, rfl⟩ := hspells.quoted
      have hnext : nextMember accepts true
          (joinMembers (('"' :: tail) :: texts)) =
            some (some (start, left)) := by
        rw [joinMembers_cons, List.cons_append]
        rw [List.cons_append] at hstart
        simp [nextMember, skipSp, hstart]
      rw [list, membersFrom_cons hnext, hbody]
      simp only [membersFrom_joinTail hrest, Option.map_some]

/-- A name with parameters that cannot be read is no list. -/
theorem list_string_none {accepts : Text → Bool} {raw text : Text}
    (hraw : Quotable raw) (htext : Stops text)
    (hnone : parameters accepts text = none) :
    list accepts ('"' :: raw ++ '"' :: text) = none := by
  have hspells := spells_string accepts hraw _ htext
  have hstart : memberStart accepts ('"' :: raw ++ '"' :: text) =
      some (.item (.string raw), text) := by
    simp only [List.cons_append, List.append_assoc, List.nil_append]
      at hspells ⊢
    simp [memberStart, hspells]
  have hnext : nextMember accepts true ('"' :: raw ++ '"' :: text) =
      some (some (.item (.string raw), text)) := by
    rw [List.cons_append] at hstart ⊢
    simp [nextMember, skipSp, hstart]
  rw [list, membersFrom_cons hnext, memberBody, hnone]
  rfl

/-! ## What is read -/

/-- What a value read from any text looks like. -/
def BareItem.Legal (accepts : Text → Bool) : BareItem → Prop
  | .integer n => n.natAbs < 10 ^ 15
  | .string raw => ∀ c ∈ raw, isPrintable c = true
  | .byteSequence raw =>
      (∀ c ∈ raw, isBase64Char c = true) ∧ accepts raw = true
  | _ => True

def Params.Legal (accepts : Text → Bool) (params : Params) : Prop :=
  ∀ param ∈ params, param.2.Legal accepts

def Member.Legal (accepts : Text → Bool) : Member → Prop
  | .item ⟨bare, params⟩ => bare.Legal accepts ∧ Params.Legal accepts params
  | .innerList _ params => Params.Legal accepts params

theorem ofDigitChars_lt {digits : Text}
    (h : ∀ c ∈ digits, Char.isDigit c = true) (init : ℕ) :
    Nat.ofDigitChars 10 digits init < 10 ^ digits.length * (init + 1) := by
  induction digits generalizing init with
  | nil => simp
  | cons c digits ih =>
      rw [List.forall_mem_cons] at h
      have hdigit : c.toNat - '0'.toNat ≤ 9 := by
        have hc := h.1
        simp only [Char.isDigit, Bool.and_eq_true, decide_eq_true_eq,
          UInt32.le_iff_toNat_le] at hc
        have hzero : '0'.toNat = 48 := rfl
        have hnine : '9'.val.toNat = 57 := rfl
        have hval : c.toNat = c.val.toNat := rfl
        omega
      rw [Nat.ofDigitChars_cons, List.length_cons, pow_succ, mul_assoc]
      refine (ih h.2 _).trans_le ?_
      gcongr
      omega

theorem natAbs_integerOf {negative : Bool} {digits : Text}
    (hdigits : ∀ c ∈ digits, Char.isDigit c = true)
    (hlength : digits.length ≤ 15) (accepts : Text → Bool) :
    (integerOf negative digits).Legal accepts := by
  have hlt := ofDigitChars_lt hdigits 0
  have hpow : 10 ^ digits.length ≤ 10 ^ 15 :=
    Nat.pow_le_pow_right (by decide) hlength
  have hbound : Nat.ofDigitChars 10 digits 0 < 10 ^ 15 := by
    rw [zero_add, mul_one] at hlt
    exact hlt.trans_le hpow
  change Int.natAbs (if negative then _ else _) < 10 ^ 15
  split_ifs
  · rwa [Int.natAbs_neg, Int.natAbs_natCast]
  · rwa [Int.natAbs_natCast]

theorem number_legal (accepts : Text → Bool) {negative : Bool}
    {text rest : Text} {bare : BareItem}
    (h : number negative text = some (bare, rest)) : bare.Legal accepts := by
  unfold number at h
  split at h
  next =>
    split_ifs at h
    simp only [Option.some.injEq, Prod.mk.injEq] at h
    obtain ⟨rfl, _⟩ := h
    trivial
  next =>
    split_ifs at h with hlengths
    simp only [Option.some.injEq, Prod.mk.injEq] at h
    obtain ⟨rfl, _⟩ := h
    exact natAbs_integerOf (fun c hc => List.mem_takeWhile_imp hc)
      hlengths.2 accepts

theorem stringBody_printable {text raw rest : Text}
    (h : stringBody text = some (raw, rest)) :
    ∀ c ∈ raw, isPrintable c = true := by
  fun_induction stringBody text generalizing raw with
  | case1 => simp at h
  | case2 text =>
      simp only [Option.some.injEq, Prod.mk.injEq] at h
      obtain ⟨rfl, _⟩ := h
      simp
  | case3 => simp at h
  | case4 escaped text hescaped _ ih =>
      obtain ⟨body, hbody, heq⟩ := Option.map_eq_some_iff.mp h
      simp only [Prod.mk.injEq] at heq
      obtain ⟨rfl, rfl⟩ := heq
      have hescapedPrintable : isPrintable escaped = true := by
        rcases hescaped with rfl | rfl <;> decide
      simp only [List.forall_mem_cons]
      exact ⟨by decide, hescapedPrintable, ih hbody⟩
  | case6 c text _ _ hprintable ih =>
      obtain ⟨body, hbody, heq⟩ := Option.map_eq_some_iff.mp h
      simp only [Prod.mk.injEq] at heq
      obtain ⟨rfl, rfl⟩ := heq
      exact List.forall_mem_cons.mpr ⟨hprintable, ih hbody⟩
  | case5 => simp at h
  | case7 => simp at h

theorem base64Body_legal {accepts : Text → Bool} {text raw rest : Text}
    (h : base64Body accepts text = some (raw, rest)) :
    (∀ c ∈ raw, isBase64Char c = true) ∧ accepts raw = true := by
  unfold base64Body at h
  split at h
  next left hleft =>
    split_ifs at h with haccepts
    simp only [Option.some.injEq, Prod.mk.injEq] at h
    obtain ⟨rfl, _⟩ := h
    exact ⟨List.all_eq_true.mp haccepts.1, haccepts.2⟩
  next => simp at h

theorem bareItem_legal {accepts : Text → Bool} {text rest : Text}
    {bare : BareItem} (h : bareItem accepts text = some (bare, rest)) :
    bare.Legal accepts := by
  rcases bareItem_cases h with
    hnumber | ⟨raw, body, _, rfl, hbody⟩ | ⟨raw, body, _, rfl, hbody⟩ |
      ⟨hother, _⟩
  · unfold signedNumber at hnumber
    split at hnumber <;> exact number_legal accepts hnumber
  · exact stringBody_printable hbody
  · exact base64Body_legal hbody
  · cases bare <;> trivial

theorem parameter_legal {accepts : Text → Bool} {text rest : Text}
    {param : Text × BareItem}
    (h : parameter accepts text = some (some param, rest)) :
    param.2.Legal accepts := by
  unfold parameter at h
  split at h
  next =>
    split at h
    next => simp at h
    next =>
      obtain ⟨value, hvalue, heq⟩ := Option.map_eq_some_iff.mp h
      simp only [Prod.mk.injEq, Option.some.injEq] at heq
      obtain ⟨rfl, _⟩ := heq
      exact bareItem_legal hvalue
    next =>
      simp only [Option.some.injEq, Prod.mk.injEq] at h
      obtain ⟨rfl, _⟩ := h
      trivial
  next => simp at h

theorem parameters_legal {accepts : Text → Bool} {text rest : Text}
    {params : Params} (h : parameters accepts text = some (params, rest)) :
    params.Legal accepts := by
  induction text using parameters.induct accepts generalizing params with
  | case1 text hnone => simp [parameters_none hnone] at h
  | case2 text left hend =>
      simp only [parameters_end hend, Option.some.injEq, Prod.mk.injEq] at h
      obtain ⟨rfl, _⟩ := h
      simp [Params.Legal]
  | case3 text param left hparam ih =>
      rw [parameters_cons hparam] at h
      obtain ⟨tail, htail, heq⟩ := Option.map_eq_some_iff.mp h
      simp only [Prod.mk.injEq] at heq
      obtain ⟨rfl, rfl⟩ := heq
      exact List.forall_mem_cons.mpr ⟨parameter_legal hparam, ih htail⟩

theorem memberBody_legal {accepts : Text → Bool} {start : Start}
    {text rest before left : Text} {member : Member}
    (hstart : memberStart accepts before = some (start, left))
    (h : memberBody accepts start text = some (member, rest)) :
    member.Legal accepts := by
  cases start with
  | item bare =>
      obtain ⟨params, hparams, heq⟩ := Option.map_eq_some_iff.mp h
      simp only [Prod.mk.injEq] at heq
      obtain ⟨rfl, _⟩ := heq
      refine ⟨?_, parameters_legal hparams⟩
      unfold memberStart at hstart
      split at hstart
      next => simp at hstart
      next =>
        obtain ⟨value, hvalue, heq⟩ := Option.map_eq_some_iff.mp hstart
        simp only [Prod.mk.injEq, Start.item.injEq] at heq
        obtain ⟨rfl, _⟩ := heq
        exact bareItem_legal hvalue
  | innerList =>
      simp only [memberBody] at h
      split at h
      next => simp at h
      next =>
        obtain ⟨params, hparams, heq⟩ := Option.map_eq_some_iff.mp h
        simp only [Prod.mk.injEq] at heq
        obtain ⟨rfl, _⟩ := heq
        exact parameters_legal hparams

theorem membersFrom_legal {accepts : Text → Bool} {first : Bool}
    {text : Text} {members : List Member}
    (h : membersFrom accepts first text = some members) :
    ∀ member ∈ members, member.Legal accepts := by
  induction first, text using membersFrom.induct accepts
    generalizing members with
  | case1 first text hnone => simp [membersFrom_none hnone] at h
  | case2 first text hend =>
      simp only [membersFrom_end hend, Option.some.injEq] at h
      simp [← h]
  | case3 first text start rest hmember hnone =>
      simp [membersFrom_cons hmember, hnone] at h
  | case4 first text start rest hmember member left hbody ih =>
      simp only [membersFrom_cons hmember, hbody] at h
      obtain ⟨tail, htail, rfl⟩ := Option.map_eq_some_iff.mp h
      obtain ⟨before, _, hstart⟩ := nextMember_start hmember
      exact List.forall_mem_cons.mpr ⟨memberBody_legal hstart hbody, ih htail⟩

end StructuredField
