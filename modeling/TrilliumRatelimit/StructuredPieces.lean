import TrilliumRatelimit.StructuredText

/-!
# What a parser reads

The grammar looks at most one character ahead.  So what was read from a text
is read as well where the text ends or goes on differently, as long as it goes
on with what may stand behind a member.
-/

namespace StructuredField

variable {α : Type*}

def isOws (c : Char) : Bool := c = ' ' || c = '\t'

/-- What may stand behind a member. -/
def isBoundary (c : Char) : Bool := c = ',' || isOws c

/-- The other text starts like the rest or with a boundary. -/
def Fits (other rest : Text) : Prop :=
  ∀ c ∈ other.head?, isBoundary c = true ∨ rest.head? = some c

/-- What was read is read before any text that fits. -/
def Portable (parse : Text → Option (α × Text)) : Prop :=
  ∀ {text value rest}, parse text = some (value, rest) →
    ∃ read, text = read ++ rest ∧
      ∀ other, Fits other rest → parse (read ++ other) = some (value, other)

theorem Fits.nil (rest : Text) : Fits [] rest := by simp [Fits]

theorem Fits.append {other rest : Text} (h : Fits other rest) (read : Text) :
    Fits (read ++ other) (read ++ rest) := by
  cases read with
  | nil => exact h
  | cons c read => exact fun _ hc => .inr hc

theorem Fits.head_ne {other rest : Text} {c : Char} (h : Fits other rest)
    (hboundary : isBoundary c = false) (hrest : rest.head? ≠ some c) :
    other.head? ≠ some c := by
  intro hc
  rcases h c hc with hb | hb
  · rw [hboundary] at hb
    simp at hb
  · exact hrest hb

/-- A run of characters ends where it ended. -/
theorem Fits.takeWhile {p : Char → Bool}
    (hboundary : ∀ c, isBoundary c = true → p c = false) {text other : Text}
    (h : Fits other (text.dropWhile p)) :
    (text.takeWhile p ++ other).takeWhile p = text.takeWhile p ∧
      (text.takeWhile p ++ other).dropWhile p = other := by
  have hall : ∀ c ∈ text.takeWhile p, p c = true :=
    fun c hc => List.mem_takeWhile_imp hc
  have hother : other.takeWhile p = [] ∧ other.dropWhile p = other := by
    cases other with
    | nil => exact ⟨rfl, rfl⟩
    | cons c other =>
        have hc : p c = false := by
          rcases h c rfl with hb | hb
          · exact hboundary c hb
          · have hnot := List.head?_dropWhile_not p text
            rw [hb] at hnot
            exact hnot
        simp [hc]
  rw [List.takeWhile_append_of_pos hall, List.dropWhile_append_of_pos hall,
    hother.1, hother.2, List.append_nil]
  exact ⟨rfl, rfl⟩

theorem isBoundary_iff {c : Char} :
    isBoundary c = true ↔ c = ',' ∨ c = ' ' ∨ c = '\t' := by
  simp [isBoundary, isOws]

/-- A parser that reads on keeps the first character it read. -/
theorem exists_read_cons {c : Char} {text read rest : Text}
    (heq : c :: text = read ++ rest) (hafter : After rest (c :: text)) :
    ∃ tail, read = c :: tail ∧ text = tail ++ rest := by
  cases read with
  | nil =>
      have hlt := hafter.length_lt
      rw [heq, List.nil_append] at hlt
      exact absurd hlt (lt_irrefl _)
  | cons b tail =>
      obtain ⟨rfl, htail⟩ := List.cons.inj heq
      exact ⟨tail, rfl, htail⟩

/-! ## Bare items -/

theorem number_of_point {text left : Text}
    (h : text.dropWhile Char.isDigit = '.' :: left) (negative : Bool) :
    number negative text =
      if text.takeWhile Char.isDigit ≠ [] ∧
          (text.takeWhile Char.isDigit).length ≤ 12 ∧
          left.takeWhile Char.isDigit ≠ [] ∧
          (left.takeWhile Char.isDigit).length ≤ 3
      then some (.decimal (text.takeWhile Char.isDigit ++
        '.' :: left.takeWhile Char.isDigit), left.dropWhile Char.isDigit)
      else none := by
  rw [number, h]
  rfl

theorem number_of_no_point {text : Text}
    (h : (text.dropWhile Char.isDigit).head? ≠ some '.') (negative : Bool) :
    number negative text =
      if text.takeWhile Char.isDigit ≠ [] ∧
          (text.takeWhile Char.isDigit).length ≤ 15
      then some (integerOf negative (text.takeWhile Char.isDigit),
        text.dropWhile Char.isDigit)
      else none := by
  unfold number
  split
  next left heq => simp [heq] at h
  next => rfl

theorem isDigit_boundary (c : Char) (h : isBoundary c = true) :
    c.isDigit = false := by
  rcases isBoundary_iff.mp h with rfl | rfl | rfl <;> decide

theorem number_portable (negative : Bool) : Portable (number negative) := by
  intro text bare rest h
  have htext := text.takeWhile_append_dropWhile (p := Char.isDigit)
  by_cases hpoint : (text.dropWhile Char.isDigit).head? = some '.'
  · obtain ⟨left, hleft⟩ := List.head?_eq_some_iff.mp hpoint
    rw [number_of_point hleft] at h
    split at h
    next hlengths =>
      simp only [Option.some.injEq, Prod.mk.injEq] at h
      obtain ⟨rfl, rfl⟩ := h
      refine ⟨text.takeWhile Char.isDigit ++
        '.' :: left.takeWhile Char.isDigit, ?_, fun other hother => ?_⟩
      · rw [List.append_assoc, List.cons_append,
          List.takeWhile_append_dropWhile, ← hleft, htext]
      · have hpoint : Fits ('.' :: (left.takeWhile Char.isDigit ++ other))
            (text.dropWhile Char.isDigit) := by
          rw [hleft]
          exact fun _ hc => .inr hc
        obtain ⟨hdigits, hmore⟩ := hpoint.takeWhile isDigit_boundary
        obtain ⟨hfraction, hend⟩ := hother.takeWhile isDigit_boundary
        rw [List.append_assoc, List.cons_append, number_of_point hmore,
          hdigits, hfraction, hend, if_pos hlengths]
    next => simp at h
  · rw [number_of_no_point hpoint] at h
    split at h
    next hlengths =>
      simp only [Option.some.injEq, Prod.mk.injEq] at h
      obtain ⟨rfl, rfl⟩ := h
      refine ⟨text.takeWhile Char.isDigit, htext.symm, fun other hother => ?_⟩
      obtain ⟨htake, hdrop⟩ := hother.takeWhile isDigit_boundary
      rw [number_of_no_point, htake, hdrop, if_pos hlengths]
      rw [hdrop]
      exact hother.head_ne (by decide) hpoint
    next => simp at h

theorem signedNumber_portable : Portable signedNumber := by
  intro text bare rest h
  have hafter := signedNumber_after h
  unfold signedNumber at h
  split at h
  next text =>
    obtain ⟨read, rfl, hread⟩ := number_portable true h
    exact ⟨'-' :: read, rfl, hread⟩
  next text hsign =>
    obtain ⟨read, rfl, hread⟩ := number_portable false h
    refine ⟨read, rfl, fun other hother => ?_⟩
    obtain ⟨c, tail, hcons⟩ : ∃ c tail, read = c :: tail := by
      cases read with
      | nil => exact absurd hafter.length_lt (lt_irrefl _)
      | cons c tail => exact ⟨c, tail, rfl⟩
    subst hcons
    have hc : c ≠ '-' := fun hc => hsign (tail ++ rest) (by rw [hc]; rfl)
    have hnumber := hread other hother
    unfold signedNumber
    split
    next heq => exact absurd (List.cons.inj heq).1 hc
    next => exact hnumber

theorem stringBody_quotable {text raw rest : Text}
    (h : stringBody text = some (raw, rest)) : Quotable raw := by
  intro other
  fun_induction stringBody text generalizing raw with
  | case1 => simp at h
  | case2 text =>
      simp only [Option.some.injEq, Prod.mk.injEq] at h
      obtain ⟨rfl, _⟩ := h
      exact stringBody_quote other
  | case3 => simp at h
  | case4 text escaped hescaped _ ih =>
      obtain ⟨body, hbody, heq⟩ := Option.map_eq_some_iff.mp h
      simp only [Prod.mk.injEq] at heq
      obtain ⟨rfl, rfl⟩ := heq
      rw [List.cons_append, List.cons_append, stringBody_escaped hescaped,
        ih hbody]
      rfl
  | case5 => simp at h
  | case6 c text hquote hbackslash hprintable ih =>
      obtain ⟨body, hbody, heq⟩ := Option.map_eq_some_iff.mp h
      simp only [Prod.mk.injEq] at heq
      obtain ⟨rfl, rfl⟩ := heq
      rw [List.cons_append, stringBody_plain hprintable hquote hbackslash,
        ih hbody]
      rfl
  | case7 => simp at h

theorem displayBody_quote (rest : Text) :
    displayBody ('"' :: rest) = some ([], [], rest) := by
  unfold displayBody
  simp

theorem displayBody_escaped {high low : Char} {highValue lowValue : ℕ}
    (hhigh : hexValue high = some highValue)
    (hlow : hexValue low = some lowValue) (rest : Text) :
    displayBody ('%' :: high :: low :: rest) =
      (displayBody rest).map fun body =>
        ('%' :: high :: low :: body.1,
          UInt8.ofNat (16 * highValue + lowValue) :: body.2.1, body.2.2) := by
  rw [displayBody]
  simp [hhigh, hlow]

theorem displayBody_plain {c : Char} (hprintable : isPrintable c = true)
    (hquote : c ≠ '"') (hpercent : c ≠ '%') (rest : Text) :
    displayBody (c :: rest) =
      (displayBody rest).map fun body =>
        (c :: body.1, UInt8.ofNat c.toNat :: body.2.1, body.2.2) := by
  rw [displayBody.eq_def]
  simp [hquote, hpercent, hprintable]

theorem displayBody_portable {text raw rest : Text} {bytes : List UInt8}
    (h : displayBody text = some (raw, bytes, rest)) :
    ∃ read, text = read ++ rest ∧ ∀ other,
      displayBody (read ++ other) = some (raw, bytes, other) := by
  fun_induction displayBody text generalizing raw bytes with
  | case1 => simp at h
  | case2 text =>
      simp only [Option.some.injEq, Prod.mk.injEq] at h
      obtain ⟨rfl, rfl, rfl⟩ := h
      exact ⟨['"'], rfl, displayBody_quote⟩
  | case3 high low text highValue lowValue hlow hhigh hquote ih =>
      obtain ⟨body, hbody, heq⟩ := Option.map_eq_some_iff.mp h
      simp only [Prod.mk.injEq] at heq
      obtain ⟨rfl, rfl, rfl⟩ := heq
      obtain ⟨read, hread, hother⟩ := ih hbody
      refine ⟨'%' :: high :: low :: read, by rw [hread]; rfl, fun other => ?_⟩
      simp only [List.cons_append, displayBody_escaped hhigh hlow, hother,
        Option.map_some]
  | case6 c text hquote hpercent hprintable ih =>
      obtain ⟨body, hbody, heq⟩ := Option.map_eq_some_iff.mp h
      simp only [Prod.mk.injEq] at heq
      obtain ⟨rfl, rfl, rfl⟩ := heq
      obtain ⟨read, hread, hother⟩ := ih hbody
      refine ⟨c :: read, by rw [hread]; rfl, fun other => ?_⟩
      rw [List.cons_append, displayBody_plain hprintable hquote hpercent,
        hother]
      rfl
  | case4 => simp at h
  | case5 => simp at h
  | case7 => simp at h

theorem isTokenChar_boundary (c : Char) (h : isBoundary c = true) :
    isTokenChar c = false := by
  rcases isBoundary_iff.mp h with rfl | rfl | rfl <;> decide

theorem bareItem_portable (accepts : Text → Bool) :
    Portable (bareItem accepts) := by
  intro text bare rest h
  cases text with
  | nil => simp [bareItem] at h
  | cons c text =>
      simp only [bareItem] at h
      split_ifs at h with hnumber hquote htoken hcolon hquestion hat hpercent
      · obtain ⟨read, heq, hread⟩ := signedNumber_portable h
        obtain ⟨tail, rfl, htail⟩ :=
          exists_read_cons heq (signedNumber_after h)
        refine ⟨c :: tail, heq, fun other hother => ?_⟩
        simp only [List.cons_append, bareItem, if_pos hnumber]
        exact hread other hother
      · obtain ⟨body, hbody, heq⟩ := Option.map_eq_some_iff.mp h
        simp only [Prod.mk.injEq] at heq
        obtain ⟨rfl, rfl⟩ := heq
        refine ⟨c :: (body.1 ++ ['"']), ?_, fun other _ => ?_⟩
        · simp [stringBody_eq hbody]
        · have hstring := stringBody_quotable hbody other
          simp only [List.cons_append, List.append_assoc, List.nil_append,
            bareItem, if_neg hnumber, if_pos hquote, hstring, Option.map_some]
      · simp only [Option.some.injEq, Prod.mk.injEq] at h
        obtain ⟨rfl, rfl⟩ := h
        refine ⟨c :: text.takeWhile isTokenChar, ?_, fun other hother => ?_⟩
        · rw [List.cons_append, List.takeWhile_append_dropWhile]
        · obtain ⟨htake, hdrop⟩ := hother.takeWhile isTokenChar_boundary
          simp only [List.cons_append, bareItem, if_neg hnumber,
            if_neg hquote, if_pos htoken, htake, hdrop]
      · obtain ⟨body, hbody, heq⟩ := Option.map_eq_some_iff.mp h
        simp only [Prod.mk.injEq] at heq
        obtain ⟨rfl, rfl⟩ := heq
        obtain ⟨hchars, haccepts⟩ := base64Body_legal hbody
        refine ⟨c :: (body.1 ++ [':']), ?_, fun other _ => ?_⟩
        · simp [base64Body_eq hbody]
        · have hbase := base64Body_append hchars haccepts other
          simp only [List.cons_append, List.append_assoc, List.nil_append,
            bareItem, if_neg hnumber, if_neg hquote, if_neg htoken,
            if_pos hcolon, hbase, Option.map_some]
      · have hboolean (digit : Char) (value : Bool) (left : Text)
            (hvalue : ∀ other, bareItem accepts (c :: digit :: other) =
              some (.boolean value, other)) :
            ∃ read, c :: digit :: left = read ++ left ∧ ∀ other,
              Fits other left → bareItem accepts (read ++ other) =
                some (.boolean value, other) :=
          ⟨[c, digit], rfl, fun other _ => hvalue other⟩
        split at h
        all_goals
          simp only [Option.some.injEq, Prod.mk.injEq, reduceCtorEq] at h
        all_goals
          obtain ⟨rfl, rfl⟩ := h
          refine hboolean _ _ _ fun other => ?_
          simp only [bareItem, if_neg hnumber, if_neg hquote, if_neg htoken,
            if_neg hcolon, if_pos hquestion]
      · split at h
        next seconds left hseconds =>
          simp only [Option.some.injEq, Prod.mk.injEq] at h
          obtain ⟨rfl, rfl⟩ := h
          obtain ⟨read, rfl, hread⟩ := signedNumber_portable hseconds
          refine ⟨c :: read, rfl, fun other hother => ?_⟩
          simp only [List.cons_append, bareItem, if_neg hnumber,
            if_neg hquote, if_neg htoken, if_neg hcolon, if_neg hquestion,
            if_pos hat, hread other hother]
        next => simp at h
      · split at h
        next body =>
          split at h
          next raw bytes left hbody =>
            split_ifs at h with hvalid
            simp only [Option.some.injEq, Prod.mk.injEq] at h
            obtain ⟨rfl, rfl⟩ := h
            obtain ⟨read, rfl, hread⟩ := displayBody_portable hbody
            refine ⟨c :: '"' :: read, rfl, fun other _ => ?_⟩
            simp only [List.cons_append, bareItem, if_neg hnumber,
              if_neg hquote, if_neg htoken, if_neg hcolon, if_neg hquestion,
              if_neg hat, if_pos hpercent, hread, hvalid, if_true]
          next => simp at h
        next => simp at h

/-! ## Parameters -/

theorem isKeyChar_boundary (c : Char) (h : isBoundary c = true) :
    isKeyChar c = false := by
  rcases isBoundary_iff.mp h with rfl | rfl | rfl <;> decide

theorem keyOf_portable {text left : Text} {c : Char} {key : Text}
    (h : keyOf text = (c :: key, left)) :
    text = c :: key ++ left ∧ c ≠ ' ' ∧
      ∀ other, Fits other left →
        keyOf (c :: key ++ other) = (c :: key, other) := by
  cases text with
  | nil => simp [keyOf] at h
  | cons b text =>
      rw [keyOf] at h
      split at h
      next hstart =>
        simp only [Prod.mk.injEq, List.cons.injEq] at h
        obtain ⟨⟨rfl, rfl⟩, rfl⟩ := h
        refine ⟨?_, ?_, fun other hother => ?_⟩
        · rw [List.cons_append, List.takeWhile_append_dropWhile]
        · rintro rfl
          exact absurd hstart (by decide)
        · obtain ⟨htake, hdrop⟩ := hother.takeWhile isKeyChar_boundary
          rw [List.cons_append, keyOf, if_pos hstart, htake, hdrop]
      next => simp at h

theorem skipSp_portable {c : Char} (hc : c ≠ ' ') {text left : Text}
    (h : skipSp text = c :: left) :
    ∃ blank, text = blank ++ c :: left ∧
      ∀ other, skipSp (blank ++ c :: other) = c :: other := by
  refine ⟨text.takeWhile fun c => c = ' ', ?_, fun other => ?_⟩
  · rw [← h, skipSp, List.takeWhile_append_dropWhile]
  · have hblank : ∀ b ∈ text.takeWhile fun c => c = ' ',
        decide (b = ' ') = true := by
      intro b hb
      simpa using List.mem_takeWhile_imp hb
    rw [skipSp, List.dropWhile_append_of_pos hblank]
    simp [hc]

theorem parameter_value {text left : Text} {c : Char} {key : Text}
    (h : keyOf (skipSp text) = (c :: key, '=' :: left))
    (accepts : Text → Bool) :
    parameter accepts (';' :: text) =
      (bareItem accepts left).map fun value =>
        (some (c :: key, value.1), value.2) := by
  rw [parameter, h]
  rfl

theorem parameter_flag {text left : Text} {c : Char} {key : Text}
    (h : keyOf (skipSp text) = (c :: key, left)) (hleft : left.head? ≠ some '=')
    (accepts : Text → Bool) :
    parameter accepts (';' :: text) =
      some (some (c :: key, .boolean true), left) := by
  rw [parameter, h]
  split
  next heq => simp at heq
  next heq =>
    rw [(Prod.mk.inj heq).2] at hleft
    simp at hleft
  next heq => rw [(Prod.mk.inj heq).1, (Prod.mk.inj heq).2]

theorem parameter_portable (accepts : Text → Bool) :
    Portable (parameter accepts) := by
  intro text param rest h
  unfold parameter at h
  split at h
  next text =>
    split at h
    next => simp at h
    next key left hnil hkey =>
      obtain ⟨c, key, rfl⟩ := List.exists_cons_of_ne_nil hnil
      obtain ⟨value, hvalue, heq⟩ := Option.map_eq_some_iff.mp h
      simp only [Prod.mk.injEq] at heq
      obtain ⟨rfl, rfl⟩ := heq
      obtain ⟨hskip, hc, hkeyOf⟩ := keyOf_portable hkey
      obtain ⟨blank, rfl, hblank⟩ := skipSp_portable hc hskip
      obtain ⟨read, rfl, hread⟩ := bareItem_portable accepts hvalue
      refine ⟨';' :: (blank ++ (c :: key ++ '=' :: read)), by simp,
        fun other hother => ?_⟩
      have hother' := hkeyOf ('=' :: (read ++ other))
        (hother.append ('=' :: read))
      rw [List.cons_append, ← hblank] at hother'
      have hparam := parameter_value hother' accepts
      rw [hread other hother] at hparam
      simpa using hparam
    next key left hnil hflag hkey =>
      obtain ⟨c, key, rfl⟩ := List.exists_cons_of_ne_nil hnil
      simp only [Option.some.injEq, Prod.mk.injEq] at h
      obtain ⟨rfl, rfl⟩ := h
      obtain ⟨hskip, hc, hkeyOf⟩ := keyOf_portable hkey
      obtain ⟨blank, rfl, hblank⟩ := skipSp_portable hc hskip
      refine ⟨';' :: (blank ++ c :: key), by simp, fun other hother => ?_⟩
      have hother' := hkeyOf other hother
      rw [List.cons_append, ← hblank] at hother'
      have hhead : other.head? ≠ some '=' :=
        hother.head_ne (by decide) fun hc => by
          obtain ⟨tail, htail⟩ := List.head?_eq_some_iff.mp hc
          exact hflag tail htail
      have hparam := parameter_flag hother' hhead accepts
      simpa using hparam
  next hsemicolon =>
    simp only [Option.some.injEq, Prod.mk.injEq] at h
    obtain ⟨rfl, rfl⟩ := h
    refine ⟨[], rfl, fun other hother => ?_⟩
    have hhead : other.head? ≠ some ';' :=
      hother.head_ne (by decide) fun hc => by
        obtain ⟨left, hleft⟩ := List.head?_eq_some_iff.mp hc
        exact hsemicolon left hleft
    rw [List.nil_append, parameter.eq_def]
    split
    next left => simp at hhead
    next => rfl

theorem parameters_portable (accepts : Text → Bool) :
    Portable (parameters accepts) := by
  intro text params rest h
  induction text using parameters.induct accepts generalizing params with
  | case1 text hnone => simp [parameters_none hnone] at h
  | case2 text left hend =>
      simp only [parameters_end hend, Option.some.injEq, Prod.mk.injEq] at h
      obtain ⟨rfl, rfl⟩ := h
      obtain ⟨read, heq, hread⟩ := parameter_portable accepts hend
      exact ⟨read, heq, fun other hother =>
        parameters_end (hread other hother)⟩
  | case3 text param left hparam ih =>
      rw [parameters_cons hparam] at h
      obtain ⟨tail, htail, heq⟩ := Option.map_eq_some_iff.mp h
      simp only [Prod.mk.injEq] at heq
      obtain ⟨rfl, rfl⟩ := heq
      obtain ⟨first, rfl, hfirst⟩ := parameter_portable accepts hparam
      obtain ⟨read, rfl, hread⟩ := ih htail
      refine ⟨first ++ read, by simp, fun other hother => ?_⟩
      rw [List.append_assoc,
        parameters_cons (hfirst _ (hother.append read)), hread other hother]
      rfl

/-! ## Members -/

theorem skipSp_head_ne {text left : Text} {c : Char}
    (h : skipSp text = c :: left) : c ≠ ' ' := by
  have hnot := List.head?_dropWhile_not (fun c => decide (c = ' ')) text
  rw [← skipSp, h] at hnot
  simpa using hnot

theorem head?_append_cons (blank : Text) (c : Char) (text other : Text) :
    (blank ++ c :: text).head? = (blank ++ c :: other).head? := by
  cases blank <;> rfl

theorem innerStep_portable (accepts : Text → Bool) (first : Bool) :
    Portable (innerStep accepts first) := by
  intro text bare rest h
  unfold innerStep at h
  split at h
  next => simp at h
  next hhead =>
    split at h
    next left hleft =>
      simp only [Option.some.injEq, Prod.mk.injEq] at h
      obtain ⟨rfl, rfl⟩ := h
      obtain ⟨blank, rfl, hblank⟩ := skipSp_portable (by decide) hleft
      refine ⟨blank ++ [')'], by simp, fun other _ => ?_⟩
      rw [List.append_assoc, List.singleton_append, innerStep,
        head?_append_cons blank ')' other left, if_neg hhead, hblank]
      rfl
    next left hclose =>
      obtain ⟨value, hvalue, heq⟩ := Option.map_eq_some_iff.mp h
      simp only [Prod.mk.injEq] at heq
      obtain ⟨rfl, rfl⟩ := heq
      obtain ⟨read, hread, hother⟩ := bareItem_portable accepts hvalue
      obtain ⟨c, tail, hcons⟩ : ∃ c tail, skipSp text = c :: tail := by
        obtain ⟨c, tail, hcons⟩ := bareItem_after hvalue
        exact ⟨c, _, hcons⟩
      obtain ⟨blank, rfl, hblank⟩ :=
        skipSp_portable (skipSp_head_ne hcons) hcons
      have hafter := bareItem_after hvalue
      rw [hcons] at hread hclose hafter
      obtain ⟨read, rfl, rfl⟩ := exists_read_cons hread hafter
      have hc : c ≠ ')' := fun hc => hclose (read ++ value.2) (by rw [hc])
      refine ⟨blank ++ c :: read, by simp, fun other hfits => ?_⟩
      rw [List.append_assoc, List.cons_append, innerStep,
        head?_append_cons blank c _ (read ++ value.2), if_neg hhead, hblank]
      have hbare := hother other hfits
      rw [List.cons_append] at hbare
      split
      next heq => exact absurd (List.cons.inj heq).1 hc
      next => rw [hbare]; rfl

theorem innerItems_portable (accepts : Text → Bool) (first : Bool) :
    Portable (innerItems accepts first) := by
  intro text items rest h
  induction first, text using innerItems.induct accepts
    generalizing items with
  | case1 first text hnone => simp [innerItems_none hnone] at h
  | case2 first text left hend =>
      simp only [innerItems_end hend, Option.some.injEq, Prod.mk.injEq] at h
      obtain ⟨rfl, rfl⟩ := h
      obtain ⟨read, heq, hread⟩ := innerStep_portable accepts first hend
      exact ⟨read, heq, fun other hother =>
        innerItems_end (hread other hother)⟩
  | case3 first text bare left hstep hnone =>
      simp [innerItems_cons hstep, hnone] at h
  | case4 first text bare left hstep params middle hparams ih =>
      simp only [innerItems_cons hstep, hparams] at h
      obtain ⟨tail, htail, heq⟩ := Option.map_eq_some_iff.mp h
      simp only [Prod.mk.injEq] at heq
      obtain ⟨rfl, rfl⟩ := heq
      obtain ⟨item, rfl, hitem⟩ := innerStep_portable accepts first hstep
      obtain ⟨spelled, rfl, hspelled⟩ := parameters_portable accepts hparams
      obtain ⟨read, rfl, hread⟩ := ih htail
      refine ⟨item ++ (spelled ++ read), by simp, fun other hother => ?_⟩
      have hmore := hother.append read
      rw [List.append_assoc, List.append_assoc,
        innerItems_cons (hitem _ (hmore.append spelled)),
        hspelled _ hmore]
      simp only [hread other hother, Option.map_some]

theorem memberStart_portable (accepts : Text → Bool) :
    Portable (memberStart accepts) := by
  intro text start rest h
  unfold memberStart at h
  split at h
  next text =>
    simp only [Option.some.injEq, Prod.mk.injEq] at h
    obtain ⟨rfl, rfl⟩ := h
    exact ⟨['('], rfl, fun other _ => rfl⟩
  next hopen =>
    obtain ⟨value, hvalue, heq⟩ := Option.map_eq_some_iff.mp h
    simp only [Prod.mk.injEq] at heq
    obtain ⟨rfl, rfl⟩ := heq
    obtain ⟨c, tail, hcons⟩ := bareItem_after hvalue
    obtain ⟨read, hread, hother⟩ := bareItem_portable accepts hvalue
    subst hcons
    obtain ⟨tail, rfl, htail⟩ := exists_read_cons hread (bareItem_after hvalue)
    have hc : c ≠ '(' := fun hc => hopen _ (by rw [hc])
    refine ⟨c :: tail, hread, fun other hfits => ?_⟩
    have hbare := hother other hfits
    unfold memberStart
    split
    next heq => exact absurd (List.cons.inj heq).1 hc
    next => rw [hbare]; rfl

theorem memberBody_portable (accepts : Text → Bool) (start : Start) :
    Portable (memberBody accepts start) := by
  intro text member rest h
  cases start with
  | item bare =>
      obtain ⟨params, hparams, heq⟩ := Option.map_eq_some_iff.mp h
      simp only [Prod.mk.injEq] at heq
      obtain ⟨rfl, rfl⟩ := heq
      obtain ⟨read, heq, hread⟩ := parameters_portable accepts hparams
      exact ⟨read, heq, fun other hother => by
        rw [memberBody, hread other hother]; rfl⟩
  | innerList =>
      simp only [memberBody] at h
      split at h
      next => simp at h
      next items middle hitems =>
        obtain ⟨params, hparams, heq⟩ := Option.map_eq_some_iff.mp h
        simp only [Prod.mk.injEq] at heq
        obtain ⟨rfl, rfl⟩ := heq
        obtain ⟨inner, rfl, hinner⟩ := innerItems_portable accepts true hitems
        obtain ⟨read, rfl, hread⟩ := parameters_portable accepts hparams
        refine ⟨inner ++ read, by simp, fun other hother => ?_⟩
        rw [List.append_assoc, memberBody, hinner _ (hother.append read)]
        simp only [hread other hother, Option.map_some]

/-- A whole member. -/
def memberOf (accepts : Text → Bool) (text : Text) : Option (Member × Text) :=
  (memberStart accepts text).bind fun start =>
    memberBody accepts start.1 start.2

theorem memberOf_portable (accepts : Text → Bool) :
    Portable (memberOf accepts) := by
  intro text member rest h
  obtain ⟨⟨start, left⟩, hstart, hbody⟩ := Option.bind_eq_some_iff.mp h
  obtain ⟨opening, rfl, hopening⟩ := memberStart_portable accepts hstart
  obtain ⟨read, rfl, hread⟩ := memberBody_portable accepts start hbody
  refine ⟨opening ++ read, by simp, fun other hother => ?_⟩
  rw [List.append_assoc, memberOf, hopening _ (hother.append read),
    Option.bind_some]
  exact hread other hother

end StructuredField
