import Mathlib.Data.List.DropRight
import TrilliumRatelimit.StructuredField

/-!
# The `Retry-After` field

A delta-seconds value is read by trimming the text and parsing what is left as
a `u64`.  Both come from the standard library: white space is what Unicode
says it is, and an integer may carry a plus sign.

`DeltaSeconds` says without the two functions which texts carry which number.
-/

namespace TrilliumRatelimit

open StructuredField

/-- `char::is_whitespace`. -/
def isWhitespace (c : Char) : Bool :=
  (9 ≤ c.toNat && c.toNat ≤ 13) || (0x2000 ≤ c.toNat && c.toNat ≤ 0x200A) ||
    [0x20, 0x85, 0xA0, 0x1680, 0x2028, 0x2029, 0x202F, 0x205F, 0x3000].contains
      c.toNat

/-- `str::trim`. -/
def trim (text : Text) : Text :=
  (text.dropWhile isWhitespace).rdropWhile isWhitespace

def withoutSign : Text → Text
  | '+' :: rest => rest
  | text => text

/-- `str::parse::<u64>`; `none` is its error. -/
def parseU64 (text : Text) : Option UInt64 :=
  let digits := withoutSign text
  if h : (digits ≠ [] ∧ digits.all Char.isDigit = true) ∧
      Nat.ofDigitChars 10 digits 0 < 2 ^ 64
  then some (UInt64.ofNatLT (Nat.ofDigitChars 10 digits 0) h.2) else none

/-- The text is a number of seconds, maybe signed, between white space. -/
def DeltaSeconds (text : Text) (secs : UInt64) : Prop :=
  ∃ before sign digits after : Text,
    text = before ++ (sign ++ digits) ++ after ∧
    (∀ c ∈ before, isWhitespace c = true) ∧
    (∀ c ∈ after, isWhitespace c = true) ∧
    (sign = [] ∨ sign = ['+']) ∧
    digits ≠ [] ∧ (∀ c ∈ digits, c.isDigit = true) ∧
    Nat.ofDigitChars 10 digits 0 = secs.toNat

theorem exists_eq_trim (text : Text) :
    ∃ before after, text = before ++ trim text ++ after ∧
      (∀ c ∈ before, isWhitespace c = true) ∧
      ∀ c ∈ after, isWhitespace c = true := by
  refine ⟨text.takeWhile isWhitespace,
    (text.dropWhile isWhitespace).rtakeWhile isWhitespace, ?_, ?_, ?_⟩
  · rw [List.append_assoc, trim, List.rdropWhile_append_rtakeWhile,
      List.takeWhile_append_dropWhile]
  · intro c hc
    exact List.mem_takeWhile_imp hc
  · intro c hc
    exact List.mem_rtakeWhile_imp hc

/-- Nothing is trimmed off a text with no white space. -/
theorem trim_append {before text after : Text}
    (hbefore : ∀ c ∈ before, isWhitespace c = true)
    (hafter : ∀ c ∈ after, isWhitespace c = true)
    (htext : ∀ c ∈ text, isWhitespace c = false) :
    trim (before ++ text ++ after) = text := by
  have hdrop (more : Text) : (more ++ after).rdropWhile isWhitespace =
      more.rdropWhile isWhitespace := by
    rw [List.rdropWhile, List.reverse_append,
      List.dropWhile_append_of_pos (by simpa using hafter), List.rdropWhile]
  rw [trim, List.append_assoc, List.dropWhile_append_of_pos hbefore]
  cases text with
  | nil =>
      rw [List.nil_append, List.dropWhile_eq_nil_iff.mpr hafter]
      rfl
  | cons c rest =>
      have hc : ¬ isWhitespace c = true := by
        rw [htext c List.mem_cons_self]
        decide
      rw [List.cons_append, List.dropWhile_cons_of_neg hc,
        ← List.cons_append, hdrop, List.rdropWhile_eq_self_iff]
      intro hne
      rw [htext _ (List.getLast_mem hne)]
      decide

theorem isWhitespace_of_isDigit {c : Char} (h : c.isDigit = true) :
    isWhitespace c = false := by
  simp only [Char.isDigit, Bool.and_eq_true, decide_eq_true_eq,
    UInt32.le_iff_toNat_le] at h
  have hlow : 48 ≤ c.toNat := h.1
  have hhigh : c.toNat ≤ 57 := h.2
  simp only [isWhitespace, List.contains_cons, List.contains_nil,
    Bool.or_eq_false_iff, Bool.and_eq_false_iff, decide_eq_false_iff_not,
    beq_eq_false_iff_ne, and_true]
  omega

theorem exists_eq_withoutSign (text : Text) :
    ∃ sign, text = sign ++ withoutSign text ∧ (sign = [] ∨ sign = ['+']) := by
  unfold withoutSign
  split
  next => exact ⟨['+'], rfl, .inr rfl⟩
  next => exact ⟨[], rfl, .inl rfl⟩

theorem withoutSign_append {sign digits : Text}
    (hsign : sign = [] ∨ sign = ['+'])
    (hdigits : ∀ c ∈ digits, c.isDigit = true) :
    withoutSign (sign ++ digits) = digits := by
  rcases hsign with rfl | rfl
  · rw [List.nil_append]
    unfold withoutSign
    split
    next => exact absurd (hdigits '+' List.mem_cons_self) (by decide)
    next => rfl
  · rfl

theorem parseU64_eq_some_iff {text : Text} {secs : UInt64} :
    parseU64 text = some secs ↔
      ∃ sign digits : Text, text = sign ++ digits ∧
        (sign = [] ∨ sign = ['+']) ∧
        digits ≠ [] ∧ (∀ c ∈ digits, c.isDigit = true) ∧
        Nat.ofDigitChars 10 digits 0 = secs.toNat := by
  constructor
  · intro h
    unfold parseU64 at h
    simp only at h
    split_ifs at h with hdigits
    rw [Option.some.injEq] at h
    have hsecs := congrArg UInt64.toNat h
    rw [UInt64.toNat_ofNatLT] at hsecs
    obtain ⟨⟨hne, hall⟩, _⟩ := hdigits
    obtain ⟨sign, htext, hsign⟩ := exists_eq_withoutSign text
    exact ⟨sign, withoutSign text, htext, hsign, hne,
      List.all_eq_true.mp hall, hsecs⟩
  · rintro ⟨sign, digits, rfl, hsign, hne, hall, hsecs⟩
    have hrange : (digits ≠ [] ∧ digits.all Char.isDigit = true) ∧
        Nat.ofDigitChars 10 digits 0 < 2 ^ 64 :=
      ⟨⟨hne, List.all_eq_true.mpr hall⟩, hsecs ▸ secs.toNat_lt⟩
    unfold parseU64
    simp only [withoutSign_append hsign hall]
    rw [dif_pos hrange, Option.some.injEq, ← UInt64.toNat_inj,
      UInt64.toNat_ofNatLT, hsecs]

theorem parseU64_trim_eq_some_iff {text : Text} {secs : UInt64} :
    parseU64 (trim text) = some secs ↔ DeltaSeconds text secs := by
  rw [parseU64_eq_some_iff]
  constructor
  · rintro ⟨sign, digits, htrim, hnumber⟩
    obtain ⟨before, after, htext, hbefore, hafter⟩ := exists_eq_trim text
    rw [htrim] at htext
    exact ⟨before, sign, digits, after, htext, hbefore, hafter, hnumber⟩
  · rintro ⟨before, sign, digits, after, rfl, hbefore, hafter, hnumber⟩
    refine ⟨sign, digits, trim_append hbefore hafter ?_, hnumber⟩
    obtain ⟨hsign, _, hdigits, _⟩ := hnumber
    intro c hc
    rcases List.mem_append.mp hc with hc | hc
    · rcases hsign with rfl | rfl
      · simp at hc
      · rw [List.mem_singleton.mp hc]
        decide
    · exact isWhitespace_of_isDigit (hdigits c hc)

end TrilliumRatelimit
