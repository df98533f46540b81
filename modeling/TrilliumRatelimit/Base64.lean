import Mathlib.Data.List.GetD
import TrilliumRatelimit.StructuredField

/-!
# Standard base64

The encoding with padding, and the texts a strict decoder takes: groups of
four digits, padded at the end only, with no bit set that encodes nothing.
-/

namespace Base64

open StructuredField

def alphabet : Text :=
  "ABCDEFGHIJKLMNOPQRSTUVWXYZabcdefghijklmnopqrstuvwxyz0123456789+/".toList

def digit (n : ℕ) : Char := alphabet.getD (n % 64) 'A'

def isDigit (c : Char) : Bool := alphabet.contains c

/-- A digit whose bits below `step` are zero. -/
def isMultiple (step : ℕ) (c : Char) : Bool :=
  isDigit c && alphabet.idxOf c % step = 0

def encode : List UInt8 → Text
  | [] => []
  | [a] => [digit (a.toNat / 4), digit (a.toNat % 4 * 16), '=', '=']
  | [a, b] =>
      [digit (a.toNat / 4), digit (a.toNat % 4 * 16 + b.toNat / 16),
        digit (b.toNat % 16 * 4), '=']
  | a :: b :: c :: rest =>
      digit (a.toNat / 4) :: digit (a.toNat % 4 * 16 + b.toNat / 16) ::
        digit (b.toNat % 16 * 4 + c.toNat / 64) :: digit (c.toNat % 64) ::
        encode rest

def canonical : Text → Bool
  | [] => true
  | a :: b :: c :: d :: rest =>
      if d = '=' then
        isDigit a && decide (rest = []) &&
          if c = '=' then isMultiple 16 b
          else isDigit b && isMultiple 4 c
      else isDigit a && isDigit b && isDigit c && isDigit d && canonical rest
  | _ => false

theorem digit_mem (n : ℕ) : digit n ∈ alphabet := by
  have hlt : n % 64 < alphabet.length := Nat.mod_lt n (by decide)
  rw [digit, List.getD_eq_getElem _ _ hlt]
  exact List.getElem_mem hlt

theorem isDigit_digit (n : ℕ) : isDigit (digit n) = true :=
  List.contains_iff_mem.mpr (digit_mem n)

theorem digit_ne_pad (n : ℕ) : digit n ≠ '=' := by
  have h : '=' ∉ alphabet := by decide +kernel
  exact fun heq => h (heq ▸ digit_mem n)

theorem isBase64Char_digit (n : ℕ) : isBase64Char (digit n) = true := by
  have h : ∀ c ∈ alphabet, isBase64Char c = true :=
    List.all_eq_true.mp (by decide +kernel)
  exact h _ (digit_mem n)

theorem isMultiple_sixteen (n : ℕ) :
    isMultiple 16 (digit (n % 4 * 16)) = true := by
  have h : ∀ i : Fin 4, isMultiple 16 (digit (i * 16)) = true := by
    decide +kernel
  exact h ⟨n % 4, Nat.mod_lt n (by decide)⟩

theorem isMultiple_four (n : ℕ) :
    isMultiple 4 (digit (n % 16 * 4)) = true := by
  have h : ∀ i : Fin 16, isMultiple 4 (digit (i * 4)) = true := by
    decide +kernel
  exact h ⟨n % 16, Nat.mod_lt n (by decide)⟩

theorem canonical_encode (bytes : List UInt8) :
    canonical (encode bytes) = true := by
  induction bytes using encode.induct with
  | case1 => rfl
  | case2 a =>
      simp [encode, canonical, isDigit_digit, isMultiple_sixteen]
  | case3 a b =>
      simp [encode, canonical, isDigit_digit, isMultiple_four, digit_ne_pad]
  | case4 a b c rest ih =>
      simp [encode, canonical, isDigit_digit, digit_ne_pad, ih]

theorem isBase64Char_of_mem_encode (bytes : List UInt8) :
    ∀ c ∈ encode bytes, isBase64Char c = true := by
  have hpad : isBase64Char '=' = true := by decide
  induction bytes using encode.induct with
  | case1 => simp [encode]
  | case2 a => simp [encode, isBase64Char_digit, hpad]
  | case3 a b => simp [encode, isBase64Char_digit, hpad]
  | case4 a b c rest ih =>
      simp only [encode, List.forall_mem_cons, isBase64Char_digit, true_and]
      exact ih

end Base64
