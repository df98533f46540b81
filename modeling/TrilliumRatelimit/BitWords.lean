import Mathlib.Tactic

/-!
# Bit vectors cut into words

A bit vector is a run of words of equal width, and is determined by them.
Words are counted from the least significant end.
-/

namespace BitWords

variable {w : ℕ}

def word (w : ℕ) {width : ℕ} (x : BitVec width) (i : ℕ) : BitVec w :=
  x.extractLsb' (w * i) w

/-- Two adjacent ranges are one range. -/
theorem extract_append {width : ℕ} (x : BitVec width) (start low high : ℕ) :
    x.extractLsb' (start + low) high ++ x.extractLsb' start low =
      x.extractLsb' start (high + low) :=
  BitVec.extractLsb'_append_extractLsb'_eq_extractLsb' rfl

theorem extract_extract {width : ℕ} (x : BitVec width)
    {start len outer outerLen : ℕ} (h : start + len ≤ outerLen) :
    (x.extractLsb' outer outerLen).extractLsb' start len =
      x.extractLsb' (outer + start) len := by
  ext i hi
  have hlt : start + i < outerLen := by omega
  simp only [BitVec.getElem_extractLsb', BitVec.getLsbD_extractLsb', hlt,
    decide_true, Bool.true_and, Nat.add_assoc]

/-- A word of a range that starts at a word. -/
theorem word_extract {width : ℕ} (x : BitVec width) {skipped n i : ℕ}
    (hi : i < n) :
    word w (x.extractLsb' (w * skipped) (w * n)) i = word w x (skipped + i) := by
  have hend : w * i + w ≤ w * n := by
    rw [← Nat.mul_succ]
    exact Nat.mul_le_mul_left w hi
  rw [word, extract_extract x hend, word, Nat.mul_add]

theorem eq_of_words (hw : 0 < w) {n : ℕ} {x y : BitVec (w * n)}
    (h : ∀ i < n, word w x i = word w y i) : x = y := by
  apply BitVec.eq_of_getLsbD_eq
  intro k hk
  have hrest : k % w < w := Nat.mod_lt k hw
  have hword := congrArg (BitVec.getLsbD · (k % w))
    (h (k / w) (Nat.div_lt_of_lt_mul hk))
  simpa only [word, BitVec.getLsbD_extractLsb', hrest, decide_true,
    Bool.true_and, Nat.div_add_mod] using hword

theorem toNat_append_zeros {width : ℕ} (x : BitVec width) (m n : ℕ) :
    (x ++ 0#m ++ 0#n).toNat = (x ++ 0#(m + n)).toNat := by
  simp only [BitVec.toNat_append, BitVec.toNat_ofNat, Nat.zero_mod,
    Nat.or_zero, Nat.shiftLeft_add]

end BitWords
