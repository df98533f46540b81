import TrilliumRatelimit.Clock
import TrilliumRatelimit.FieldList

/-!
# The `RateLimit` field

Service limits, and how one is read from and written to one item of the field.
-/

namespace TrilliumRatelimit

open StructuredField

@[ext] structure RateLimit where
  name : Text
  remaining : UInt64
  reset : Option Duration
  partitionKey : Option Text
  deriving DecidableEq

def RateLimit.new (name : Text) (remaining : UInt64) : RateLimit where
  name := name
  remaining := remaining
  reset := none
  partitionKey := none

def RateLimit.withReset (self : RateLimit) (reset : Duration) : RateLimit :=
  { self with reset := some reset }

def RateLimit.withPartitionKey (self : RateLimit) (partitionKey : Text) :
    RateLimit :=
  { self with partitionKey := some partitionKey }

/-- The local variables of the parameter loop. -/
structure LimitFields where
  remaining : Option UInt64
  reset : Option Duration
  partitionKey : Option Text

/-- The source matches key and value at once; no key takes two types. -/
def limitParam (input : Text) (fields : LimitFields) (key : Text)
    (value : SfValue) : Option LimitFields :=
  match value with
  | .integer value =>
      if key = "r".toList ∧ 0 ≤ value then
        some { fields with remaining := some value.toUInt64 }
      else if key = "t".toList ∧ 0 ≤ value then
        some { fields with reset := some (Duration.fromSecs value.toUInt64) }
      else some fields
  | .byteSeq range =>
      if key = "pk".toList then
        (slice input range).map fun partitionKey =>
          { fields with partitionKey := some partitionKey }
      else some fields
  | _ => some fields

def limitFormat : ItemFormat RateLimit LimitFields where
  fields := ⟨none, none, none⟩
  param := limitParam
  finish name fields := fields.remaining.map fun remaining =>
    ⟨name, remaining, fields.reset, fields.partitionKey⟩

def RateLimit.parseList (sf : SfParser) (input : Text) :
    Except Fault (List RateLimit) :=
  parseListWith sf limitFormat input

def RateLimit.fromHeaders (sf : SfParser) (lines : List (Option Text)) :
    Except Fault (List RateLimit) :=
  fromLines (RateLimit.parseList sf) lines

/-- The `Display` of a service limit. -/
def RateLimit.display (self : RateLimit) : Text :=
  writeSfString self.name ++
  ";r=".toList ++ decimalText self.remaining ++
  (match self.reset with
    | none => []
    | some reset => ";t=".toList ++ decimalText reset.asSecs) ++
  match self.partitionKey with
    | none => []
    | some partitionKey => ";pk=:".toList ++ partitionKey ++ [':']

/-! ## What a service limit is read from -/

def LimitFields.set (fields : LimitFields) (key : Text) (bare : BareItem) :
    LimitFields :=
  match bare with
  | .integer n =>
      if key = "r".toList ∧ 0 ≤ n then
        { fields with remaining := some (readCount n) }
      else if key = "t".toList ∧ 0 ≤ n then
        { fields with reset := some (Duration.fromSecs (readCount n)) }
      else fields
  | .byteSequence raw =>
      if key = "pk".toList then { fields with partitionKey := some raw }
      else fields
  | _ => fields

theorem LimitFields.set_remaining (fields : LimitFields) {key : Text} {n : ℤ}
    (hkey : key = "r".toList) (h : 0 ≤ n) :
    fields.set key (.integer n) =
      { fields with remaining := some (readCount n) } :=
  if_pos ⟨hkey, h⟩

theorem LimitFields.set_reset (fields : LimitFields) {key : Text} {n : ℤ}
    (hkey : key = "t".toList) (h : 0 ≤ n) :
    fields.set key (.integer n) =
      { fields with reset := some (Duration.fromSecs (readCount n)) } := by
  have hne : key ≠ "r".toList := by
    rw [hkey]
    decide
  exact (if_neg fun h => hne h.1).trans (if_pos ⟨hkey, h⟩)

theorem LimitFields.set_partitionKey (fields : LimitFields) {key : Text}
    (hkey : key = "pk".toList) (raw : Text) :
    fields.set key (.byteSequence raw) =
      { fields with partitionKey := some raw } :=
  if_pos hkey

theorem limitParam_eq {input : Text} {value : SfValue} {bare : BareItem}
    (h : Denotes input value bare) (fields : LimitFields) (key : Text) :
    limitParam input fields key value = some (fields.set key bare) := by
  cases value with
  | integer value =>
      cases bare with
      | integer n =>
          obtain rfl : value.toInt = n := h
          simp only [limitParam, LimitFields.set, ← Int64.toInt_zero,
            ← Int64.le_iff_toInt_le]
          split_ifs with hr ht
          · rw [toUInt64_eq_readCount hr.2]
          · rw [toUInt64_eq_readCount ht.2]
          · rfl
      | _ => exact absurd h id
  | byteSeq range =>
      cases bare with
      | byteSequence raw =>
          simp only [limitParam, LimitFields.set, Delimits.slice_eq h,
            Option.map_some]
          split_ifs <;> rfl
      | _ => exact absurd h id
  | _ => cases bare <;> first | exact absurd h id | rfl

def limitReading : limitFormat.Reading where
  set := LimitFields.set
  param_eq := limitParam_eq

end TrilliumRatelimit
