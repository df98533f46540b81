import TrilliumRatelimit.Clock
import TrilliumRatelimit.FieldList

/-!
# The `RateLimit-Policy` field

Quota units, policies, and how a policy is read from and written to one item
of the field.
-/

namespace TrilliumRatelimit

open StructuredField

inductive QuotaUnit where
  | requests
  | contentBytes
  | concurrentRequests
  | other (token : Text)
  deriving DecidableEq

def QuotaUnit.asStr : QuotaUnit → Text
  | .requests => "requests".toList
  | .contentBytes => "content-bytes".toList
  | .concurrentRequests => "concurrent-requests".toList
  | .other token => token

def QuotaUnit.fromCow (value : Text) : QuotaUnit :=
  if value = "requests".toList then .requests
  else if value = "content-bytes".toList then .contentBytes
  else if value = "concurrent-requests".toList then .concurrentRequests
  else .other value

@[ext] structure RateLimitPolicy where
  name : Text
  quota : UInt64
  unit : QuotaUnit
  window : Option Duration
  partitionKey : Option Text
  deriving DecidableEq

def RateLimitPolicy.new (name : Text) (quota : UInt64) : RateLimitPolicy where
  name := name
  quota := quota
  unit := .requests
  window := none
  partitionKey := none

def RateLimitPolicy.withWindow (self : RateLimitPolicy) (window : Duration) :
    RateLimitPolicy :=
  { self with window := some window }

def RateLimitPolicy.withPartitionKey (self : RateLimitPolicy)
    (partitionKey : Text) : RateLimitPolicy :=
  { self with partitionKey := some partitionKey }

/-- The local variables of the parameter loop. -/
structure PolicyFields where
  quota : Option UInt64
  unit : QuotaUnit
  window : Option Duration
  partitionKey : Option Text

/-- The source matches key and value at once; no key takes two types. -/
def policyParam (input : Text) (fields : PolicyFields) (key : Text)
    (value : SfValue) : Option PolicyFields :=
  match value with
  | .integer value =>
      if key = "q".toList ∧ 0 ≤ value then
        some { fields with quota := some value.toUInt64 }
      else if key = "w".toList ∧ 0 < value then
        some { fields with window := some (Duration.fromSecs value.toUInt64) }
      else some fields
  | .string range escape =>
      if key = "qu".toList then
        (stringValue input range escape).map fun unit =>
          { fields with unit := QuotaUnit.fromCow unit }
      else some fields
  | .byteSeq range =>
      if key = "pk".toList then
        (slice input range).map fun partitionKey =>
          { fields with partitionKey := some partitionKey }
      else some fields
  | _ => some fields

def policyFormat : ItemFormat RateLimitPolicy PolicyFields where
  fields := ⟨none, .requests, none, none⟩
  param := policyParam
  finish name fields := fields.quota.map fun quota =>
    ⟨name, quota, fields.unit, fields.window, fields.partitionKey⟩

def RateLimitPolicy.parseList (sf : SfParser) (input : Text) :
    Except Fault (List RateLimitPolicy) :=
  parseListWith sf policyFormat input

def RateLimitPolicy.fromHeaders (sf : SfParser) (lines : List (Option Text)) :
    Except Fault (List RateLimitPolicy) :=
  fromLines (RateLimitPolicy.parseList sf) lines

/-- The `Display` of a policy. -/
def RateLimitPolicy.display (self : RateLimitPolicy) : Text :=
  writeSfString self.name ++
  ";q=".toList ++ decimalText self.quota ++
  (if self.unit = .requests then []
    else ";qu=".toList ++ writeSfString self.unit.asStr) ++
  (match self.window with
    | none => []
    | some window => ";w=".toList ++ decimalText window.asSecs) ++
  match self.partitionKey with
    | none => []
    | some partitionKey => ";pk=:".toList ++ partitionKey ++ [':']

/-! ## What a policy is read from -/

def PolicyFields.set (fields : PolicyFields) (key : Text) (bare : BareItem) :
    PolicyFields :=
  match bare with
  | .integer n =>
      if key = "q".toList ∧ 0 ≤ n then
        { fields with quota := some (readCount n) }
      else if key = "w".toList ∧ 0 < n then
        { fields with window := some (Duration.fromSecs (readCount n)) }
      else fields
  | .string raw =>
      if key = "qu".toList then
        { fields with unit := QuotaUnit.fromCow (unescape raw) }
      else fields
  | .byteSequence raw =>
      if key = "pk".toList then { fields with partitionKey := some raw }
      else fields
  | _ => fields

theorem PolicyFields.set_quota (fields : PolicyFields) {key : Text} {n : ℤ}
    (hkey : key = "q".toList) (h : 0 ≤ n) :
    fields.set key (.integer n) =
      { fields with quota := some (readCount n) } :=
  if_pos ⟨hkey, h⟩

theorem PolicyFields.set_unit (fields : PolicyFields) {key : Text}
    (hkey : key = "qu".toList) (raw : Text) :
    fields.set key (.string raw) =
      { fields with unit := QuotaUnit.fromCow (unescape raw) } :=
  if_pos hkey

theorem PolicyFields.set_window (fields : PolicyFields) {key : Text}
    (hkey : key = "w".toList) (n : ℤ) :
    fields.set key (.integer n) =
      if 0 < n then
        { fields with window := some (Duration.fromSecs (readCount n)) }
      else fields := by
  have hne : key ≠ "q".toList := by
    rw [hkey]
    decide
  refine (if_neg fun h => hne h.1).trans ?_
  by_cases hpos : 0 < n
  · rw [if_pos ⟨hkey, hpos⟩, if_pos hpos]
  · rw [if_neg fun h => hpos h.2, if_neg hpos]

theorem PolicyFields.set_partitionKey (fields : PolicyFields) {key : Text}
    (hkey : key = "pk".toList) (raw : Text) :
    fields.set key (.byteSequence raw) =
      { fields with partitionKey := some raw } :=
  if_pos hkey

theorem policyParam_eq {input : Text} {value : SfValue} {bare : BareItem}
    (h : Denotes input value bare) (fields : PolicyFields) (key : Text) :
    policyParam input fields key value = some (fields.set key bare) := by
  cases value with
  | integer value =>
      cases bare with
      | integer n =>
          obtain rfl : value.toInt = n := h
          simp only [policyParam, PolicyFields.set,
            ← Int64.toInt_zero, ← Int64.le_iff_toInt_le,
            ← Int64.lt_iff_toInt_lt]
          split_ifs with hq hw
          · rw [toUInt64_eq_readCount hq.2]
          · rw [toUInt64_eq_readCount (Int64.le_of_lt hw.2)]
          · rfl
      | _ => exact absurd h id
  | string range escape =>
      cases bare with
      | string raw =>
          simp only [policyParam, PolicyFields.set, stringValue_eq h,
            Option.map_some]
          split_ifs <;> rfl
      | _ => exact absurd h id
  | byteSeq range =>
      cases bare with
      | byteSequence raw =>
          simp only [policyParam, PolicyFields.set, Delimits.slice_eq h,
            Option.map_some]
          split_ifs <;> rfl
      | _ => exact absurd h id
  | _ => cases bare <;> first | exact absurd h id | rfl

def policyReading : policyFormat.Reading where
  set := PolicyFields.set
  param_eq := policyParam_eq

end TrilliumRatelimit
