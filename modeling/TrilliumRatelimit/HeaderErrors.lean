import TrilliumRatelimit.Base64
import TrilliumRatelimit.RateLimit
import TrilliumRatelimit.RateLimitPolicy
import TrilliumRatelimit.ReferenceParser

/-!
# Which header values are rejected

Parsing fails on exactly the texts that are not lists, also where the defect
lies in something that is skipped, and never by a panic.  A whole field fails
exactly if one of its lines does.
-/

namespace TrilliumRatelimit

open StructuredField

section

variable {α Fields : Type} {sf : SfParser} {accepts : Text → Bool}
  {format : ItemFormat α Fields}

theorem parseListWith_fails_iff (hsf : sf.FollowsRfc9651 accepts)
    (reading : format.Reading) (input : Text) :
    parseListWith sf format input ≠ .error .panic ∧
      (parseListWith sf format input = .error .parseError ↔
        list accepts input = none) := by
  rw [parseListWith_eq hsf reading]
  cases list accepts input with
  | none => simp
  | some members => simp

theorem not_wellFormed_iff {lines : List (Option Text)} :
    ¬ WellFormed accepts lines ↔
      ∃ line, some line ∈ lines ∧ list accepts line = none := by
  simp only [WellFormed, not_forall, exists_prop, Option.not_isSome_iff_eq_none]

theorem fromLines_fails_iff (hsf : sf.FollowsRfc9651 accepts)
    (reading : format.Reading) (lines : List (Option Text)) :
    fromLines (parseListWith sf format) lines ≠ .error .panic ∧
      (fromLines (parseListWith sf format) lines = .error .parseError ↔
        ∃ line, some line ∈ lines ∧
          parseListWith sf format line = .error .parseError) := by
  simp only [(parseListWith_fails_iff hsf reading _).2, ← not_wellFormed_iff]
  by_cases hlines : WellFormed accepts lines
  · obtain ⟨items, hitems, _⟩ := fromLines_of_wellFormed hsf reading hlines
    simp [hitems, hlines]
  · simp [fromLines_of_not_wellFormed hsf reading hlines, hlines]

end

/-- Both parsers fail on exactly the texts that are no lists, and on whole
fields exactly if a line of theirs fails. -/
theorem parsing_fails_iff_malformed {sf : SfParser} {accepts : Text → Bool}
    (hsf : sf.FollowsRfc9651 accepts) :
    (∀ input, RateLimitPolicy.parseList sf input ≠ .error .panic ∧
      (RateLimitPolicy.parseList sf input = .error .parseError ↔
        list accepts input = none)) ∧
    (∀ input, RateLimit.parseList sf input ≠ .error .panic ∧
      (RateLimit.parseList sf input = .error .parseError ↔
        list accepts input = none)) ∧
    (∀ lines, RateLimitPolicy.fromHeaders sf lines ≠ .error .panic ∧
      (RateLimitPolicy.fromHeaders sf lines = .error .parseError ↔
        ∃ line, some line ∈ lines ∧
          RateLimitPolicy.parseList sf line = .error .parseError)) ∧
    ∀ lines, RateLimit.fromHeaders sf lines ≠ .error .panic ∧
      (RateLimit.fromHeaders sf lines = .error .parseError ↔
        ∃ line, some line ∈ lines ∧
          RateLimit.parseList sf line = .error .parseError) :=
  ⟨parseListWith_fails_iff hsf policyReading,
    parseListWith_fails_iff hsf limitReading,
    fromLines_fails_iff hsf policyReading,
    fromLines_fails_iff hsf limitReading⟩

/-- Behind a usable policy, a parameter without its value in an inner list
that is skipped. -/
theorem parsing_fails_iff_malformed_inner :
    RateLimitPolicy.parseList (referenceParser Base64.canonical)
        "\"a\";q=1, (1 \"b\";x=)".toList = .error .parseError ∧
      RateLimit.fromHeaders (referenceParser Base64.canonical)
        [some "\"a\";r=1".toList, none, some "\"b\";r=1,".toList] =
          .error .parseError := by
  have hsf := referenceParser_followsRfc9651 Base64.canonical
  obtain ⟨hpolicy, hlimit, _, hlimits⟩ := parsing_fails_iff_malformed hsf
  constructor
  · exact (hpolicy _).2.mpr (by decide +kernel)
  · exact (hlimits _).2.mpr ⟨"\"b\";r=1,".toList, by simp,
      (hlimit _).2.mpr (by decide +kernel)⟩

end TrilliumRatelimit
