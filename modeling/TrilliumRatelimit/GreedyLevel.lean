import TrilliumRatelimit.ArrivalCurve

/-!
# A capped level admits the most

A level that takes every unit request it can is greedy: a request it admits
may cost it a later one.  But never more than that one.  Of any requests in
clock order it therefore admits as many as any choice among them that fits its
cap and rate, and what it admits is such a choice itself.
-/

namespace ArrivalCurve

open CappedLevel

variable {α : Type*} [CommRing α] [LinearOrder α]

def unitRequests (times : List α) : List (α × α) :=
  times.map fun time => (time, 1)

/-- The clock readings at which a unit request is allowed. -/
def admitted (cap : α) : Meter α → List α → List α
  | _, [] => []
  | meter, time :: rest =>
      if 1 ≤ meter.levelAt cap time
      then time :: admitted cap (meter.spend cap time 1) rest
      else admitted cap (meter.spend cap time 1) rest

variable [IsStrictOrderedRing α]

theorem one_le_of_bounded {burst rate time : α} {rest : List α}
    (h : Bounded burst rate (unitRequests (time :: rest))) : 1 ≤ burst := by
  have hbound := h time time le_rfl
  have hrest : 0 ≤ volume time time (unitRequests rest) :=
    volume_nonneg (by simp [unitRequests]) time time
  rw [unitRequests, List.map_cons, volume_cons, if_pos ⟨le_rfl, le_rfl⟩,
    sub_self, mul_zero, add_zero] at hbound
  exact (le_add_of_nonneg_right hrest).trans hbound

/-! ## What is admitted is a choice that fits -/

omit [IsStrictOrderedRing α] in
theorem admitted_sublist (cap : α) (meter : Meter α) (times : List α) :
    (admitted cap meter times).Sublist times := by
  induction times generalizing meter with
  | nil => exact List.Sublist.slnil
  | cons time rest ih =>
      rw [admitted]
      split
      · exact (ih _).cons_cons time
      · exact (ih _).cons time

omit [IsStrictOrderedRing α] in
/-- All are admitted if the first is, and the others after it. -/
theorem admitted_cons_eq_iff {cap time : α} {meter : Meter α}
    {rest : List α} :
    admitted cap meter (time :: rest) = time :: rest ↔
      1 ≤ meter.levelAt cap time ∧
        admitted cap (meter.spend cap time 1) rest = rest := by
  rw [admitted]
  split
  next hone => simp [hone]
  next hnot =>
    refine iff_of_false ?_ fun h => hnot h.1
    intro hall
    have hle :=
      (admitted_sublist cap (meter.spend cap time 1) rest).length_le
    rw [hall, List.length_cons] at hle
    exact Nat.not_succ_le_self _ hle

omit [IsStrictOrderedRing α] in
theorem allowedPart_unitRequests (cap : α) (meter : Meter α)
    (times : List α) :
    allowedPart (run cap meter (unitRequests times)) =
      unitRequests (admitted cap meter times) := by
  induction times generalizing meter with
  | nil => rfl
  | cons time rest ih =>
      rw [unitRequests, List.map_cons, allowedPart_run_cons, admitted]
      have hrest := ih (meter.spend cap time 1)
      rw [unitRequests] at hrest
      rw [hrest]
      split
      · rfl
      · rfl

theorem bounded_admitted {cap : α} (hcap : 0 ≤ cap) {meter : Meter α}
    {times : List α} (hmark : ∀ time ∈ times, meter.mark ≤ time)
    (hsorted : times.Pairwise (· ≤ ·)) :
    Bounded cap 1 (unitRequests (admitted cap meter times)) := by
  rw [← allowedPart_unitRequests]
  apply bounded_allowedPart hcap
  · simpa [unitRequests] using hmark
  · rw [unitRequests, List.pairwise_map]
    exact hsorted
  · simp [unitRequests]

/-! ## No choice is larger -/

/-- Two meters at one clock reading. -/
structure Lags (cap clock : α) (first second : Meter α) (lead credit : ℕ) :
    Prop where
  firstMark : first.mark ≤ clock
  secondMark : second.mark ≤ clock
  coupled : Coupled (first.levelAt cap clock) (second.levelAt cap clock)
    lead credit

variable {cap clock : α} {first second : Meter α} {lead credit : ℕ}

theorem Lags.refl (cap : α) {clock : α} {meter : Meter α}
    (hmark : meter.mark ≤ clock) : Lags cap clock meter meter 0 0 :=
  ⟨hmark, hmark, .refl _⟩

theorem Lags.advance (h : Lags cap clock first second lead credit)
    {later : α} (hle : clock ≤ later) :
    Lags cap later first second lead credit := by
  obtain ⟨hfirst, hsecond, hcoupled⟩ := h
  refine ⟨hfirst.trans hle, hsecond.trans hle, ?_⟩
  have hrefill (meter : Meter α) (hmark : meter.mark ≤ clock) :
      meter.levelAt cap later =
        min (meter.levelAt cap clock + max (later - clock) 0) cap :=
    (Meter.levelAt_levelAt hmark hle).symm
  rw [hrefill first hfirst, hrefill second hsecond]
  exact hcoupled.refill cap _

/-- A request that only the second meter sees. -/
theorem Lags.extra (h : Lags cap clock first second lead credit) :
    ∃ lead' : ℕ, Lags cap clock first (second.spend cap clock 1) lead'
        credit ∧
      lead' = lead + if 1 ≤ second.levelAt cap clock then 1 else 0 := by
  obtain ⟨hfirst, _, hcoupled⟩ := h
  refine ⟨_, ⟨hfirst, (second.spend_mark cap clock 1).le, ?_⟩, rfl⟩
  rw [Meter.levelAt_spend cap second clock zero_le_one]
  split
  · exact hcoupled.spend_more
  · rw [sub_zero]
    exact hcoupled

theorem Lags.both (h : Lags cap clock first second lead credit) :
    ∃ lead' credit' : ℕ,
      Lags cap clock (first.spend cap clock 1) (second.spend cap clock 1)
        lead' credit' ∧
      (if 1 ≤ second.levelAt cap clock then 1 else 0) + lead =
        (if 1 ≤ first.levelAt cap clock then 1 else 0) + lead' := by
  obtain ⟨lead', credit', hcoupled, hlead, _⟩ :=
    h.coupled.request (fun level => 1 ≤ level)
      fun hle hone => hone.trans hle
  refine ⟨lead', credit', ⟨(first.spend_mark cap clock 1).le,
    (second.spend_mark cap clock 1).le, ?_⟩, hlead⟩
  rw [Meter.levelAt_spend cap first clock zero_le_one,
    Meter.levelAt_spend cap second clock zero_le_one]
  exact hcoupled

/-- What a meter admits of some requests is at most what another admits of all
of them and the lead it had. -/
theorem Lags.length_admitted_le {sparse full : List α}
    (hsub : sparse.Sublist full)
    (h : Lags cap clock first second lead credit)
    (hfrom : ∀ time ∈ full, clock ≤ time) (hsorted : full.Pairwise (· ≤ ·)) :
    (admitted cap first sparse).length ≤
      (admitted cap second full).length + lead := by
  induction hsub generalizing clock first second lead credit with
  | slnil => simp [admitted]
  | @cons sparse full time _ ih =>
      obtain ⟨hlater, hsorted⟩ := List.pairwise_cons.mp hsorted
      obtain ⟨lead', hnext, hlead⟩ :=
        (h.advance (hfrom time List.mem_cons_self)).extra
      have hrest := ih hnext hlater hsorted
      rw [admitted]
      split at hlead
      next hone =>
        rw [if_pos hone, List.length_cons]
        omega
      next hnot =>
        rw [if_neg hnot]
        omega
  | @cons_cons sparse full time _ ih =>
      obtain ⟨hlater, hsorted⟩ := List.pairwise_cons.mp hsorted
      obtain ⟨lead', credit', hnext, hlead⟩ :=
        (h.advance (hfrom time List.mem_cons_self)).both
      have hrest := ih hnext hlater hsorted
      rw [admitted, admitted]
      by_cases hfirst : 1 ≤ first.levelAt cap time <;>
        by_cases hsecond : 1 ≤ second.levelAt cap time <;>
        simp only [hfirst, hsecond, if_true, if_false, List.length_cons]
          at hlead ⊢ <;>
        omega

theorem admitted_of_bounded {mark : α} {times : List α}
    (h : Bounded cap 1 (unitRequests times))
    (hmark : ∀ time ∈ times, mark ≤ time) (hsorted : times.Pairwise (· ≤ ·)) :
    admitted cap ⟨cap, mark⟩ times = times := by
  have hinjective :
      Function.Injective (unitRequests : List α → List (α × α)) :=
    List.map_injective_iff.mpr fun _ _ heq => congrArg Prod.fst heq
  apply hinjective
  rw [← allowedPart_unitRequests, allowedPart, List.filter_eq_self.mpr,
    run_map_asRequest]
  apply allowed_of_bounded h
  · simpa [unitRequests] using hmark
  · rw [unitRequests, List.pairwise_map]
    exact hsorted
  · simp [unitRequests]

/-- A full level admits at least as many requests as any of them that fit. -/
theorem length_le_admitted {mark : α} {sparse full : List α}
    (hsub : sparse.Sublist full) (h : Bounded cap 1 (unitRequests sparse))
    (hmark : ∀ time ∈ full, mark ≤ time) (hsorted : full.Pairwise (· ≤ ·)) :
    sparse.length ≤ (admitted cap ⟨cap, mark⟩ full).length := by
  have hall := admitted_of_bounded h
    (fun time hmem => hmark time (hsub.subset hmem)) (hsorted.sublist hsub)
  have hstart : Lags cap mark ⟨cap, mark⟩ ⟨cap, mark⟩ 0 0 := .refl cap le_rfl
  have hle := hstart.length_admitted_le hsub hmark hsorted
  rwa [hall, add_zero] at hle

end ArrivalCurve
