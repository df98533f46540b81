import Mathlib.Algebra.Order.Ring.Defs
import Mathlib.Tactic

/-!
# Levels that refill up to a cap

The arithmetic of a token bucket, over any linearly ordered commutative ring.
Clock and level are measured in one unit, so a level grows by exactly the time
that passed since its mark, is cut off at the cap, and is spent from at clock
readings.  Nothing here knows where the clock readings come from.

Four facts are developed: refilling is additive over split intervals; a level
admits exactly the requests that conform on every earlier interval; what is
spent between two readings is bounded by the cap plus the time between them;
and two levels driven by the same requests stay coupled.
-/

namespace CappedLevel

/-- A level and the clock reading it was last brought up to date at. -/
structure Meter (α : Type*) where
  level : α
  mark : α

variable {α : Type*} [CommRing α] [LinearOrder α]

/-- The refilled level at a clock reading.  A reading before the mark adds
nothing. -/
def Meter.levelAt (cap : α) (meter : Meter α) (clock : α) : α :=
  min (meter.level + max (clock - meter.mark) 0) cap

/-- Refill to a clock reading, then spend the amount if the level covers
it. -/
def Meter.spend (cap : α) (meter : Meter α) (clock amount : α) : Meter α :=
  if amount ≤ meter.levelAt cap clock
  then ⟨meter.levelAt cap clock - amount, clock⟩
  else ⟨meter.levelAt cap clock, clock⟩

theorem Meter.levelAt_le_cap (cap : α) (meter : Meter α) (clock : α) :
    meter.levelAt cap clock ≤ cap := min_le_right _ _

@[simp] theorem Meter.spend_mark (cap : α) (meter : Meter α)
    (clock amount : α) : (meter.spend cap clock amount).mark = clock := by
  unfold Meter.spend
  split <;> rfl

theorem Meter.spend_of_le {cap : α} {meter : Meter α} {clock amount : α}
    (hle : amount ≤ meter.levelAt cap clock) :
    meter.spend cap clock amount = ⟨meter.levelAt cap clock - amount, clock⟩ :=
  if_pos hle

theorem Meter.spend_of_not_le {cap : α} {meter : Meter α} {clock amount : α}
    (hnot : ¬ amount ≤ meter.levelAt cap clock) :
    meter.spend cap clock amount = ⟨meter.levelAt cap clock, clock⟩ :=
  if_neg hnot

variable [IsStrictOrderedRing α]

theorem Meter.levelAt_of_mark_le (cap : α) {meter : Meter α} {clock : α}
    (hmark : meter.mark ≤ clock) :
    meter.levelAt cap clock = min (meter.level + (clock - meter.mark)) cap := by
  rw [Meter.levelAt, max_eq_left (sub_nonneg.mpr hmark)]

theorem Meter.le_levelAt_iff (cap amount : α) {meter : Meter α} {clock : α}
    (hmark : meter.mark ≤ clock) :
    amount ≤ meter.levelAt cap clock ↔
      amount ≤ meter.level + (clock - meter.mark) ∧ amount ≤ cap := by
  rw [Meter.levelAt_of_mark_le cap hmark, le_min_iff]

theorem Meter.levelAt_mono (cap : α) (meter : Meter α) :
    Monotone (meter.levelAt cap) := by
  intro clock later hle
  unfold Meter.levelAt
  gcongr

/-- Between two readings, in either order, the level gains at most the time
between them. -/
theorem Meter.levelAt_le_add (cap : α) (meter : Meter α) (clock later : α) :
    meter.levelAt cap later ≤
      meter.levelAt cap clock + max (later - clock) 0 := by
  have hgain : max (later - meter.mark) 0 ≤
      max (clock - meter.mark) 0 + max (later - clock) 0 := by
    have hclock := le_max_left (clock - meter.mark) 0
    have hlater := le_max_left (later - clock) 0
    apply max_le
    · linarith
    · exact add_nonneg (le_max_right _ _) (le_max_right _ _)
  unfold Meter.levelAt
  rw [← min_add_add_right]
  apply min_le_min
  · linarith
  · exact le_add_of_nonneg_right (le_max_right _ _)

theorem Meter.levelAt_nonneg {cap : α} {meter : Meter α} (clock : α)
    (hcap : 0 ≤ cap) (hlevel : 0 ≤ meter.level) :
    0 ≤ meter.levelAt cap clock :=
  le_min (add_nonneg hlevel (le_max_right _ _)) hcap

@[simp] theorem Meter.levelAt_full (cap mark clock : α) :
    (⟨cap, mark⟩ : Meter α).levelAt cap clock = cap :=
  min_eq_right (le_add_of_nonneg_right (le_max_right _ _))

theorem Meter.levelAt_levelAt {cap : α} {meter : Meter α} {clock later : α}
    (hmark : meter.mark ≤ clock) (hlater : clock ≤ later) :
    (⟨meter.levelAt cap clock, clock⟩ : Meter α).levelAt cap later =
      meter.levelAt cap later := by
  have hmeter : (⟨meter.levelAt cap clock, clock⟩ : Meter α).mark ≤ later :=
    hlater
  rw [Meter.levelAt_of_mark_le cap hmeter,
    Meter.levelAt_of_mark_le cap (hmark.trans hlater),
    Meter.levelAt_of_mark_le cap hmark]
  rcases le_total (meter.level + (clock - meter.mark)) cap with hle | hge
  · rw [min_eq_left hle]
    congr 1
    ring
  · rw [min_eq_right hge, min_eq_right (by linarith),
      min_eq_right (by linarith)]

/-- Right after a request the level is what the request left. -/
theorem Meter.levelAt_spend (cap : α) (meter : Meter α) (clock : α)
    {amount : α} (hamount : 0 ≤ amount) :
    (meter.spend cap clock amount).levelAt cap clock =
      meter.levelAt cap clock -
        if amount ≤ meter.levelAt cap clock then amount else 0 := by
  have hcap := meter.levelAt_le_cap cap clock
  rw [Meter.levelAt, Meter.spend_mark, sub_self, max_self, add_zero]
  by_cases hle : amount ≤ meter.levelAt cap clock
  · rw [Meter.spend_of_le hle, if_pos hle]
    exact min_eq_left ((sub_le_self _ hamount).trans hcap)
  · rw [Meter.spend_of_not_le hle, if_neg hle, sub_zero]
    exact min_eq_left hcap

theorem Meter.levelAt_spend_of_not_le {cap : α} {meter : Meter α}
    {clock later amount : α} (hmark : meter.mark ≤ clock)
    (hlater : clock ≤ later) (hnot : ¬ amount ≤ meter.levelAt cap clock) :
    (meter.spend cap clock amount).levelAt cap later =
      meter.levelAt cap later := by
  rw [Meter.spend_of_not_le hnot, Meter.levelAt_levelAt hmark hlater]

theorem Meter.levelAt_spend_le (cap : α) (meter : Meter α)
    {clock later amount : α} (hmark : meter.mark ≤ clock)
    (hlater : clock ≤ later) (hamount : 0 ≤ amount) :
    (meter.spend cap clock amount).levelAt cap later ≤
      meter.levelAt cap later := by
  by_cases hle : amount ≤ meter.levelAt cap clock
  · rw [Meter.spend_of_le hle, ← Meter.levelAt_levelAt hmark hlater]
    unfold Meter.levelAt
    gcongr
    linarith
  · exact (Meter.levelAt_spend_of_not_le hmark hlater hle).le

theorem Meter.spend_level_nonneg {cap : α} {meter : Meter α}
    (clock amount : α) (hcap : 0 ≤ cap) (hlevel : 0 ≤ meter.level) :
    0 ≤ (meter.spend cap clock amount).level := by
  unfold Meter.spend
  split
  next hle => exact sub_nonneg.mpr hle
  next => exact Meter.levelAt_nonneg clock hcap hlevel

/-! ## Exact conformance -/

structure Attempt (α : Type*) where
  clock : α
  amount : α
  allowed : Bool

/-- The attempts a sequence of (clock reading, amount) requests makes. -/
def run (cap : α) : Meter α → List (α × α) → List (Attempt α)
  | _, [] => []
  | meter, (clock, amount) :: rest =>
      ⟨clock, amount, decide (amount ≤ meter.levelAt cap clock)⟩ ::
        run cap (meter.spend cap clock amount) rest

/-- Total amount of the allowed attempts. -/
def spent : List (Attempt α) → α
  | [] => 0
  | entry :: rest => (if entry.allowed then entry.amount else 0) + spent rest

omit [LinearOrder α] [IsStrictOrderedRing α] in
theorem spent_append (before after : List (Attempt α)) :
    spent (before ++ after) = spent before + spent after := by
  induction before with
  | nil => simp [spent]
  | cons entry rest ih =>
      simp only [List.cons_append, spent, ih]
      ring

/-- The amount fits the cap, and fits it together with everything allowed
since any earlier allowed attempt, with the time since then added. -/
def Conforms (cap : α) (history : List (Attempt α)) (clock amount : α) :
    Prop :=
  amount ≤ cap ∧
    ∀ before entry after, history = before ++ entry :: after →
      entry.allowed = true →
        spent (entry :: after) + amount ≤ cap + (clock - entry.clock)

/-- From its mark on, the meter covers exactly the conforming amounts. -/
def Tracks (cap : α) (meter : Meter α) (history : List (Attempt α)) : Prop :=
  ∀ clock, meter.mark ≤ clock → ∀ amount,
    amount ≤ meter.levelAt cap clock ↔ Conforms cap history clock amount

theorem Tracks.full (cap mark : α) : Tracks cap ⟨cap, mark⟩ [] := by
  intro clock _ amount
  rw [Meter.levelAt_full]
  simp [Conforms]

/-- A conformance test one attempt later, read off the history before it. -/
theorem conforms_append_singleton (cap : α) (history : List (Attempt α))
    (last : Attempt α) (clock amount : α) (hclock : last.clock ≤ clock) :
    Conforms cap (history ++ [last]) clock amount ↔
      amount ≤ cap ∧
        Conforms cap history last.clock
          (amount - (clock - last.clock) +
            if last.allowed then last.amount else 0) := by
  constructor
  · rintro ⟨hcap, hall⟩
    refine ⟨hcap, ?_, ?_⟩
    · cases hallowed : last.allowed with
      | false => simp only [Bool.false_eq_true, if_false]; linarith
      | true =>
          have hlast := hall history last [] rfl hallowed
          simp only [spent, hallowed, if_true] at hlast ⊢
          linarith
    · intro before entry after hsplit hallowed
      have hentry := hall before entry (after ++ [last])
        (by simp [hsplit]) hallowed
      rw [← List.cons_append, spent_append] at hentry
      simp only [spent] at hentry ⊢
      linarith
  · rintro ⟨hcap, hbound, hall⟩
    refine ⟨hcap, ?_⟩
    intro before entry after hsplit hallowed
    rcases List.eq_nil_or_concat after with rfl | ⟨init, final, rfl⟩
    · have hlast : last = entry := by
        have := congrArg List.getLast? hsplit
        simpa using this
      subst hlast
      simp only [spent, hallowed, if_true] at hbound ⊢
      linarith
    · have hparts : history = before ++ entry :: init ∧ last = final := by
        have hconcat : history ++ [last] =
            (before ++ entry :: init) ++ [final] := by
          simpa using hsplit
        exact ⟨(List.append_inj' hconcat rfl).1, by
          simpa using (List.append_inj' hconcat rfl).2⟩
      obtain ⟨hhistory, rfl⟩ := hparts
      have hentry := hall before entry init hhistory hallowed
      rw [List.concat_eq_append, ← List.cons_append, spent_append]
      simp only [spent] at hentry ⊢
      linarith

theorem Tracks.spend {cap : α} {meter : Meter α} {history : List (Attempt α)}
    (htracks : Tracks cap meter history) {clock : α} (amount : α)
    (hmark : meter.mark ≤ clock) :
    Tracks cap (meter.spend cap clock amount)
      (history ++
        [⟨clock, amount, decide (amount ≤ meter.levelAt cap clock)⟩]) := by
  intro later hlater wanted
  rw [Meter.spend_mark] at hlater
  have hspent : (meter.spend cap clock amount).mark ≤ later :=
    (meter.spend_mark cap clock amount).le.trans hlater
  rw [conforms_append_singleton cap history _ later wanted hlater,
    ← htracks clock hmark, Meter.le_levelAt_iff cap wanted hspent,
    Meter.spend_mark, and_comm]
  apply and_congr_right
  intro _
  by_cases hle : amount ≤ meter.levelAt cap clock
  · rw [Meter.spend_of_le hle]
    simp only [hle, decide_true, if_true]
    constructor <;> intro h <;> linarith
  · rw [Meter.spend_of_not_le hle]
    simp only [hle, decide_false, Bool.false_eq_true, if_false]
    constructor <;> intro h <;> linarith

theorem run_allowed_iff_conforms {cap : α} {meter : Meter α}
    {history : List (Attempt α)} {requests : List (α × α)}
    (htracks : Tracks cap meter history)
    (hmark : ∀ request ∈ requests, meter.mark ≤ request.1)
    (hsorted : requests.Pairwise fun a b => a.1 ≤ b.1)
    {before after : List (Attempt α)} {entry : Attempt α}
    (hsplit : run cap meter requests = before ++ entry :: after) :
    entry.allowed = true ↔
      Conforms cap (history ++ before) entry.clock entry.amount := by
  induction requests generalizing meter history before with
  | nil => simp [run] at hsplit
  | cons request rest ih =>
      obtain ⟨clock, amount⟩ := request
      have hclock : meter.mark ≤ clock := hmark (clock, amount) (by simp)
      rw [List.pairwise_cons] at hsorted
      cases before with
      | nil =>
          simp only [run, List.nil_append, List.cons.injEq] at hsplit
          obtain ⟨rfl, _⟩ := hsplit
          simpa using htracks clock hclock amount
      | cons first before =>
          simp only [run, List.cons_append, List.cons.injEq] at hsplit
          obtain ⟨rfl, hrest⟩ := hsplit
          have hnext := ih (htracks.spend amount hclock)
            (fun request hmem => by
              rw [Meter.spend_mark]; exact hsorted.1 request hmem)
            hsorted.2 hrest
          simpa using hnext

/-! ## What an interval can spend -/

/-- At every reading from `start` on, the level and the total already spent
since `start` fit the cap with the elapsed time added. -/
def Covered (cap : α) (meter : Meter α) (start total : α) : Prop :=
  ∀ clock, meter.mark ≤ clock → start ≤ clock →
    meter.levelAt cap clock + total ≤ cap + (clock - start)

theorem Covered.nothing (cap : α) (meter : Meter α) (start : α) :
    Covered cap meter start 0 := by
  intro clock _ hstart
  have hcap := meter.levelAt_le_cap cap clock
  linarith

theorem Covered.spend {cap : α} {meter : Meter α} {start total : α}
    (hcovered : Covered cap meter start total) {clock amount : α}
    (hmark : meter.mark ≤ clock) (hstart : start ≤ clock) :
    Covered cap (meter.spend cap clock amount) start
      (total + if amount ≤ meter.levelAt cap clock then amount else 0) := by
  intro later hlater _
  rw [Meter.spend_mark] at hlater
  have hnow := hcovered clock hmark hstart
  have hspent : (meter.spend cap clock amount).mark ≤ later :=
    (meter.spend_mark cap clock amount).le.trans hlater
  have hlevel := ((Meter.le_levelAt_iff cap _ hspent).mp le_rfl).1
  rw [Meter.spend_mark] at hlevel
  by_cases hle : amount ≤ meter.levelAt cap clock
  · rw [if_pos hle]
    rw [Meter.spend_of_le hle] at hlevel ⊢
    simp only at hlevel
    linarith
  · rw [if_neg hle]
    rw [Meter.spend_of_not_le hle] at hlevel ⊢
    simp only at hlevel
    linarith

theorem Covered.spend_uncounted {cap : α} {meter : Meter α} {start total : α}
    (hcovered : Covered cap meter start total) {clock amount : α}
    (hmark : meter.mark ≤ clock) (hamount : 0 ≤ amount) :
    Covered cap (meter.spend cap clock amount) start total := by
  intro later hlater hstart
  rw [Meter.spend_mark] at hlater
  have hle := meter.levelAt_spend_le cap hmark hlater hamount
  have hbound := hcovered later (hmark.trans hlater) hstart
  linarith

/-! ## Two levels under the same requests -/

/-- Neither level is ahead of the other by more than the unit requests it was
granted less.  `lead` counts how many more the second was granted, `credit`
how many more it may still be granted. -/
structure Coupled (first second : α) (lead credit : ℕ) : Prop where
  behind : first ≤ second + lead
  ahead : second ≤ first + credit

omit [IsStrictOrderedRing α] in
theorem Coupled.symm {first second : α} {lead credit : ℕ}
    (h : Coupled first second lead credit) :
    Coupled second first credit lead := ⟨h.ahead, h.behind⟩

theorem Coupled.refl (level : α) : Coupled level level 0 0 := by
  constructor <;> simp

theorem Coupled.refill {first second : α} {lead credit : ℕ}
    (h : Coupled first second lead credit) (cap gain : α) :
    Coupled (min (first + gain) cap) (min (second + gain) cap)
      lead credit := by
  have hlead : (0 : α) ≤ lead := Nat.cast_nonneg lead
  have hcredit : (0 : α) ≤ credit := Nat.cast_nonneg credit
  obtain ⟨hbehind, hahead⟩ := h
  constructor
  · rw [← min_add_add_right]
    exact le_min ((min_le_left _ _).trans (by linarith))
      ((min_le_right _ _).trans (by linarith))
  · rw [← min_add_add_right]
    exact le_min ((min_le_left _ _).trans (by linarith))
      ((min_le_right _ _).trans (by linarith))

theorem Coupled.spend_both {first second : α} {lead credit : ℕ}
    (h : Coupled first second lead credit) :
    Coupled (first - 1) (second - 1) lead credit := by
  obtain ⟨hbehind, hahead⟩ := h
  constructor <;> linarith

/-- Only the first, higher level grants a unit request: the second was
granted more before, and its lead shrinks. -/
theorem Coupled.spend_first {first second : α} {lead credit : ℕ}
    (h : Coupled first second lead credit) (hlt : second < first) :
    ∃ less, lead = less + 1 ∧ Coupled (first - 1) second less (credit + 1) := by
  obtain ⟨hbehind, hahead⟩ := h
  cases lead with
  | zero =>
      rw [Nat.cast_zero] at hbehind
      linarith
  | succ less =>
      push_cast at hbehind
      refine ⟨less, rfl, ?_, ?_⟩
      · linarith
      · push_cast
        linarith

theorem Coupled.spend_second {first second : α} {lead credit : ℕ}
    (h : Coupled first second lead credit) (hlt : first < second) :
    ∃ less, credit = less + 1 ∧
      Coupled first (second - 1) (lead + 1) less := by
  obtain ⟨less, hcredit, hnext⟩ := h.symm.spend_first hlt
  exact ⟨less, hcredit, hnext.symm⟩

/-- The second level grants a unit request that the first never sees. -/
theorem Coupled.spend_more {first second : α} {lead credit : ℕ}
    (h : Coupled first second lead credit) :
    Coupled first (second - 1) (lead + 1) credit := by
  obtain ⟨hbehind, hahead⟩ := h
  constructor
  · push_cast
    linarith
  · linarith

/-- A unit request to both, granted by whichever level is high enough: the
lead keeps the count. -/
theorem Coupled.request {first second : α} {lead credit : ℕ}
    (h : Coupled first second lead credit) (grants : α → Prop)
    [DecidablePred grants]
    (hmono : ∀ {level higher}, level ≤ higher → grants level →
      grants higher) :
    ∃ lead' credit' : ℕ,
      Coupled (first - if grants first then 1 else 0)
        (second - if grants second then 1 else 0) lead' credit' ∧
      (if grants second then 1 else 0) + lead =
        (if grants first then 1 else 0) + lead' ∧
      lead + credit = lead' + credit' := by
  have hlt {level higher : α} (hdenied : ¬ grants level)
      (hgranted : grants higher) : level < higher :=
    not_le.mp fun hle => hdenied (hmono hle hgranted)
  by_cases hfirst : grants first <;> by_cases hsecond : grants second
  · rw [if_pos hfirst, if_pos hsecond, if_pos hfirst, if_pos hsecond]
    exact ⟨lead, credit, h.spend_both, rfl, rfl⟩
  · obtain ⟨less, rfl, hnext⟩ := h.spend_first (hlt hsecond hfirst)
    rw [if_pos hfirst, if_neg hsecond, if_pos hfirst, if_neg hsecond, sub_zero]
    exact ⟨less, credit + 1, hnext, by omega, by omega⟩
  · obtain ⟨less, rfl, hnext⟩ := h.spend_second (hlt hfirst hsecond)
    rw [if_neg hfirst, if_pos hsecond, if_neg hfirst, if_pos hsecond, sub_zero]
    exact ⟨lead + 1, less, hnext, by omega, by omega⟩
  · rw [if_neg hfirst, if_neg hsecond, if_neg hfirst, if_neg hsecond, sub_zero,
      sub_zero]
    exact ⟨lead, credit, h, rfl, rfl⟩

/-- Filling the second level to a cap of `size` buys it `size` more
requests. -/
theorem coupled_fill_second {first : α} (lead credit : ℕ) {size : ℕ}
    (hnonneg : 0 ≤ first) (hcap : first ≤ size) :
    Coupled first (size : α) lead (credit + size) := by
  have hlead : (0 : α) ≤ lead := Nat.cast_nonneg lead
  have hcredit : (0 : α) ≤ credit := Nat.cast_nonneg credit
  constructor
  · linarith
  · push_cast
    linarith

end CappedLevel
