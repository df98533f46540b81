import TrilliumRatelimit.CappedLevel

/-!
# Virtual schedules

Rate limiting by arrival times instead of levels, over any linearly ordered
commutative ring.  A schedule keeps one number, the theoretical arrival time
`tat`: an arrival at `now` departs as soon as it is at most `slack` ahead of
it, and moves it `step` past the later of the two.

The first half bounds how densely departures can lie.  The second half is the
duality with capped levels: while the arrival time is `d` ahead of the clock,
the level is `d` below its cap.
-/

namespace VirtualSchedule

open CappedLevel

variable {α : Type*} [CommRing α] [LinearOrder α]

def departure (slack tat now : α) : α := max now (tat - slack)

def advance (step tat now : α) : α := max tat now + step

/-- The departures of a sequence of arrivals. -/
def departures (slack step : α) : α → List α → List α
  | _, [] => []
  | tat, now :: rest =>
      departure slack tat now :: departures slack step (advance step tat now) rest

variable [IsStrictOrderedRing α]

omit [IsStrictOrderedRing α] in
theorem sub_le_departure (slack tat now : α) :
    tat - slack ≤ departure slack tat now := le_max_right _ _

theorem add_le_advance (step tat now : α) :
    tat + step ≤ advance step tat now := by
  unfold advance
  gcongr
  exact le_max_left _ _

theorem departure_add_le_advance {slack : α} (hslack : 0 ≤ slack)
    (step tat now : α) :
    departure slack tat now + step ≤ advance step tat now := by
  unfold departure advance
  apply add_le_add_left
  apply max_le
  · exact le_max_right _ _
  · exact (sub_le_self _ hslack).trans (le_max_left _ _)

theorem max_departure {slack : α} (hslack : 0 ≤ slack) (tat now : α) :
    max tat (departure slack tat now) = max tat now := by
  rw [departure, max_left_comm, max_eq_left (sub_le_self tat hslack),
    max_comm]

theorem departure_mono {slack tat now tat' now' : α} (htat : tat ≤ tat')
    (hnow : now ≤ now') : departure slack tat now ≤ departure slack tat' now' :=
  max_le_max hnow (sub_le_sub_right htat slack)

/-! ## How densely departures lie -/

/-- Number of departures within a closed interval. -/
def within (start finish : α) (times : List α) : ℕ :=
  times.countP fun time => decide (start ≤ time ∧ time ≤ finish)

omit [CommRing α] [IsStrictOrderedRing α] in
theorem within_cons_of_mem {start finish time : α}
    (hmem : start ≤ time ∧ time ≤ finish) (times : List α) :
    within start finish (time :: times) = within start finish times + 1 := by
  rw [within, List.countP_cons_of_pos (by simpa using hmem), within]

omit [CommRing α] [IsStrictOrderedRing α] in
theorem within_cons_of_not_mem {start finish time : α}
    (hmem : ¬ (start ≤ time ∧ time ≤ finish)) (times : List α) :
    within start finish (time :: times) = within start finish times := by
  rw [within, List.countP_cons_of_neg (by simpa using hmem), within]

/-- Departures up to `finish`, counted by how far the arrival time is from
it. -/
theorem within_departures_of_tat {slack step : α} (hstep : 0 ≤ step)
    (start finish : α) (nows : List α) (tat : α) :
    within start finish (departures slack step tat nows) = 0 ∨
      within start finish (departures slack step tat nows) * step ≤
        finish + slack + step - tat := by
  induction nows generalizing tat with
  | nil => exact .inl rfl
  | cons now rest ih =>
      have hnext := add_le_advance step tat now
      rw [departures]
      by_cases hmem : start ≤ departure slack tat now ∧
          departure slack tat now ≤ finish
      · have htat := (sub_le_departure slack tat now).trans hmem.2
        right
        rw [within_cons_of_mem hmem]
        push_cast
        rcases ih (advance step tat now) with hzero | hrest
        · rw [hzero]
          push_cast
          linarith
        · linarith
      · rw [within_cons_of_not_mem hmem]
        rcases ih (advance step tat now) with hzero | hrest
        · exact .inl hzero
        · right
          linarith

theorem within_departures_mul_le {slack step : α} (hslack : 0 ≤ slack)
    (hstep : 0 ≤ step) {start finish : α} (hle : start ≤ finish)
    (nows : List α) (tat : α) :
    within start finish (departures slack step tat nows) * step ≤
      finish - start + slack + step := by
  induction nows generalizing tat with
  | nil =>
      simp only [departures, within, List.countP_nil, Nat.cast_zero, zero_mul]
      linarith
  | cons now rest ih =>
      rw [departures]
      by_cases hmem : start ≤ departure slack tat now ∧
          departure slack tat now ≤ finish
      · -- from here on the arrival time is at least `start + step`
        have hnext := departure_add_le_advance hslack step tat now
        rw [within_cons_of_mem hmem]
        push_cast
        rcases within_departures_of_tat hstep start finish
            rest (advance step tat now) with hzero | hrest
        · rw [hzero]
          push_cast
          linarith
        · linarith [hmem.1]
      · rw [within_cons_of_not_mem hmem]
        exact ih (advance step tat now)

/-- The `n`-th time after a time is `n` steps after it, the slack aside. -/
def Spaced (slack step : α) (times : List α) : Prop :=
  ∀ i n : ℕ, 1 ≤ n → ∀ earlier later, times[i]? = some earlier →
    times[i + n]? = some later → earlier + n * step - slack ≤ later

omit [IsStrictOrderedRing α] in
theorem Spaced.tail {slack step time : α} {rest : List α}
    (h : Spaced slack step (time :: rest)) : Spaced slack step rest := by
  intro i n hn earlier later hearlier hlater
  apply h (i + 1) n hn earlier later
  · rwa [List.getElem?_cons_succ]
  · rwa [Nat.add_right_comm, List.getElem?_cons_succ]

/-- Times that lie a step further ahead one after the other, up to
`finish`. -/
theorem within_of_ahead {step base : α} (hstep : 0 ≤ step) (start finish : α)
    {times : List α}
    (h : ∀ (k : ℕ) time, times[k]? = some time → base + k * step ≤ time) :
    within start finish times = 0 ∨
      within start finish times * step ≤ finish - base + step := by
  induction times generalizing base with
  | nil => exact .inl rfl
  | cons time rest ih =>
      have hfirst := h 0 time rfl
      rw [Nat.cast_zero, zero_mul, add_zero] at hfirst
      have hrest : ∀ (k : ℕ) other, rest[k]? = some other →
          base + step + k * step ≤ other := by
        intro k other hother
        have hbound := h (k + 1) other (by rwa [List.getElem?_cons_succ])
        push_cast at hbound
        linarith
      by_cases hmem : start ≤ time ∧ time ≤ finish
      · right
        rw [within_cons_of_mem hmem]
        push_cast
        rcases ih hrest with hzero | hbound
        · rw [hzero]
          push_cast
          linarith [hmem.2]
        · linarith
      · rw [within_cons_of_not_mem hmem]
        rcases ih hrest with hzero | hbound
        · exact .inl hzero
        · right
          linarith

theorem Spaced.within_mul_le {slack step : α} (hslack : 0 ≤ slack)
    (hstep : 0 ≤ step) {start finish : α} (hle : start ≤ finish)
    {times : List α} (h : Spaced slack step times) :
    within start finish times * step ≤ finish - start + slack + step := by
  induction times with
  | nil =>
      simp only [within, List.countP_nil, Nat.cast_zero, zero_mul]
      linarith
  | cons time rest ih =>
      by_cases hmem : start ≤ time ∧ time ≤ finish
      · -- whatever follows is ahead of this time
        have hahead : ∀ (k : ℕ) other, rest[k]? = some other →
            time + step - slack + k * step ≤ other := by
          intro k other hother
          have hbound := h 0 (k + 1) (by omega) time other rfl
            (by rwa [Nat.zero_add, List.getElem?_cons_succ])
          push_cast at hbound
          linarith
        rw [within_cons_of_mem hmem]
        push_cast
        rcases within_of_ahead hstep start finish hahead with hzero | hbound
        · rw [hzero]
          push_cast
          linarith
        · linarith [hmem.1]
      · rw [within_cons_of_not_mem hmem]
        exact ih h.tail

/-- Arrivals all at once: they depart before any `finish` that leaves room for
a step each. -/
theorem within_departures_replicate {slack step : α} (hstep : 0 ≤ step)
    {tat now finish : α} (htat : now ≤ tat) (hnow : now ≤ finish) (n : ℕ)
    (hfinish : tat + n * step ≤ finish + slack + step) :
    within now finish (departures slack step tat (List.replicate n now)) =
      n := by
  induction n generalizing tat with
  | zero => rfl
  | succ n ih =>
      push_cast at hfinish
      have hn : (0 : α) ≤ n * step := mul_nonneg (Nat.cast_nonneg n) hstep
      have hmem : now ≤ departure slack tat now ∧
          departure slack tat now ≤ finish :=
        ⟨le_max_left _ _, max_le hnow (by linarith)⟩
      have hadvance : advance step tat now = tat + step := by
        rw [advance, max_eq_left htat]
      rw [List.replicate_succ, departures, within_cons_of_mem hmem, hadvance,
        ih (by linarith) (by linarith)]

/-! ## The dual level -/

/-- From its mark on, the meter is as far below its cap as the arrival time is
ahead of the clock. -/
def Dual (cap : α) (meter : Meter α) (tat : α) : Prop :=
  ∀ clock, meter.mark ≤ clock →
    meter.levelAt cap clock = cap - max (tat - clock) 0

theorem Dual.full (cap mark : α) : Dual cap ⟨cap, mark⟩ mark := by
  intro clock hclock
  rw [Meter.levelAt_full, max_eq_right (sub_nonpos.mpr hclock), sub_zero]

theorem Dual.le_levelAt_iff {cap : α} {meter : Meter α} {tat : α}
    (hdual : Dual cap meter tat) {clock amount : α}
    (hmark : meter.mark ≤ clock) (hamount : amount ≤ cap) :
    amount ≤ meter.levelAt cap clock ↔ tat - (cap - amount) ≤ clock := by
  rw [hdual clock hmark, le_sub_comm, max_le_iff]
  constructor
  · intro h
    linarith [h.1]
  · intro h
    exact ⟨by linarith, sub_nonneg.mpr hamount⟩

theorem Dual.spend {cap : α} {meter : Meter α} {tat : α}
    (hdual : Dual cap meter tat) {now amount : α} (hamount : amount ≤ cap)
    (hmark : meter.mark ≤ departure (cap - amount) tat now) :
    Dual cap
      (meter.spend cap (departure (cap - amount) tat now) amount)
      (advance amount tat now) := by
  have hslack : 0 ≤ cap - amount := sub_nonneg.mpr hamount
  have hcovered := (hdual.le_levelAt_iff hmark hamount).mpr
    (sub_le_departure (cap - amount) tat now)
  have hahead : max tat now =
      max (tat - departure (cap - amount) tat now) 0 +
        departure (cap - amount) tat now := by
    rw [← max_add_add_right, sub_add_cancel, zero_add,
      max_departure hslack]
  intro clock hclock
  rw [Meter.spend_of_le hcovered] at hclock ⊢
  rw [Meter.levelAt_of_mark_le cap hclock, hdual _ hmark, advance, hahead]
  generalize max (tat - departure (cap - amount) tat now) 0 = ahead
  generalize departure (cap - amount) tat now = depart
  rcases le_total (ahead + depart + amount) clock with hpast | hbefore
  · rw [max_eq_right (by linarith), min_eq_right (by linarith), sub_zero]
  · rw [max_eq_left (by linarith), min_eq_left (by linarith)]
    ring

end VirtualSchedule
