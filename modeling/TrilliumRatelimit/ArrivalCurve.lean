import TrilliumRatelimit.VirtualSchedule

/-!
# Traffic bounded by a burst and a rate

A stream of requests is bounded if what arrives within any closed interval
fits a burst together with a rate times the length of the interval.  Bounded
streams stay bounded when they are thinned out, reordered, merged or delayed,
with what that costs added to the burst or the rate.

A capped level is where such bounds come from and where they lead to: what it
allows is bounded, and it allows all of a bounded stream.
-/

namespace ArrivalCurve

open CappedLevel

variable {α : Type*} [CommRing α] [LinearOrder α]

/-- Total amount of the requests at clock readings within a closed
interval. -/
def volume (start finish : α) (requests : List (α × α)) : α :=
  ((requests.filter fun request =>
    start ≤ request.1 ∧ request.1 ≤ finish).map Prod.snd).sum

def Bounded (burst rate : α) (requests : List (α × α)) : Prop :=
  ∀ start finish, start ≤ finish →
    volume start finish requests ≤ burst + rate * (finish - start)

@[simp] theorem volume_nil (start finish : α) :
    volume start finish [] = 0 := rfl

theorem volume_cons (start finish : α) (request : α × α)
    (rest : List (α × α)) :
    volume start finish (request :: rest) =
      (if start ≤ request.1 ∧ request.1 ≤ finish then request.2 else 0) +
        volume start finish rest := by
  unfold volume
  by_cases hmem : start ≤ request.1 ∧ request.1 ≤ finish
  · simp [hmem]
  · simp [hmem]

theorem volume_append (start finish : α) (before after : List (α × α)) :
    volume start finish (before ++ after) =
      volume start finish before + volume start finish after := by
  simp [volume]

theorem volume_perm {start finish : α} {requests other : List (α × α)}
    (hperm : requests.Perm other) :
    volume start finish requests = volume start finish other :=
  ((hperm.filter _).map _).sum_eq

variable [IsStrictOrderedRing α]

theorem volume_nonneg {requests : List (α × α)}
    (hamount : ∀ request ∈ requests, 0 ≤ request.2) (start finish : α) :
    0 ≤ volume start finish requests := by
  apply List.sum_nonneg
  intro amount hmem
  obtain ⟨request, hrequest, rfl⟩ := List.mem_map.mp hmem
  exact hamount request (List.mem_of_mem_filter hrequest)

theorem volume_sublist {requests other : List (α × α)}
    (hsub : requests.Sublist other)
    (hamount : ∀ request ∈ other, 0 ≤ request.2) (start finish : α) :
    volume start finish requests ≤ volume start finish other := by
  apply ((hsub.filter _).map _).sum_le_sum
  intro amount hmem
  obtain ⟨request, hrequest, rfl⟩ := List.mem_map.mp hmem
  exact hamount request (List.mem_of_mem_filter hrequest)

/-! ## Streams made of bounded ones -/

theorem Bounded.nil {burst rate : α} (hburst : 0 ≤ burst) (hrate : 0 ≤ rate) :
    Bounded burst rate [] := by
  intro start finish hle
  rw [volume_nil]
  exact add_nonneg hburst (mul_nonneg hrate (sub_nonneg.mpr hle))

omit [IsStrictOrderedRing α] in
theorem Bounded.perm {burst rate : α} {requests other : List (α × α)}
    (h : Bounded burst rate requests) (hperm : requests.Perm other) :
    Bounded burst rate other := by
  intro start finish hle
  rw [← volume_perm hperm]
  exact h start finish hle

theorem Bounded.sublist {burst rate : α} {requests other : List (α × α)}
    (h : Bounded burst rate other) (hsub : requests.Sublist other)
    (hamount : ∀ request ∈ other, 0 ≤ request.2) :
    Bounded burst rate requests :=
  fun start finish hle =>
    (volume_sublist hsub hamount start finish).trans (h start finish hle)

theorem Bounded.mono {burst rate burst' rate' : α} {requests : List (α × α)}
    (h : Bounded burst rate requests) (hburst : burst ≤ burst')
    (hrate : rate ≤ rate') : Bounded burst' rate' requests := by
  intro start finish hle
  refine (h start finish hle).trans (add_le_add hburst ?_)
  exact mul_le_mul_of_nonneg_right hrate (sub_nonneg.mpr hle)

theorem Bounded.append {burst rate burst' rate' : α}
    {before after : List (α × α)} (hbefore : Bounded burst rate before)
    (hafter : Bounded burst' rate' after) :
    Bounded (burst + burst') (rate + rate') (before ++ after) := by
  intro start finish hle
  have hfirst := hbefore start finish hle
  have hsecond := hafter start finish hle
  rw [volume_append, add_mul]
  linarith

/-- A delay of its own for every request, within `jitter` of each other. -/
def Delayed (offset jitter : α) (sent arrived : α × α) : Prop :=
  arrived.2 = sent.2 ∧ sent.1 + offset ≤ arrived.1 ∧
    arrived.1 ≤ sent.1 + offset + jitter

theorem volume_delayed {offset jitter : α} {sent arrived : List (α × α)}
    (hdelayed : List.Forall₂ (Delayed offset jitter) sent arrived)
    (hamount : ∀ request ∈ sent, 0 ≤ request.2) (start finish : α) :
    volume start finish arrived ≤
      volume (start - offset - jitter) (finish - offset) sent := by
  induction hdelayed with
  | nil => exact le_rfl
  | @cons first second sent arrived hfirst _ ih =>
      obtain ⟨hsecond, hlow, hhigh⟩ := hfirst
      obtain ⟨hpos, hrest⟩ := List.forall_mem_cons.mp hamount
      have hle := ih hrest
      rw [volume_cons, volume_cons, hsecond]
      apply add_le_add _ hle
      by_cases hmem : start ≤ second.1 ∧ second.1 ≤ finish
      · rw [if_pos hmem, if_pos ⟨by linarith [hmem.1], by linarith [hmem.2]⟩]
      · rw [if_neg hmem]
        split
        · exact hpos
        · exact le_rfl

/-- Delays may bunch requests up: what arrives within an interval was sent
within one that is longer by the jitter. -/
theorem Bounded.delay {burst rate offset jitter : α}
    {sent arrived : List (α × α)} (h : Bounded burst rate sent)
    (hjitter : 0 ≤ jitter)
    (hdelayed : List.Forall₂ (Delayed offset jitter) sent arrived)
    (hamount : ∀ request ∈ sent, 0 ≤ request.2) :
    Bounded (burst + rate * jitter) rate arrived := by
  intro start finish hle
  have hsent := h (start - offset - jitter) (finish - offset) (by linarith)
  have hvolume := volume_delayed hdelayed hamount start finish
  have hlength : rate * (finish - offset - (start - offset - jitter)) =
      rate * jitter + rate * (finish - start) := by ring
  rw [hlength] at hsent
  linarith

/-! ## Through a capped level -/

def asRequest (attempt : Attempt α) : α × α := (attempt.clock, attempt.amount)

/-- The requests behind the allowed attempts. -/
def allowedPart (attempts : List (Attempt α)) : List (α × α) :=
  (attempts.filter Attempt.allowed).map asRequest

omit [IsStrictOrderedRing α] in
theorem run_map_asRequest (cap : α) (meter : Meter α)
    (requests : List (α × α)) :
    (run cap meter requests).map asRequest = requests := by
  induction requests generalizing meter with
  | nil => rfl
  | cons request rest ih =>
      rw [run, List.map_cons, ih]
      rfl

omit [IsStrictOrderedRing α] in
theorem allowedPart_run_cons (cap : α) (meter : Meter α) (clock amount : α)
    (rest : List (α × α)) :
    allowedPart (run cap meter ((clock, amount) :: rest)) =
      if amount ≤ meter.levelAt cap clock
      then (clock, amount) ::
        allowedPart (run cap (meter.spend cap clock amount) rest)
      else allowedPart (run cap (meter.spend cap clock amount) rest) := by
  rw [run, allowedPart, List.filter_cons]
  by_cases hle : amount ≤ meter.levelAt cap clock
  · simp only [hle, decide_true, if_true, List.map_cons]
    rfl
  · simp only [hle, decide_false, Bool.false_eq_true, if_false]
    rfl

omit [IsStrictOrderedRing α] in
theorem volume_of_forall_mem {start finish : α} {requests : List (α × α)}
    (hmem : ∀ request ∈ requests, start ≤ request.1 ∧ request.1 ≤ finish) :
    volume start finish requests = (requests.map Prod.snd).sum := by
  have hall : ∀ request ∈ requests,
      decide (start ≤ request.1 ∧ request.1 ≤ finish) = true :=
    fun request hrequest => decide_eq_true (hmem request hrequest)
  rw [volume, List.filter_eq_self.mpr hall]

theorem spent_le_sum {attempts : List (Attempt α)}
    (hamount : ∀ attempt ∈ attempts, 0 ≤ attempt.amount) :
    spent attempts ≤ ((attempts.map asRequest).map Prod.snd).sum := by
  induction attempts with
  | nil => exact le_rfl
  | cons attempt rest ih =>
      obtain ⟨hfirst, hrest⟩ := List.forall_mem_cons.mp hamount
      have hle := ih hrest
      simp only [spent, List.map_cons, List.sum_cons, asRequest] at hle ⊢
      apply add_le_add _ hle
      split
      · exact le_rfl
      · exact hfirst

/-- What a level allows of any requests in clock order is bounded by its
cap. -/
theorem volume_allowedPart_le {cap : α} {meter : Meter α}
    {start finish total : α} (hcovered : Covered cap meter start total)
    (htotal : total ≤ cap + (finish - start)) {requests : List (α × α)}
    (hmark : ∀ request ∈ requests, meter.mark ≤ request.1)
    (hsorted : requests.Pairwise fun a b => a.1 ≤ b.1)
    (hamount : ∀ request ∈ requests, 0 ≤ request.2) :
    total + volume start finish (allowedPart (run cap meter requests)) ≤
      cap + (finish - start) := by
  induction requests generalizing meter total with
  | nil =>
      rw [run, allowedPart, List.filter_nil, List.map_nil, volume_nil,
        add_zero]
      exact htotal
  | cons request rest ih =>
      obtain ⟨clock, amount⟩ := request
      obtain ⟨hclock, _⟩ := List.forall_mem_cons.mp hmark
      obtain ⟨hpos, hrest⟩ := List.forall_mem_cons.mp hamount
      obtain ⟨hlater, htail⟩ := List.pairwise_cons.mp hsorted
      have hmarks : ∀ request ∈ rest,
          (meter.spend cap clock amount).mark ≤ request.1 := by
        intro request hmem
        rw [Meter.spend_mark]
        exact hlater request hmem
      by_cases hcounted : (start ≤ clock ∧ clock ≤ finish) ∧
          amount ≤ meter.levelAt cap clock
      · obtain ⟨⟨hstart, hfinish⟩, hle⟩ := hcounted
        have hnow := hcovered clock hclock hstart
        have hnext : Covered cap (meter.spend cap clock amount) start
            (total + if amount ≤ meter.levelAt cap clock then amount
              else 0) := hcovered.spend hclock hstart
        rw [if_pos hle] at hnext
        have hbound := ih hnext (by linarith) hmarks htail hrest
        rw [allowedPart_run_cons, if_pos hle, volume_cons,
          if_pos ⟨hstart, hfinish⟩, ← add_assoc]
        exact hbound
      · have hnext := hcovered.spend_uncounted hclock hpos
        have hbound := ih hnext htotal hmarks htail hrest
        rw [allowedPart_run_cons]
        split
        next hle =>
          have hout : ¬ (start ≤ clock ∧ clock ≤ finish) :=
            fun hmem => hcounted ⟨hmem, hle⟩
          rw [volume_cons, if_neg hout, zero_add]
          exact hbound
        next => exact hbound

theorem bounded_allowedPart {cap : α} (hcap : 0 ≤ cap) {meter : Meter α}
    {requests : List (α × α)}
    (hmark : ∀ request ∈ requests, meter.mark ≤ request.1)
    (hsorted : requests.Pairwise fun a b => a.1 ≤ b.1)
    (hamount : ∀ request ∈ requests, 0 ≤ request.2) :
    Bounded cap 1 (allowedPart (run cap meter requests)) := by
  intro start finish hle
  have hbound := volume_allowedPart_le
    (Covered.nothing cap meter start)
    (add_nonneg hcap (sub_nonneg.mpr hle)) hmark hsorted hamount
  rwa [zero_add, ← one_mul (finish - start)] at hbound

/-- A full level allows all of a bounded stream. -/
theorem allowed_of_bounded {cap mark : α} {requests : List (α × α)}
    (h : Bounded cap 1 requests)
    (hmark : ∀ request ∈ requests, mark ≤ request.1)
    (hsorted : requests.Pairwise fun a b => a.1 ≤ b.1)
    (hamount : ∀ request ∈ requests, 0 ≤ request.2) :
    ∀ attempt ∈ run cap ⟨cap, mark⟩ requests, attempt.allowed = true := by
  intro attempt hmem
  obtain ⟨before, after, hsplit⟩ := List.append_of_mem hmem
  have hmap := run_map_asRequest cap ⟨cap, mark⟩ requests
  have hcons := run_allowed_iff_conforms (Tracks.full cap mark) hmark hsorted
    hsplit
  rw [hsplit] at hmap
  rw [← hmap, List.pairwise_map] at hsorted
  rw [← hmap, List.forall_mem_map] at hamount
  -- the attempts of a stretch fit what the stream may bring in it
  have hfits : ∀ stretch : List (Attempt α),
      stretch.Sublist (before ++ attempt :: after) → ∀ start,
      (∀ other ∈ stretch, start ≤ other.clock ∧
        other.clock ≤ attempt.clock) → start ≤ attempt.clock →
      ((stretch.map asRequest).map Prod.snd).sum ≤
        cap + (attempt.clock - start) := by
    intro stretch hsub start hwithin hle
    have hvolume := volume_sublist (hsub.map asRequest)
      (List.forall_mem_map.mpr hamount) start attempt.clock
    rw [hmap, volume_of_forall_mem (List.forall_mem_map.mpr hwithin)]
      at hvolume
    have hbound := h start attempt.clock hle
    rw [one_mul] at hbound
    exact hvolume.trans hbound
  rw [hcons, List.nil_append]
  constructor
  · have hone := hfits [attempt]
      (List.singleton_sublist.mpr (by simp)) attempt.clock (by simp) le_rfl
    simpa [asRequest] using hone
  · rintro pre entry between rfl _
    rw [List.append_assoc, List.pairwise_append] at hsorted
    obtain ⟨_, hordered, _⟩ := hsorted
    rw [List.cons_append, List.pairwise_cons] at hordered
    obtain ⟨hfirst, hordered⟩ := hordered
    rw [List.pairwise_append] at hordered
    obtain ⟨_, _, hlast⟩ := hordered
    have hentry : entry.clock ≤ attempt.clock := hfirst attempt (by simp)
    have hsub : (entry :: (between ++ [attempt])).Sublist
        (pre ++ entry :: between ++ attempt :: after) := by
      rw [List.append_assoc, List.cons_append]
      refine List.Sublist.trans ?_ (List.sublist_append_right _ _)
      refine (List.Sublist.append_left ?_ _).cons_cons _
      exact List.singleton_sublist.mpr List.mem_cons_self
    have hwithin : ∀ other ∈ entry :: (between ++ [attempt]),
        entry.clock ≤ other.clock ∧ other.clock ≤ attempt.clock := by
      intro other hother
      rcases List.mem_cons.mp hother with rfl | hother
      · exact ⟨le_rfl, hentry⟩
      rcases List.mem_append.mp hother with hother | hother
      · exact ⟨hfirst other (by simp [hother]),
          hlast other hother attempt List.mem_cons_self⟩
      · rw [List.mem_singleton.mp hother]
        exact ⟨hentry, le_rfl⟩
    have hbound := hfits _ hsub entry.clock hwithin hentry
    have hpositive : ∀ other ∈ entry :: between, 0 ≤ other.amount :=
      fun other hother => hamount other
        (List.mem_append_left _ (List.mem_append_right pre hother))
    have hspent := spent_le_sum hpositive
    rw [← List.cons_append, List.map_append, List.map_append,
      List.sum_append, List.map_singleton, List.map_singleton,
      List.sum_singleton] at hbound
    exact (add_le_add hspent le_rfl).trans hbound

end ArrivalCurve

/-! ## Units of time, and spaced requests -/

namespace ArrivalCurve

open VirtualSchedule

variable {α : Type*} [Field α] [LinearOrder α] [IsStrictOrderedRing α]

def rescale (unit : α) (request : α × α) : α × α :=
  (request.1 * unit, request.2)

theorem volume_rescale {unit : α} (hunit : 0 < unit) (start finish : α)
    (requests : List (α × α)) :
    volume (start * unit) (finish * unit) (requests.map (rescale unit)) =
      volume start finish requests := by
  induction requests with
  | nil => rfl
  | cons request rest ih =>
      rw [List.map_cons, volume_cons, volume_cons, ih]
      simp only [rescale, mul_le_mul_iff_left₀ hunit]

theorem bounded_rescale_iff {unit burst rate : α} (hunit : 0 < unit)
    {requests : List (α × α)} :
    Bounded burst rate (requests.map (rescale unit)) ↔
      Bounded burst (rate * unit) requests := by
  constructor
  · intro h start finish hle
    have hbound := h (start * unit) (finish * unit)
      (mul_le_mul_of_nonneg_right hle hunit.le)
    rw [volume_rescale hunit, ← sub_mul, mul_comm (finish - start),
      ← mul_assoc] at hbound
    exact hbound
  · intro h start finish hle
    have hbound := h (start / unit) (finish / unit)
      (div_le_div_of_nonneg_right hle hunit.le)
    rw [← volume_rescale hunit, div_mul_cancel₀ _ hunit.ne',
      div_mul_cancel₀ _ hunit.ne', ← sub_div, mul_assoc,
      mul_div_cancel₀ _ hunit.ne'] at hbound
    exact hbound

omit [IsStrictOrderedRing α] in
theorem volume_map_one (start finish : α) (times : List α) :
    volume start finish (times.map fun time => (time, 1)) =
      within start finish times := by
  induction times with
  | nil => simp [within]
  | cons time rest ih =>
      rw [List.map_cons, volume_cons, ih]
      by_cases hmem : start ≤ time ∧ time ≤ finish
      · rw [within_cons_of_mem hmem, if_pos hmem, Nat.cast_succ, add_comm]
      · rw [within_cons_of_not_mem hmem, if_neg hmem, zero_add]

theorem bounded_of_spaced {slack step : α} (hslack : 0 ≤ slack)
    (hstep : 0 < step) {times : List α} (h : Spaced slack step times) :
    Bounded (1 + slack / step) (1 / step)
      (times.map fun time => (time, 1)) := by
  intro start finish hle
  have hbound := h.within_mul_le hslack hstep.le hle
  rw [volume_map_one, ← mul_le_mul_iff_left₀ hstep]
  refine hbound.trans (le_of_eq ?_)
  field_simp
  ring

end ArrivalCurve
