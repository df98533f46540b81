import TrilliumRatelimit.Store

/-!
# Capacity eviction

At capacity the cache may drop the bucket of a key at any moment, and the next
request rebuilds it full.  Two runs over the same cost-one requests are
compared, one whose bucket is never dropped and one with drops.  Single
decisions are not monotone: the run with drops can deny a request the other
admits.  The totals are: it never falls behind, and each drop puts it ahead by
at most the burst.

The two token levels are `Coupled`.  The lead of the run with drops pays for
its lower level, and the credit its drops bought pays for a higher one.
-/

namespace TrilliumRatelimit

open CappedLevel

inductive KeyEvent where
  | request (now : Instant)
  | drop
  deriving DecidableEq

/-- One key: its entry, the requests admitted so far, and how often an entry
was dropped. -/
structure KeyRun where
  entry : Option Bucket
  admitted : ℕ
  drops : ℕ
  deriving DecidableEq

def KeyRun.init : KeyRun := ⟨none, 0, 0⟩

def KeyRun.step (quota : Quota) (state : KeyRun) : KeyEvent → KeyRun
  | .request now =>
      { state with
        entry := (computeEntry quota state.entry now 1).1
        admitted := state.admitted +
          if (computeEntry quota state.entry now 1).2.any Decision.allowed
          then 1 else 0 }
  | .drop =>
      { state with
        entry := none
        drops := state.drops + if state.entry.isSome then 1 else 0 }

def KeyRun.run (quota : Quota) (events : List KeyEvent) : KeyRun :=
  events.foldl (KeyRun.step quota) KeyRun.init

def KeyEvent.requestTime : KeyEvent → Option Instant
  | .request now => some now
  | .drop => none

/-- The run over the same requests whose entry is never dropped. -/
def KeyRun.runUndropped (quota : Quota) (events : List KeyEvent) : KeyRun :=
  KeyRun.run quota (events.filter fun event => event.requestTime.isSome)

/-! ## Grants of cost-one requests -/

/-- A cost-one request at this level returns a decision that allows it. -/
def Quota.grants (quota : Quota) (level : ℚ) : Bool :=
  (quota.decisionAt level 1).any Decision.allowed

theorem Quota.taken_one (quota : Quota) (level : ℚ) :
    quota.taken level 1 = if quota.grants level then 1 else 0 := by
  unfold Quota.taken Quota.grants
  simp

theorem Quota.grants_iff (quota : Quota) (level : ℚ) :
    quota.grants level = true ↔
      1 ≤ level ∧
        (secondsToRefill (quota.cap - (level - 1))
          (refillPerSecond quota)).isSome := by
  simpa [Quota.grants] using quota.any_allowed_iff level 1

theorem Quota.grants_mono (quota : Quota) {level higher : ℚ}
    (hle : level ≤ higher) (h : quota.grants level = true) :
    quota.grants higher = true := by
  rw [Quota.grants_iff] at h ⊢
  exact ⟨h.1.trans hle, secondsToRefill_isSome_mono (by linarith) h.2⟩

/-! ## The two runs stay coupled -/

structure KeyRun.Compared (quota : Quota) (now : Instant)
    (kept dropped : KeyRun) (lead credit : ℕ) : Prop where
  coupled :
    Coupled (entryLevel quota kept.entry now)
      (entryLevel quota dropped.entry now) lead credit
  lead_eq : dropped.admitted = kept.admitted + lead
  credit_eq :
    kept.admitted + quota.burst.toNat * dropped.drops =
      dropped.admitted + credit
  keptNonneg : EntryNonneg kept.entry
  droppedNonneg : EntryNonneg dropped.entry
  keptBefore : EntryBefore quota kept.entry now
  droppedBefore : EntryBefore quota dropped.entry now

theorem KeyRun.init_compared (quota : Quota) (now : Instant) :
    KeyRun.Compared quota now KeyRun.init KeyRun.init 0 0 where
  coupled := Coupled.refl _
  lead_eq := rfl
  credit_eq := rfl
  keptNonneg := by simp [KeyRun.init, EntryNonneg]
  droppedNonneg := by simp [KeyRun.init, EntryNonneg]
  keptBefore := by simp [KeyRun.init, EntryBefore]
  droppedBefore := by simp [KeyRun.init, EntryBefore]

theorem KeyRun.Compared.advance {quota : Quota} {now later : Instant}
    {kept dropped : KeyRun} {lead credit : ℕ}
    (h : KeyRun.Compared quota now kept dropped lead credit)
    (hle : now ≤ later) :
    KeyRun.Compared quota later kept dropped lead credit := by
  have hunits := quota.units_mono hle
  refine { h with
    coupled := ?_
    keptBefore := h.keptBefore.mono hunits
    droppedBefore := h.droppedBefore.mono hunits }
  rw [entryLevel_later h.keptBefore hunits,
    entryLevel_later h.droppedBefore hunits]
  exact h.coupled.refill _ _

theorem KeyRun.entryLevel_step_request (quota : Quota) {state : KeyRun}
    (hnonneg : EntryNonneg state.entry) (now : Instant) :
    entryLevel quota (state.step quota (.request now)).entry now =
      entryLevel quota state.entry now -
        if quota.grants (entryLevel quota state.entry now) then 1 else 0 := by
  rw [← Quota.taken_one]
  exact entryLevel_computeEntry now 1 hnonneg

theorem KeyRun.admitted_step_request (quota : Quota) (state : KeyRun)
    (now : Instant) :
    (state.step quota (.request now)).admitted =
      state.admitted +
        if quota.grants (entryLevel quota state.entry now) then 1 else 0 := by
  unfold Quota.grants
  rw [← computeEntry_decision]
  rfl

/-- Whichever of the two runs grants the request, the lead keeps the count. -/
theorem KeyRun.Compared.request {quota : Quota} {now : Instant}
    {kept dropped : KeyRun} {lead credit : ℕ}
    (h : KeyRun.Compared quota now kept dropped lead credit) :
    ∃ lead' credit',
      KeyRun.Compared quota now (kept.step quota (.request now))
        (dropped.step quota (.request now)) lead' credit' := by
  have hkept := KeyRun.entryLevel_step_request quota h.keptNonneg now
  have hdropped := KeyRun.entryLevel_step_request quota h.droppedNonneg now
  have hkeptCount := KeyRun.admitted_step_request quota kept now
  have hdroppedCount := KeyRun.admitted_step_request quota dropped now
  have hlead := h.lead_eq
  have hcredit := h.credit_eq
  have hdrops : (dropped.step quota (.request now)).drops = dropped.drops :=
    rfl
  obtain ⟨lead', credit', hcoupled, hcount, hsum⟩ :=
    h.coupled.request (fun level => quota.grants level = true)
      (fun hle => quota.grants_mono hle)
  rw [← hkept, ← hdropped] at hcoupled
  refine ⟨lead', credit', hcoupled, ?_, ?_,
    h.keptNonneg.computeEntry now 1, h.droppedNonneg.computeEntry now 1,
    h.keptBefore.computeEntry 1, h.droppedBefore.computeEntry 1⟩
  · omega
  · rw [hdrops]
    omega

theorem KeyRun.Compared.drop {quota : Quota} {now : Instant}
    {kept dropped : KeyRun} {lead credit : ℕ}
    (h : KeyRun.Compared quota now kept dropped lead credit) :
    ∃ credit',
      KeyRun.Compared quota now kept (dropped.step quota .drop)
        lead credit' := by
  have hnonneg : EntryNonneg (dropped.step quota .drop).entry := by
    simp [KeyRun.step, EntryNonneg]
  have hbefore : EntryBefore quota (dropped.step quota .drop).entry now := by
    simp [KeyRun.step, EntryBefore]
  have hcredit := h.credit_eq
  cases hentry : dropped.entry with
  | none =>
      have hcoupled := h.coupled
      rw [hentry] at hcoupled
      refine ⟨credit, hcoupled, h.lead_eq, ?_, h.keptNonneg, hnonneg,
        h.keptBefore, hbefore⟩
      simpa [KeyRun.step, hentry] using hcredit
  | some bucket =>
      refine ⟨credit + quota.burst.toNat, ?_, h.lead_eq, ?_, h.keptNonneg,
        hnonneg, h.keptBefore, hbefore⟩
      · rw [KeyRun.step, entryLevel_none]
        exact coupled_fill_second lead credit
          (entryLevel_nonneg h.keptNonneg now)
          (entryLevel_le_cap quota kept.entry now)
      · simp only [KeyRun.step, hentry, Option.isSome_some, if_true]
        rw [mul_add]
        omega

theorem KeyRun.Compared.foldl {quota : Quota} {now : Instant}
    {kept dropped : KeyRun} {lead credit : ℕ}
    (h : KeyRun.Compared quota now kept dropped lead credit)
    {events : List KeyEvent}
    (hfrom : ∀ t ∈ events.filterMap KeyEvent.requestTime, now ≤ t)
    (hsorted : (events.filterMap KeyEvent.requestTime).Pairwise (· ≤ ·)) :
    ∃ last lead' credit',
      KeyRun.Compared quota last
        ((events.filter fun event => event.requestTime.isSome).foldl
          (KeyRun.step quota) kept)
        (events.foldl (KeyRun.step quota) dropped) lead' credit' := by
  induction events generalizing now kept dropped lead credit with
  | nil => exact ⟨now, lead, credit, h⟩
  | cons event rest ih =>
      cases event with
      | request t =>
          have htime : now ≤ t := hfrom t (by simp [KeyEvent.requestTime])
          simp only [List.filterMap_cons, KeyEvent.requestTime,
            List.pairwise_cons] at hsorted
          obtain ⟨lead', credit', hnext⟩ := (h.advance htime).request
          exact ih hnext hsorted.1 hsorted.2
      | drop =>
          obtain ⟨credit', hnext⟩ := h.drop
          exact ih hnext hfrom hsorted

/-- With the same cost-one requests, the run with drops never falls behind,
and each drop puts it ahead by at most the burst. -/
theorem eviction_admits_at_most_burst_per_drop (quota : Quota)
    {events : List KeyEvent}
    (hsorted : (events.filterMap KeyEvent.requestTime).Pairwise (· ≤ ·)) :
    (KeyRun.runUndropped quota events).admitted ≤
        (KeyRun.run quota events).admitted ∧
      (KeyRun.run quota events).admitted ≤
        (KeyRun.runUndropped quota events).admitted +
          quota.burst.toNat * (KeyRun.run quota events).drops := by
  obtain ⟨last, lead, credit, hcompared⟩ :=
    (KeyRun.init_compared quota Instant.earliest).foldl
      (fun t _ => t.earliest_le) hsorted
  have hlead := hcompared.lead_eq
  have hcredit := hcompared.credit_eq
  unfold KeyRun.runUndropped KeyRun.run
  constructor <;> omega

/-- One token a second: the drop lets a second request pass, and the bound is
met exactly. -/
theorem eviction_admits_at_most_burst_per_drop_once :
    (KeyRun.run (Quota.perSecond 1)
        [.request (Instant.atSec 0), .drop,
          .request (Instant.atSec 0)]).admitted = 2 ∧
      2 ≤ (KeyRun.runUndropped (Quota.perSecond 1)
        [.request (Instant.atSec 0), .drop,
          .request (Instant.atSec 0)]).admitted + 1 := by
  have hsorted : (List.filterMap KeyEvent.requestTime
      [.request (Instant.atSec 0), .drop,
        .request (Instant.atSec 0)]).Pairwise (· ≤ ·) := by
    decide
  have hbound :=
    (eviction_admits_at_most_burst_per_drop (Quota.perSecond 1) hsorted).2
  have hadmitted : (KeyRun.run (Quota.perSecond 1)
      [.request (Instant.atSec 0), .drop,
        .request (Instant.atSec 0)]).admitted = 2 := by
    decide +kernel
  have hdrops : (Quota.perSecond 1).burst.toNat * (KeyRun.run
      (Quota.perSecond 1) [.request (Instant.atSec 0), .drop,
        .request (Instant.atSec 0)]).drops = 1 := by
    decide +kernel
  rw [hadmitted, hdrops] at hbound
  exact ⟨hadmitted, hbound⟩

end TrilliumRatelimit
