import TrilliumRatelimit.StructuredPieces

/-!
# Cutting lists into members

A list that is not blank is cut into the texts of its members, each of which
is a list of its own, and any such texts are put together to a list again.
So lists are joined by a comma and a space.
-/

namespace StructuredField

/-! ## Separated members -/

/-- The text is this member from its first character to its last. -/
def IsMember (accepts : Text → Bool) (piece : Text) (member : Member) : Prop :=
  memberOf accepts piece = some (member, [])

def IsOws (text : Text) : Prop := ∀ c ∈ text, isOws c = true

/-- What stands behind a member: the other members, each behind a comma. -/
inductive Separated : List Text → Text → Prop
  | nil {blank : Text} : IsOws blank → Separated [] blank
  | cons {before behind piece rest : Text} {pieces : List Text} :
      IsOws before → IsOws behind → Separated pieces rest →
        Separated (piece :: pieces)
          (before ++ ',' :: (behind ++ (piece ++ rest)))

/-- A list of at least one member, cut into its members. -/
inductive Pieces : List Text → Text → Prop
  | intro {blank piece rest : Text} {pieces : List Text} :
      (∀ c ∈ blank, c = ' ') → Separated pieces rest →
        Pieces (piece :: pieces) (blank ++ (piece ++ rest))

theorem memberOf_head {accepts : Text → Bool} {text rest : Text}
    {member : Member} (h : memberOf accepts text = some (member, rest)) :
    ∃ c tail, text = c :: tail ∧ isBoundary c = false := by
  obtain ⟨⟨start, left⟩, hstart, _⟩ := Option.bind_eq_some_iff.mp h
  cases text with
  | nil => simp [memberStart, bareItem] at hstart
  | cons c tail =>
      refine ⟨c, tail, rfl, ?_⟩
      by_contra hboundary
      rw [Bool.not_eq_false, isBoundary_iff] at hboundary
      rcases hboundary with rfl | rfl | rfl <;>
        simp [memberStart, bareItem] at hstart

theorem IsMember.memberOf_append {accepts : Text → Bool} {piece : Text}
    {member : Member} (h : IsMember accepts piece member) {rest : Text}
    (hrest : Fits rest []) :
    memberOf accepts (piece ++ rest) = some (member, rest) := by
  obtain ⟨read, hread, hother⟩ := memberOf_portable accepts h
  rw [List.append_nil] at hread
  rw [hread]
  exact hother rest hrest

theorem exists_isMember {accepts : Text → Bool} {text rest : Text}
    {member : Member} (h : memberOf accepts text = some (member, rest)) :
    ∃ piece, text = piece ++ rest ∧ IsMember accepts piece member := by
  obtain ⟨piece, hpiece, hother⟩ := memberOf_portable accepts h
  have hnil := hother [] (Fits.nil rest)
  rw [List.append_nil] at hnil
  exact ⟨piece, hpiece, hnil⟩

theorem Separated.fits {pieces : List Text} {rest : Text}
    (h : Separated pieces rest) : Fits rest [] := by
  intro c hc
  left
  have howsHead {blank tail : Text} (hblank : IsOws blank) {b : Char}
      (hb : isBoundary b = true)
      (hc : (blank ++ b :: tail).head? = some c) : isBoundary c = true := by
    cases blank with
    | nil =>
        rw [List.nil_append, List.head?_cons, Option.some.injEq] at hc
        exact hc ▸ hb
    | cons a blank =>
        rw [List.cons_append, List.head?_cons, Option.some.injEq] at hc
        have ha := hblank a List.mem_cons_self
        rw [← hc, isBoundary, ha, Bool.or_true]
  cases h with
  | nil hblank =>
      have hmem := List.mem_of_mem_head? hc
      rw [isBoundary, hblank c hmem, Bool.or_true]
  | cons hbefore _ _ => exact howsHead hbefore (by decide) hc

theorem skipOws_append {blank : Text} (hblank : IsOws blank) (text : Text) :
    skipOws (blank ++ text) = skipOws text := by
  unfold skipOws
  exact List.dropWhile_append_of_pos hblank

theorem skipOws_cons {c : Char} (h : isOws c = false) (tail : Text) :
    skipOws (c :: tail) = c :: tail := by
  simp only [isOws] at h
  simp [skipOws, h]

theorem exists_skipOws (text : Text) :
    ∃ blank, text = blank ++ skipOws text ∧ IsOws blank := by
  refine ⟨text.takeWhile fun c => c = ' ' || c = '\t', ?_, fun c hc => ?_⟩
  · rw [skipOws, List.takeWhile_append_dropWhile]
  · simpa [isOws] using List.mem_takeWhile_imp hc

theorem membersFrom_of_memberOf {accepts : Text → Bool} {first : Bool}
    {text left rest : Text} {member : Member}
    (hnext : nextMember accepts first text =
      (memberStart accepts left).map some)
    (hmember : memberOf accepts left = some (member, rest)) :
    membersFrom accepts first text =
      (membersFrom accepts false rest).map fun members => member :: members := by
  obtain ⟨⟨start, behind⟩, hstart, hbody⟩ := Option.bind_eq_some_iff.mp hmember
  rw [hstart, Option.map_some] at hnext
  rw [membersFrom_cons hnext, hbody]

theorem nextMember_comma (accepts : Text → Bool) {before behind : Text}
    {c : Char} (tail : Text) (hbefore : IsOws before) (hbehind : IsOws behind)
    (hc : isBoundary c = false) :
    nextMember accepts false (before ++ ',' :: (behind ++ c :: tail)) =
      (memberStart accepts (c :: tail)).map some := by
  have hows : isOws c = false := by
    simp only [isBoundary, Bool.or_eq_false_iff] at hc
    exact hc.2
  have hseparator : separator (before ++ ',' :: (behind ++ c :: tail)) =
      some (some (c :: tail)) := by
    rw [separator, skipOws_append hbefore, skipOws_cons (by decide)]
    simp only [skipOws_append hbehind, skipOws_cons hows]
    rfl
  rw [nextMember, if_neg (by decide), hseparator]

theorem nextMember_blank {accepts : Text → Bool} {blank : Text}
    (hblank : IsOws blank) : nextMember accepts false blank = some none := by
  have hskip : skipOws blank = [] := by
    simpa [skipOws] using skipOws_append hblank []
  simp [nextMember, separator, hskip]

theorem nextMember_first (accepts : Text → Bool) {blank : Text}
    {c : Char} (tail : Text) (hblank : ∀ c ∈ blank, c = ' ') (hc : isBoundary c = false) :
    nextMember accepts true (blank ++ c :: tail) =
      (memberStart accepts (c :: tail)).map some := by
  have hsp : c ≠ ' ' := by
    rintro rfl
    exact absurd hc (by decide)
  have hskip : skipSp (blank ++ c :: tail) = c :: tail := by
    rw [skipSp, List.dropWhile_append_of_pos (by simpa using hblank)]
    simp [hsp]
  rw [nextMember, if_pos rfl, hskip]

theorem separator_cases {text : Text} {left : Option Text}
    (h : separator text = some left) :
    (left = none ∧ IsOws text) ∨
    ∃ before behind rest, IsOws before ∧ IsOws behind ∧
      text = before ++ ',' :: (behind ++ rest) ∧ left = some rest := by
  obtain ⟨before, htext, hbefore⟩ := exists_skipOws text
  unfold separator at h
  split at h
  next heq =>
    rw [heq, List.append_nil] at htext
    exact .inl ⟨by simpa using h.symm, htext ▸ hbefore⟩
  next rest heq =>
    obtain ⟨behind, hrest, hbehind⟩ := exists_skipOws rest
    split at h
    next => simp at h
    next =>
      rw [heq, hrest] at htext
      exact .inr ⟨before, behind, skipOws rest, hbefore, hbehind, htext,
        by simpa using h.symm⟩
  next => simp at h

theorem nextMember_false_cases {accepts : Text → Bool} {text : Text}
    {member : Option (Start × Text)}
    (h : nextMember accepts false text = some member) :
    (member = none ∧ IsOws text) ∨
    ∃ before behind left, IsOws before ∧ IsOws behind ∧
      text = before ++ ',' :: (behind ++ left) ∧
        (memberStart accepts left).map some = some member := by
  rw [nextMember, if_neg (by decide)] at h
  split at h
  next => simp at h
  next hend =>
    rcases separator_cases hend with ⟨_, hows⟩ | ⟨_, _, _, _, _, _, hsome⟩
    · exact .inl ⟨by simpa using h.symm, hows⟩
    · simp at hsome
  next left hleft =>
    rcases separator_cases hleft with
      ⟨hnone, _⟩ | ⟨before, behind, rest, hbefore, hbehind, htext, hsome⟩
    · simp at hnone
    · rw [Option.some.injEq] at hsome
      exact .inr ⟨before, behind, rest, hbefore, hbehind, htext, hsome ▸ h⟩

theorem exists_separated {accepts : Text → Bool} {text : Text}
    {members : List Member}
    (h : membersFrom accepts false text = some members) :
    ∃ pieces, Separated pieces text ∧
      List.Forall₂ (IsMember accepts) pieces members := by
  generalize hfirst : false = first at h
  induction first, text using membersFrom.induct accepts
    generalizing members with
  | case1 first text hnone => simp [membersFrom_none hnone] at h
  | case2 first text hend =>
      subst hfirst
      rw [membersFrom_end hend, Option.some.injEq] at h
      subst h
      rcases nextMember_false_cases hend with ⟨_, hows⟩ | ⟨_, _, _, _, _, _, h⟩
      · exact ⟨[], .nil hows, .nil⟩
      · simp at h
  | case3 first text start rest hmember hnone =>
      simp [membersFrom_cons hmember, hnone] at h
  | case4 first text start rest hmember member left hbody ih =>
      subst hfirst
      rw [membersFrom_cons hmember, hbody] at h
      obtain ⟨tail, htail, rfl⟩ := Option.map_eq_some_iff.mp h
      obtain ⟨pieces, hseparated, hpieces⟩ := ih rfl htail
      rcases nextMember_false_cases hmember with
        ⟨h, _⟩ | ⟨before, behind, text, hbefore, hbehind, rfl, hstart⟩
      · simp at h
      · have hread : memberOf accepts text = some (member, left) := by
          rw [memberOf, show memberStart accepts text = some (start, rest) by
            simpa using hstart]
          exact hbody
        obtain ⟨piece, rfl, hpiece⟩ := exists_isMember hread
        exact ⟨piece :: pieces, .cons hbefore hbehind hseparated,
          .cons hpiece hpieces⟩

theorem Separated.membersFrom_eq {accepts : Text → Bool} {text : Text}
    {pieces : List Text} (h : Separated pieces text) {members : List Member}
    (hpieces : List.Forall₂ (IsMember accepts) pieces members) :
    membersFrom accepts false text = some members := by
  induction h generalizing members with
  | nil hblank =>
      cases hpieces
      exact membersFrom_end (nextMember_blank hblank)
  | cons hbefore hbehind hrest ih =>
      cases hpieces with
      | cons hpiece hpieces =>
          have hread := hpiece.memberOf_append hrest.fits
          obtain ⟨c, tail, heq, hc⟩ := memberOf_head hread
          have hnext := nextMember_comma accepts tail hbefore hbehind hc
          rw [← heq] at hnext
          rw [membersFrom_of_memberOf hnext hread, ih hpieces]
          rfl

/-! ## Cutting and joining -/

/-- A line that holds more than white space. -/
def NonBlank (text : Text) : Prop := ∃ c ∈ text, isOws c = false

theorem nextMember_true_cases {accepts : Text → Bool} {text : Text}
    {member : Option (Start × Text)}
    (h : nextMember accepts true text = some member) :
    ∃ blank left, text = blank ++ left ∧ (∀ c ∈ blank, c = ' ') ∧
      ((member = none ∧ left = []) ∨
        (memberStart accepts left).map some = some member) := by
  refine ⟨text.takeWhile fun c => c = ' ', skipSp text, ?_, fun c hc => ?_, ?_⟩
  · rw [skipSp, List.takeWhile_append_dropWhile]
  · simpa using List.mem_takeWhile_imp hc
  · rw [nextMember, if_pos rfl] at h
    split at h
    next heq => exact .inl ⟨by simpa using h.symm, heq⟩
    next => exact .inr h

theorem exists_pieces {accepts : Text → Bool} {text : Text}
    {members : List Member} (h : list accepts text = some members)
    (hnonblank : NonBlank text) :
    ∃ pieces, Pieces pieces text ∧
      List.Forall₂ (IsMember accepts) pieces members := by
  rw [list] at h
  cases hnext : nextMember accepts true text with
  | none => simp [membersFrom_none hnext] at h
  | some member =>
      obtain ⟨blank, left, rfl, hblank, ⟨_, rfl⟩ | hstart⟩ :=
        nextMember_true_cases hnext
      · obtain ⟨c, hmem, hc⟩ := hnonblank
        rw [List.append_nil] at hmem
        rw [hblank c hmem] at hc
        exact absurd hc (by decide)
      · obtain ⟨⟨start, behind⟩, hmember, rfl⟩ :=
          Option.map_eq_some_iff.mp hstart
        rw [membersFrom_cons hnext] at h
        cases hbody : memberBody accepts start behind with
        | none => simp [hbody] at h
        | some body =>
            obtain ⟨member, rest⟩ := body
            simp only [hbody] at h
            obtain ⟨tail, htail, rfl⟩ := Option.map_eq_some_iff.mp h
            obtain ⟨pieces, hseparated, hpieces⟩ := exists_separated htail
            have hread : memberOf accepts left = some (member, rest) := by
              rw [memberOf, hmember]
              exact hbody
            obtain ⟨piece, rfl, hpiece⟩ := exists_isMember hread
            exact ⟨piece :: pieces, .intro hblank hseparated,
              .cons hpiece hpieces⟩

theorem Pieces.list_eq {accepts : Text → Bool} {text : Text}
    {pieces : List Text} (h : Pieces pieces text) {members : List Member}
    (hpieces : List.Forall₂ (IsMember accepts) pieces members) :
    list accepts text = some members := by
  obtain ⟨hblank, hseparated⟩ := h
  cases hpieces with
  | cons hpiece hpieces =>
      have hread := hpiece.memberOf_append hseparated.fits
      obtain ⟨c, tail, heq, hc⟩ := memberOf_head hread
      have hnext := nextMember_first accepts tail hblank hc
      rw [← heq] at hnext
      rw [list, membersFrom_of_memberOf hnext hread,
        hseparated.membersFrom_eq hpieces]
      rfl

theorem IsMember.list_eq {accepts : Text → Bool} {piece : Text}
    {member : Member} (h : IsMember accepts piece member) :
    list accepts piece = some [member] := by
  have hpieces : Pieces [piece] ([] ++ (piece ++ [])) :=
    .intro (by simp) (.nil (by simp [IsOws]))
  have hlist := hpieces.list_eq (.cons h .nil)
  rwa [List.nil_append, List.append_nil] at hlist

theorem Separated.append {pieces more : List Text} {rest text : Text}
    (h : Separated pieces rest) (hmore : Pieces more text) :
    Separated (pieces ++ more) (rest ++ ',' :: ' ' :: text) := by
  induction h with
  | nil hblank =>
      cases hmore with
      | @intro spaces _ _ _ hspaces hseparated =>
          have hows : IsOws (' ' :: spaces) := by
            refine List.forall_mem_cons.mpr ⟨by decide, fun c hc => ?_⟩
            rw [hspaces c hc]
            decide
          exact .cons hblank hows hseparated
  | @cons before behind piece _ _ hbefore hbehind _ ih =>
      have hcons : Separated (piece :: _)
          (before ++ ',' :: (behind ++ (piece ++ _))) :=
        .cons hbefore hbehind ih
      simpa using hcons

theorem Separated.joinTail {pieces : List Text} {rest : Text}
    (h : Separated pieces rest) {cuts : List (List Text)} {lines : List Text}
    (hcuts : List.Forall₂ Pieces cuts lines) :
    Separated (pieces ++ cuts.flatten) (rest ++ joinTail lines) := by
  induction hcuts generalizing pieces rest with
  | nil => simpa [StructuredField.joinTail] using h
  | cons hcut _ ih =>
      have hmore := ih (h.append hcut)
      simpa [StructuredField.joinTail] using hmore

theorem Pieces.join {pieces : List Text} {line : Text}
    (h : Pieces pieces line) {cuts : List (List Text)} {lines : List Text}
    (hcuts : List.Forall₂ Pieces cuts lines) :
    Pieces (pieces ++ cuts.flatten) (joinMembers (line :: lines)) := by
  cases h with
  | @intro blank piece rest pieces hblank hseparated =>
      have hpieces : Pieces (piece :: (pieces ++ cuts.flatten))
          (blank ++ (piece ++ (rest ++ StructuredField.joinTail lines))) :=
        .intro hblank (hseparated.joinTail hcuts)
      simpa [joinMembers_cons] using hpieces

/-- Lines cut into members, each of them a member on its own. -/
def CutInto (accepts : Text → Bool) (pieces lines : List Text) : Prop :=
  ∃ cuts, List.Forall₂ Pieces cuts lines ∧ pieces = cuts.flatten ∧
    ∀ piece ∈ pieces, ∃ member, IsMember accepts piece member

theorem exists_forall₂_isMember {accepts : Text → Bool} {pieces : List Text}
    (h : ∀ piece ∈ pieces, ∃ member, IsMember accepts piece member) :
    ∃ members, List.Forall₂ (IsMember accepts) pieces members := by
  induction pieces with
  | nil => exact ⟨[], .nil⟩
  | cons piece pieces ih =>
      obtain ⟨member, hmember⟩ := h piece List.mem_cons_self
      obtain ⟨members, hmembers⟩ :=
        ih fun piece hmem => h piece (List.mem_cons_of_mem _ hmem)
      exact ⟨member :: members, .cons hmember hmembers⟩

theorem forall₂_isMember_mem {accepts : Text → Bool} {pieces : List Text}
    {members : List Member}
    (h : List.Forall₂ (IsMember accepts) pieces members) :
    ∀ piece ∈ pieces, ∃ member, IsMember accepts piece member := by
  induction h with
  | nil => simp
  | cons hpiece _ ih => exact List.forall_mem_cons.mpr ⟨⟨_, hpiece⟩, ih⟩

/-- Every line has its members, in their order. -/
def MembersOf (accepts : Text → Bool) (members : List (List Member))
    (lines : List Text) : Prop :=
  List.Forall₂ (fun members line => list accepts line = some members)
    members lines

theorem exists_membersOf {accepts : Text → Bool} {lines : List Text}
    (h : ∀ line ∈ lines, (list accepts line).isSome) :
    ∃ members, MembersOf accepts members lines := by
  induction lines with
  | nil => exact ⟨[], .nil⟩
  | cons line lines ih =>
      obtain ⟨members, hmembers⟩ := Option.isSome_iff_exists.mp
        (h line List.mem_cons_self)
      obtain ⟨rest, hrest⟩ :=
        ih fun line hline => h line (List.mem_cons_of_mem _ hline)
      exact ⟨members :: rest, .cons hmembers hrest⟩

theorem MembersOf.exists_cuts {accepts : Text → Bool}
    {members : List (List Member)} {lines : List Text}
    (h : MembersOf accepts members lines)
    (hnonblank : ∀ line ∈ lines, NonBlank line) :
    ∃ cuts, List.Forall₂ Pieces cuts lines ∧
      List.Forall₂ (List.Forall₂ (IsMember accepts)) cuts members := by
  induction h with
  | nil => exact ⟨[], .nil, .nil⟩
  | cons hmembers _ ih =>
      rw [List.forall_mem_cons] at hnonblank
      obtain ⟨cut, hcut, hpieces⟩ := exists_pieces hmembers hnonblank.1
      obtain ⟨cuts, hcuts, hrest⟩ := ih hnonblank.2
      exact ⟨cut :: cuts, .cons hcut hcuts, .cons hpieces hrest⟩

theorem MembersOf.list_join {accepts : Text → Bool}
    {members : List (List Member)} {lines : List Text}
    (h : MembersOf accepts members lines)
    (hnonblank : ∀ line ∈ lines, NonBlank line) :
    list accepts (joinMembers lines) = some members.flatten := by
  obtain ⟨cuts, hcuts, hpieces⟩ := h.exists_cuts hnonblank
  have hflat := List.rel_flatten hpieces
  cases hcuts with
  | nil =>
      cases hpieces
      exact membersFrom_end rfl
  | cons hcut hcuts => exact (hcut.join hcuts).list_eq hflat

theorem CutInto.list_join {accepts : Text → Bool} {pieces lines : List Text}
    (h : CutInto accepts pieces lines) :
    ∃ members, List.Forall₂ (IsMember accepts) pieces members ∧
      list accepts (joinMembers lines) = some members := by
  obtain ⟨cuts, hcuts, rfl, hpieces⟩ := h
  obtain ⟨members, hmembers⟩ := exists_forall₂_isMember hpieces
  refine ⟨members, hmembers, ?_⟩
  cases hcuts with
  | nil =>
      cases hmembers
      exact membersFrom_end rfl
  | cons hcut hcuts => exact (hcut.join hcuts).list_eq hmembers

theorem exists_cutInto {accepts : Text → Bool} {lines : List Text}
    (h : ∀ line ∈ lines, NonBlank line ∧ (list accepts line).isSome) :
    ∃ pieces, CutInto accepts pieces lines := by
  obtain ⟨members, hmembers⟩ := exists_membersOf fun line hline =>
    (h line hline).2
  obtain ⟨cuts, hcuts, hpieces⟩ := hmembers.exists_cuts fun line hline =>
    (h line hline).1
  exact ⟨cuts.flatten, cuts, hcuts, rfl,
    forall₂_isMember_mem (List.rel_flatten hpieces)⟩

end StructuredField
