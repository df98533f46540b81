import TrilliumRatelimit.RateLimit
import TrilliumRatelimit.RateLimitPolicy
import TrilliumRatelimit.StructuredText

/-!
# Canonical policies and service limits

A parsed policy or service limit is canonical: its texts are printable, its
numbers have at most fifteen digits, its window is a positive number of whole
seconds.  A canonical one is read back from its own `Display`, whatever other
members stand around it.
-/

namespace TrilliumRatelimit

open StructuredField

/-! ## Escaping -/

theorem unescape_escapeChars (value : Text) :
    unescape (escapeChars value) = value := by
  induction value with
  | nil => rfl
  | cons c rest ih =>
      unfold escapeChars
      split
      · rw [unescape_backslash, ih]
      · rename_i h
        rw [unescape_cons (fun hc => h (.inl hc)), ih]

theorem mem_of_mem_unescape {c : Char} {raw : Text} (h : c ∈ unescape raw) :
    c ∈ raw := by
  fun_induction unescape raw with
  | case1 => simp at h
  | case2 => simp at h
  | case3 escaped rest ih =>
      rcases List.mem_cons.mp h with rfl | hrest
      · simp
      · exact List.mem_cons_of_mem _ (List.mem_cons_of_mem _ (ih hrest))
  | case4 first rest _ ih =>
      rcases List.mem_cons.mp h with rfl | hrest
      · exact List.mem_cons_self
      · exact List.mem_cons_of_mem _ (ih hrest)

def Printable (text : Text) : Prop := ∀ c ∈ text, isPrintable c = true

instance (text : Text) : Decidable (Printable text) :=
  decidable_of_iff (text.all isPrintable = true) List.all_eq_true

theorem Printable.quotable {value : Text} (h : Printable value) :
    Quotable (escapeChars value) := by
  intro rest
  induction value with
  | nil => exact stringBody_quote rest
  | cons c tail ih =>
      obtain ⟨hc, htail⟩ := List.forall_mem_cons.mp h
      have hrest := ih htail
      unfold escapeChars
      split
      next hescape =>
        simp only [List.cons_append,
          stringBody_escaped hescape.symm, hrest, Option.map_some]
      next hplain =>
        simp only [not_or] at hplain
        simp only [List.cons_append,
          stringBody_plain hc hplain.2 hplain.1, hrest, Option.map_some]

/-! ## Reading in general -/

section

variable {α Fields : Type} {sf : SfParser} {accepts : Text → Bool}
  {format : ItemFormat α Fields}

/-- What every legal parameter preserves holds of the fields in the end. -/
theorem ItemFormat.Reading.params_induction {reading : format.Reading}
    (P : Fields → Prop)
    (hset : ∀ {fields key bare}, P fields → BareItem.Legal accepts bare →
      P (reading.set fields key bare))
    {params : Params} (hlegal : params.Legal accepts) {fields : Fields}
    (hfields : P fields) : P (reading.params params fields) := by
  induction params generalizing fields with
  | nil => exact hfields
  | cons param params ih =>
      obtain ⟨hparam, hparams⟩ := List.forall_mem_cons.mp hlegal
      exact ih hparams (hset hfields hparam)

theorem exists_member_of_parseListWith (hsf : sf.FollowsRfc9651 accepts)
    (reading : format.Reading) {input : Text} {items : List α}
    (h : parseListWith sf format input = .ok items) :
    ∀ item ∈ items, ∃ raw params, Printable raw ∧
      Params.Legal accepts params ∧
      format.finish (unescape raw) (reading.params params format.fields) =
        some item := by
  rw [parseListWith_eq hsf reading] at h
  cases hmembers : list accepts input with
  | none => simp [hmembers] at h
  | some members =>
      rw [hmembers, Except.ok.injEq] at h
      subst h
      intro item hitem
      obtain ⟨member, hmem, hread⟩ := List.mem_filterMap.mp hitem
      have hlegal := membersFrom_legal hmembers member hmem
      cases member with
      | item item =>
          obtain ⟨bare, params⟩ := item
          cases bare with
          | string raw => exact ⟨raw, params, hlegal.1, hlegal.2, hread⟩
          | _ => simp [ItemFormat.Reading.member] at hread
      | innerList => simp [ItemFormat.Reading.member] at hread

/-- Items are parsed from their joined texts if each text spells a member that
is read as its item. -/
theorem parseListWith_joinMembers (hsf : sf.FollowsRfc9651 accepts)
    (reading : format.Reading) {display : α → Text} {memberOf : α → Member}
    {items : List α}
    (hspells : ∀ item ∈ items,
      SpellsMember accepts (display item) (memberOf item))
    (hread : ∀ item ∈ items, reading.member (memberOf item) = some item) :
    parseListWith sf format (joinMembers (items.map display)) =
      .ok items := by
  have hforall : List.Forall₂ (SpellsMember accepts) (items.map display)
      (items.map memberOf) := by
    rw [List.forall₂_map_left_iff, List.forall₂_map_right_iff,
      List.forall₂_same]
    exact hspells
  rw [parseListWith_eq hsf reading, list_join hforall]
  simp only [List.filterMap_map]
  congr 1
  exact (List.filterMap_congr hread).trans List.filterMap_some

end

/-! ## Canonical values -/

/-- At most fifteen digits. -/
def Short (n : UInt64) : Prop := n.toNat < 10 ^ 15

def WholeSecs (d : Duration) : Prop :=
  ∃ secs, d = Duration.fromSecs secs ∧ Short secs

def IsPartitionKey (accepts : Text → Bool) (text : Text) : Prop :=
  (∀ c ∈ text, isBase64Char c = true) ∧ accepts text = true

def QuotaUnit.Canonical (unit : QuotaUnit) : Prop :=
  Printable unit.asStr ∧ QuotaUnit.fromCow unit.asStr = unit

structure PolicyFields.Canonical (accepts : Text → Bool)
    (fields : PolicyFields) : Prop where
  quota : ∀ quota ∈ fields.quota, Short quota
  unit : fields.unit.Canonical
  window : ∀ window ∈ fields.window, WholeSecs window ∧ 0 < window.nanos
  partitionKey : ∀ key ∈ fields.partitionKey, IsPartitionKey accepts key

structure LimitFields.Canonical (accepts : Text → Bool)
    (fields : LimitFields) : Prop where
  remaining : ∀ remaining ∈ fields.remaining, Short remaining
  reset : ∀ reset ∈ fields.reset, WholeSecs reset
  partitionKey : ∀ key ∈ fields.partitionKey, IsPartitionKey accepts key

def RateLimitPolicy.fields (policy : RateLimitPolicy) : PolicyFields :=
  ⟨some policy.quota, policy.unit, policy.window, policy.partitionKey⟩

def RateLimit.fields (limit : RateLimit) : LimitFields :=
  ⟨some limit.remaining, limit.reset, limit.partitionKey⟩

/-- Exactly what a policy parsed from some text looks like. -/
def RateLimitPolicy.Canonical (accepts : Text → Bool)
    (policy : RateLimitPolicy) : Prop :=
  Printable policy.name ∧ policy.fields.Canonical accepts

def RateLimit.Canonical (accepts : Text → Bool) (limit : RateLimit) : Prop :=
  Printable limit.name ∧ limit.fields.Canonical accepts

theorem readCount_toNat {n : ℤ} (hn : n.natAbs < 10 ^ 15) :
    (readCount n).toNat = n.toNat :=
  UInt64.toNat_ofNat_of_lt' (by
    have hsize : 10 ^ 15 ≤ UInt64.size := by decide
    omega)

theorem readCount_short {n : ℤ} (hn : n.natAbs < 10 ^ 15) :
    Short (readCount n) := by
  rw [Short, readCount_toNat hn]
  omega

theorem Printable.unescape {raw : Text} (h : Printable raw) :
    Printable (unescape raw) := fun c hc => h c (mem_of_mem_unescape hc)

theorem QuotaUnit.fromCow_canonical {text : Text} (h : Printable text) :
    (QuotaUnit.fromCow text).Canonical := by
  have htext : (QuotaUnit.fromCow text).asStr = text := by
    unfold QuotaUnit.fromCow
    split_ifs with hrequests hbytes hconcurrent
    · exact hrequests.symm
    · exact hbytes.symm
    · exact hconcurrent.symm
    · rfl
  rw [QuotaUnit.Canonical, htext]
  exact ⟨h, rfl⟩

theorem QuotaUnit.requests_canonical : QuotaUnit.requests.Canonical :=
  ⟨by decide +kernel, rfl⟩

theorem PolicyFields.Canonical.set {accepts : Text → Bool}
    {fields : PolicyFields} (h : fields.Canonical accepts) (key : Text)
    {bare : BareItem} (hbare : bare.Legal accepts) :
    (fields.set key bare).Canonical accepts := by
  obtain ⟨hquota, hunit, hwindow, hkey⟩ := h
  cases bare with
  | integer n =>
      simp only [PolicyFields.set]
      split_ifs with hq hw
      · refine ⟨?_, hunit, hwindow, hkey⟩
        rintro _ ⟨⟩
        exact readCount_short hbare
      · refine ⟨hquota, hunit, ?_, hkey⟩
        rintro _ ⟨⟩
        refine ⟨⟨_, rfl, readCount_short hbare⟩, ?_⟩
        rw [Duration.fromSecs_nanos, readCount_toNat hbare]
        have hnanos : 0 < nanosPerSec := by decide
        have hsecs : 0 < n.toNat := by omega
        positivity
      · exact ⟨hquota, hunit, hwindow, hkey⟩
  | string raw =>
      simp only [PolicyFields.set]
      split_ifs
      · exact ⟨hquota, QuotaUnit.fromCow_canonical (Printable.unescape hbare),
          hwindow, hkey⟩
      · exact ⟨hquota, hunit, hwindow, hkey⟩
  | byteSequence raw =>
      simp only [PolicyFields.set]
      split_ifs
      · refine ⟨hquota, hunit, hwindow, ?_⟩
        rintro _ ⟨⟩
        exact hbare
      · exact ⟨hquota, hunit, hwindow, hkey⟩
  | _ => exact ⟨hquota, hunit, hwindow, hkey⟩

theorem LimitFields.Canonical.set {accepts : Text → Bool}
    {fields : LimitFields} (h : fields.Canonical accepts) (key : Text)
    {bare : BareItem} (hbare : bare.Legal accepts) :
    (fields.set key bare).Canonical accepts := by
  obtain ⟨hremaining, hreset, hkey⟩ := h
  cases bare with
  | integer n =>
      simp only [LimitFields.set]
      split_ifs with hr ht
      · refine ⟨?_, hreset, hkey⟩
        rintro _ ⟨⟩
        exact readCount_short hbare
      · refine ⟨hremaining, ?_, hkey⟩
        rintro _ ⟨⟩
        exact ⟨_, rfl, readCount_short hbare⟩
      · exact ⟨hremaining, hreset, hkey⟩
  | byteSequence raw =>
      simp only [LimitFields.set]
      split_ifs
      · refine ⟨hremaining, hreset, ?_⟩
        rintro _ ⟨⟩
        exact hbare
      · exact ⟨hremaining, hreset, hkey⟩
  | _ => exact ⟨hremaining, hreset, hkey⟩

theorem RateLimitPolicy.canonical_of_parseList {sf : SfParser}
    {accepts : Text → Bool} (hsf : sf.FollowsRfc9651 accepts) {input : Text}
    {policies : List RateLimitPolicy}
    (h : RateLimitPolicy.parseList sf input = .ok policies) :
    ∀ policy ∈ policies, policy.Canonical accepts := by
  intro policy hmem
  obtain ⟨raw, params, hraw, hparams, hfinish⟩ :=
    exists_member_of_parseListWith hsf policyReading h policy hmem
  have hstart : policyFormat.fields.Canonical accepts :=
    ⟨nofun, QuotaUnit.requests_canonical, nofun, nofun⟩
  have hfields := policyReading.params_induction
    (PolicyFields.Canonical accepts)
    (fun hfields hbare => PolicyFields.Canonical.set hfields _ hbare)
    hparams hstart
  obtain ⟨quota, hquota, rfl⟩ := Option.map_eq_some_iff.mp hfinish
  refine ⟨hraw.unescape, ?_⟩
  simp only [RateLimitPolicy.fields, ← hquota]
  exact hfields

theorem RateLimit.canonical_of_parseList {sf : SfParser}
    {accepts : Text → Bool} (hsf : sf.FollowsRfc9651 accepts) {input : Text}
    {limits : List RateLimit}
    (h : RateLimit.parseList sf input = .ok limits) :
    ∀ limit ∈ limits, limit.Canonical accepts := by
  intro limit hmem
  obtain ⟨raw, params, hraw, hparams, hfinish⟩ :=
    exists_member_of_parseListWith hsf limitReading h limit hmem
  have hstart : limitFormat.fields.Canonical accepts :=
    ⟨nofun, nofun, nofun⟩
  have hfields := limitReading.params_induction
    (LimitFields.Canonical accepts)
    (fun hfields hbare => LimitFields.Canonical.set hfields _ hbare)
    hparams hstart
  obtain ⟨remaining, hremaining, rfl⟩ := Option.map_eq_some_iff.mp hfinish
  refine ⟨hraw.unescape, ?_⟩
  simp only [RateLimit.fields, ← hremaining]
  exact hfields

/-! ## Spelling what is displayed -/

theorem isKey_q : IsKey "q".toList := .of_all (by decide) (by decide)

theorem isKey_qu : IsKey "qu".toList := .of_all (by decide) (by decide)

theorem isKey_w : IsKey "w".toList := .of_all (by decide) (by decide)

theorem isKey_pk : IsKey "pk".toList := .of_all (by decide) (by decide)

theorem isKey_r : IsKey "r".toList := .of_all (by decide) (by decide)

theorem isKey_t : IsKey "t".toList := .of_all (by decide) (by decide)

theorem spells_decimalText (accepts : Text → Bool) {n : UInt64}
    (h : Short n) : Spells accepts (decimalText n) (.integer n.toNat) :=
  spells_integer accepts h

theorem readCount_natCast (n : UInt64) : readCount n.toNat = n := by
  rw [readCount, Int.toNat_natCast, UInt64.ofNat_toNat]

theorem WholeSecs.asSecs {d : Duration} (h : WholeSecs d) :
    Short d.asSecs ∧ Duration.fromSecs d.asSecs = d := by
  obtain ⟨secs, rfl, hshort⟩ := h
  rw [Duration.asSecs_fromSecs]
  exact ⟨hshort, rfl⟩

def RateLimitPolicy.unitParams (policy : RateLimitPolicy) : Params :=
  if policy.unit = .requests then []
  else [("qu".toList, .string (escapeChars policy.unit.asStr))]

def secsParams (key : Text) : Option Duration → Params
  | none => []
  | some secs => [(key, .integer secs.asSecs.toNat)]

def partitionKeyParams : Option Text → Params
  | none => []
  | some partitionKey => [("pk".toList, .byteSequence partitionKey)]

/-- What a policy is displayed as. -/
def RateLimitPolicy.member (policy : RateLimitPolicy) : Member :=
  .item ⟨.string (escapeChars policy.name),
    [("q".toList, .integer policy.quota.toNat)] ++ policy.unitParams ++
      secsParams "w".toList policy.window ++
      partitionKeyParams policy.partitionKey⟩

/-- What a service limit is displayed as. -/
def RateLimit.member (limit : RateLimit) : Member :=
  .item ⟨.string (escapeChars limit.name),
    [("r".toList, .integer limit.remaining.toNat)] ++
      secsParams "t".toList limit.reset ++
      partitionKeyParams limit.partitionKey⟩

theorem spells_secsParams (accepts : Text → Bool) {key : Text}
    (hkey : IsKey key) {secs : Option Duration}
    (h : ∀ d ∈ secs, Short d.asSecs) :
    SpellsParams accepts
      (secs.elim [] fun secs =>
        ';' :: key ++ '=' :: decimalText secs.asSecs)
      (secsParams key secs) := by
  cases secs with
  | none => exact .nil
  | some secs =>
      exact .single hkey (spells_decimalText accepts (h secs rfl))

theorem parameters_secs_long {accepts : Text → Bool} {text key : Text}
    {params : Params} (h : SpellsParams accepts text params) (hkey : IsKey key)
    {secs : UInt64} (hlong : ¬ Short secs) (rest : Text) :
    parameters accepts
      ((text ++ (';' :: key ++ '=' :: decimalText secs)) ++ rest) =
        none := by
  have hdigits : ∀ c ∈ decimalText secs, Char.isDigit c = true :=
    fun c hc => Nat.isDigit_of_mem_toDigits (by decide) (by decide) hc
  have hlength : 15 < (decimalText secs).length := by
    by_contra hle
    exact hlong ((Nat.length_toDigits_le_iff (by decide) (by decide)).mp
      (not_lt.mp hle))
  have hparam := parameter_key accepts hkey (decimalText secs ++ rest)
  rw [bareItem_long accepts hdigits hlength] at hparam
  have hstops : Stops (';' :: (key ++ '=' :: (decimalText secs ++ rest))) :=
    fun c hc => .inl (by simpa using hc.symm)
  have htext : (text ++ (';' :: key ++ '=' :: decimalText secs)) ++ rest =
      text ++ ';' :: (key ++ '=' :: (decimalText secs ++ rest)) := by simp
  rw [htext, h.parameters_append hstops, parameters_none hparam]
  rfl

theorem spells_partitionKeyParams {accepts : Text → Bool}
    {partitionKey : Option Text}
    (h : ∀ key ∈ partitionKey, IsPartitionKey accepts key) :
    SpellsParams accepts
      (partitionKey.elim [] fun partitionKey =>
        ";pk=:".toList ++ partitionKey ++ [':'])
      (partitionKeyParams partitionKey) := by
  cases partitionKey with
  | none => exact .nil
  | some partitionKey =>
      obtain ⟨hchars, haccepts⟩ := h partitionKey rfl
      exact .single isKey_pk (spells_byteSequence hchars haccepts)

theorem spells_unitParams {accepts : Text → Bool} {policy : RateLimitPolicy}
    (h : policy.unit.Canonical) :
    SpellsParams accepts
      (if policy.unit = .requests then []
        else ";qu=".toList ++ writeSfString policy.unit.asStr)
      policy.unitParams := by
  unfold RateLimitPolicy.unitParams
  split
  next => exact .nil
  next =>
    exact .single isKey_qu (spells_string accepts h.1.quotable)

theorem RateLimitPolicy.display_eq (policy : RateLimitPolicy) :
    policy.display = '"' :: escapeChars policy.name ++ '"' ::
      (((';' :: "q".toList ++ '=' :: decimalText policy.quota ++
        if policy.unit = .requests then []
        else ";qu=".toList ++ writeSfString policy.unit.asStr) ++
        policy.window.elim [] fun secs =>
          ';' :: "w".toList ++ '=' :: decimalText secs.asSecs) ++
        policy.partitionKey.elim [] fun partitionKey =>
          ";pk=:".toList ++ partitionKey ++ [':']) := by
  have hquota : ";q=".toList = ';' :: "q".toList ++ ['='] := by decide
  have hwindow : ";w=".toList = ';' :: "w".toList ++ ['='] := by decide
  unfold RateLimitPolicy.display writeSfString
  rw [hquota, hwindow]
  -- the letters do not matter, and simp is slow on literals
  generalize ";pk=:".toList = pk
  generalize ";qu=".toList = qu
  generalize "q".toList = q
  generalize "w".toList = w
  cases policy.window <;> cases policy.partitionKey <;> simp

theorem RateLimit.display_eq (limit : RateLimit) :
    limit.display = '"' :: escapeChars limit.name ++ '"' ::
      ((';' :: "r".toList ++ '=' :: decimalText limit.remaining ++
        limit.reset.elim [] fun secs =>
          ';' :: "t".toList ++ '=' :: decimalText secs.asSecs) ++
        limit.partitionKey.elim [] fun partitionKey =>
          ";pk=:".toList ++ partitionKey ++ [':']) := by
  have hremaining : ";r=".toList = ';' :: "r".toList ++ ['='] := by decide
  have hreset : ";t=".toList = ';' :: "t".toList ++ ['='] := by decide
  unfold RateLimit.display writeSfString
  rw [hremaining, hreset]
  generalize ";pk=:".toList = pk
  generalize "r".toList = r
  generalize "t".toList = t
  cases limit.reset <;> cases limit.partitionKey <;> simp

/-- A policy that is displayed as a member if its window has few digits. -/
structure RateLimitPolicy.Spellable (accepts : Text → Bool)
    (policy : RateLimitPolicy) : Prop where
  name : Printable policy.name
  quota : Short policy.quota
  unit : policy.unit.Canonical
  partitionKey : ∀ key ∈ policy.partitionKey, IsPartitionKey accepts key

structure RateLimit.Spellable (accepts : Text → Bool) (limit : RateLimit) :
    Prop where
  name : Printable limit.name
  remaining : Short limit.remaining
  partitionKey : ∀ key ∈ limit.partitionKey, IsPartitionKey accepts key

theorem RateLimitPolicy.Spellable.spells {accepts : Text → Bool}
    {policy : RateLimitPolicy} (h : policy.Spellable accepts)
    (hwindow : ∀ window ∈ policy.window, Short window.asSecs) :
    SpellsMember accepts policy.display policy.member := by
  have hquota := SpellsParams.single isKey_q
    (spells_decimalText accepts h.quota)
  rw [policy.display_eq]
  apply spellsMember_string h.name.quotable
  exact ((hquota.append (spells_unitParams h.unit)).append
    (spells_secsParams accepts isKey_w hwindow)).append
      (spells_partitionKeyParams h.partitionKey)

theorem RateLimit.Spellable.spells {accepts : Text → Bool}
    {limit : RateLimit} (h : limit.Spellable accepts)
    (hreset : ∀ reset ∈ limit.reset, Short reset.asSecs) :
    SpellsMember accepts limit.display limit.member := by
  have hremaining := SpellsParams.single isKey_r
    (spells_decimalText accepts h.remaining)
  rw [limit.display_eq]
  apply spellsMember_string h.name.quotable
  exact (hremaining.append (spells_secsParams accepts isKey_t hreset)).append
    (spells_partitionKeyParams h.partitionKey)

theorem RateLimitPolicy.Spellable.list_eq_none {accepts : Text → Bool}
    {policy : RateLimitPolicy} (h : policy.Spellable accepts)
    {window : Duration} (hwindow : policy.window = some window)
    (hlong : ¬ Short window.asSecs) : list accepts policy.display = none := by
  have hquota := SpellsParams.single isKey_q
    (spells_decimalText accepts h.quota)
  rw [policy.display_eq, hwindow]
  exact list_string_none h.name.quotable
    (fun c hc => .inl (Option.some.inj hc).symm)
    (parameters_secs_long (hquota.append (spells_unitParams h.unit)) isKey_w
      hlong _)

theorem RateLimit.Spellable.list_eq_none {accepts : Text → Bool}
    {limit : RateLimit} (h : limit.Spellable accepts) {reset : Duration}
    (hreset : limit.reset = some reset) (hlong : ¬ Short reset.asSecs) :
    list accepts limit.display = none := by
  have hremaining := SpellsParams.single isKey_r
    (spells_decimalText accepts h.remaining)
  rw [limit.display_eq, hreset]
  exact list_string_none h.name.quotable
    (fun c hc => .inl (Option.some.inj hc).symm)
    (parameters_secs_long hremaining isKey_t hlong _)

theorem RateLimitPolicy.Canonical.spellable {accepts : Text → Bool}
    {policy : RateLimitPolicy} (h : policy.Canonical accepts) :
    policy.Spellable accepts :=
  ⟨h.1, h.2.quota _ rfl, h.2.unit, h.2.partitionKey⟩

theorem RateLimit.Canonical.spellable {accepts : Text → Bool}
    {limit : RateLimit} (h : limit.Canonical accepts) :
    limit.Spellable accepts :=
  ⟨h.1, h.2.remaining _ rfl, h.2.partitionKey⟩

theorem RateLimitPolicy.Canonical.spells {accepts : Text → Bool}
    {policy : RateLimitPolicy} (h : policy.Canonical accepts) :
    SpellsMember accepts policy.display policy.member :=
  h.spellable.spells fun window hmem => (h.2.window window hmem).1.asSecs.1

theorem RateLimit.Canonical.spells {accepts : Text → Bool}
    {limit : RateLimit} (h : limit.Canonical accepts) :
    SpellsMember accepts limit.display limit.member :=
  h.spellable.spells fun reset hmem => (h.2.reset reset hmem).asSecs.1

/-! ## Reading it back -/

open ItemFormat.Reading

theorem ItemFormat.Reading.params_append {α Fields : Type}
    {format : ItemFormat α Fields} (reading : format.Reading)
    (params more : Params) (fields : Fields) :
    reading.params (params ++ more) fields =
      reading.params more (reading.params params fields) :=
  List.foldl_append

@[simp] theorem ItemFormat.Reading.params_nil {α Fields : Type}
    {format : ItemFormat α Fields} (reading : format.Reading)
    (fields : Fields) : reading.params [] fields = fields := rfl

@[simp] theorem ItemFormat.Reading.params_single {α Fields : Type}
    {format : ItemFormat α Fields} (reading : format.Reading) (key : Text)
    (bare : BareItem) (fields : Fields) :
    reading.params [(key, bare)] fields = reading.set fields key bare := rfl

theorem policy_set_quota (fields : PolicyFields) (n : UInt64) :
    policyReading.set fields "q".toList (.integer n.toNat) =
      { fields with quota := some n } := by
  change fields.set "q".toList (.integer n.toNat) = _
  rw [PolicyFields.set_quota fields rfl (Int.natCast_nonneg _),
    readCount_natCast]

theorem policy_params_unit {policy : RateLimitPolicy}
    (h : policy.unit.Canonical) {fields : PolicyFields}
    (hfields : fields.unit = .requests) :
    policyReading.params policy.unitParams fields =
      { fields with unit := policy.unit } := by
  unfold RateLimitPolicy.unitParams
  split
  next hrequests => rw [hrequests, ← hfields, params_nil]
  next =>
    have hread : QuotaUnit.fromCow policy.unit.asStr = policy.unit := h.2
    change fields.set "qu".toList
      (.string (escapeChars policy.unit.asStr)) = _
    rw [PolicyFields.set_unit fields rfl, unescape_escapeChars, hread]

theorem WholeSecs.asSecs_pos {d : Duration} (h : WholeSecs d)
    (hpos : 0 < d.nanos) : 0 < d.asSecs.toNat := by
  have hnanos := congrArg Duration.nanos h.asSecs.2
  rw [Duration.fromSecs_nanos] at hnanos
  exact Nat.pos_of_mul_pos_right (hnanos ▸ hpos)

/-- A window as its whole seconds, if there are any. -/
def readWindow (window : Duration) : Option Duration :=
  if 0 < window.asSecs.toNat then some (Duration.fromSecs window.asSecs)
  else none

theorem WholeSecs.readWindow {d : Duration} (h : WholeSecs d)
    (hpos : 0 < d.nanos) : readWindow d = some d := by
  rw [TrilliumRatelimit.readWindow, if_pos (h.asSecs_pos hpos), h.asSecs.2]

theorem policy_params_window {window : Option Duration}
    {fields : PolicyFields} (hfields : fields.window = none) :
    policyReading.params (secsParams "w".toList window) fields =
      { fields with window := window.bind readWindow } := by
  cases window with
  | none =>
      rw [secsParams, params_nil, Option.bind_none, ← hfields]
  | some window =>
      change fields.set "w".toList (.integer window.asSecs.toNat) = _
      rw [PolicyFields.set_window fields rfl, readCount_natCast, Option.bind_some,
        readWindow]
      by_cases hpos : 0 < window.asSecs.toNat
      · rw [if_pos hpos, if_pos (Nat.cast_pos.mpr hpos)]
      · rw [if_neg hpos, if_neg (by exact_mod_cast hpos), ← hfields]

theorem policy_params_partitionKey {partitionKey : Option Text}
    {fields : PolicyFields} (hfields : fields.partitionKey = none) :
    policyReading.params (partitionKeyParams partitionKey) fields =
      { fields with partitionKey := partitionKey } := by
  cases partitionKey with
  | none => rw [partitionKeyParams, params_nil, ← hfields]
  | some partitionKey => exact fields.set_partitionKey rfl partitionKey

theorem limit_set_remaining (fields : LimitFields) (n : UInt64) :
    limitReading.set fields "r".toList (.integer n.toNat) =
      { fields with remaining := some n } := by
  change fields.set "r".toList (.integer n.toNat) = _
  rw [LimitFields.set_remaining fields rfl (Int.natCast_nonneg _),
    readCount_natCast]

theorem limit_params_reset {reset : Option Duration} {fields : LimitFields}
    (hfields : fields.reset = none) :
    limitReading.params (secsParams "t".toList reset) fields =
      { fields with
        reset := reset.map fun reset => Duration.fromSecs reset.asSecs } := by
  cases reset with
  | none => rw [secsParams, params_nil, Option.map_none, ← hfields]
  | some reset =>
      change fields.set "t".toList (.integer reset.asSecs.toNat) = _
      rw [LimitFields.set_reset fields rfl (Int.natCast_nonneg _),
        readCount_natCast, Option.map_some]

theorem limit_params_partitionKey {partitionKey : Option Text}
    {fields : LimitFields} (hfields : fields.partitionKey = none) :
    limitReading.params (partitionKeyParams partitionKey) fields =
      { fields with partitionKey := partitionKey } := by
  cases partitionKey with
  | none => rw [partitionKeyParams, params_nil, ← hfields]
  | some partitionKey => exact fields.set_partitionKey rfl partitionKey

/-- What is read back from a displayed policy. -/
def RateLimitPolicy.readBack (policy : RateLimitPolicy) : RateLimitPolicy :=
  { policy with window := policy.window.bind readWindow }

def RateLimit.readBack (limit : RateLimit) : RateLimit :=
  { limit with
    reset := limit.reset.map fun reset => Duration.fromSecs reset.asSecs }

theorem RateLimitPolicy.read_member {policy : RateLimitPolicy}
    (hunit : policy.unit.Canonical) :
    policyReading.member policy.member = some policy.readBack := by
  simp only [RateLimitPolicy.member, ItemFormat.Reading.member,
    params_append, params_single, unescape_escapeChars]
  rw [policy_set_quota, policy_params_unit hunit rfl,
    policy_params_window rfl, policy_params_partitionKey rfl]
  rfl

theorem RateLimit.read_member (limit : RateLimit) :
    limitReading.member limit.member = some limit.readBack := by
  simp only [RateLimit.member, ItemFormat.Reading.member,
    params_append, params_single, unescape_escapeChars]
  rw [limit_set_remaining, limit_params_reset rfl,
    limit_params_partitionKey rfl]
  rfl

theorem RateLimitPolicy.Canonical.readBack {accepts : Text → Bool}
    {policy : RateLimitPolicy} (h : policy.Canonical accepts) :
    policy.readBack = policy := by
  have hwindow : policy.window.bind readWindow = policy.window := by
    cases hsome : policy.window with
    | none => rfl
    | some window =>
        obtain ⟨hwhole, hpos⟩ := h.2.window window hsome
        exact hwhole.readWindow hpos
  rw [RateLimitPolicy.readBack, hwindow]

theorem RateLimit.Canonical.readBack {accepts : Text → Bool}
    {limit : RateLimit} (h : limit.Canonical accepts) :
    limit.readBack = limit := by
  have hreset : (limit.reset.map fun reset =>
      Duration.fromSecs reset.asSecs) = limit.reset := by
    cases hsome : limit.reset with
    | none => rfl
    | some reset =>
        rw [Option.map_some, (h.2.reset reset hsome).asSecs.2]
  rw [RateLimit.readBack, hreset]

theorem RateLimitPolicy.Canonical.read {accepts : Text → Bool}
    {policy : RateLimitPolicy} (h : policy.Canonical accepts) :
    policyReading.member policy.member = some policy := by
  rw [policy.read_member h.2.unit, h.readBack]

theorem RateLimit.Canonical.read {accepts : Text → Bool}
    {limit : RateLimit} (h : limit.Canonical accepts) :
    limitReading.member limit.member = some limit := by
  rw [limit.read_member, h.readBack]

end TrilliumRatelimit
