import Mathlib.Data.Prod.Lex
import Aegis.Access.Entities
import Aegis.Api.Cursor
import Aegis.Api.FindingStore
import Aegis.Lib.Keyset

/-!
# Lists

`list_all` of the findings and of the memberships, in `infrastructure/db/repositories.py`: the
tables of all organizations, the conditions of a query and the page it returns. Following the
cursors gives every row that matches once, in the order of the list.
-/

namespace Aegis.Api

open Server Access Keyset DateTime

/-! ## Conditions -/

/-- `text LIKE pattern`: a percent sign stands for any text and an underscore for any character,
unless a backslash is before it. -/
def like : PyStr → PyStr → Bool
  | [], text => text.isEmpty
  | [c], text =>
      if c = pyChar '%' then true
      else if c = pyChar '_' then text.length = 1
      else if c = pyChar '\\' then false
      else text = [c]
  | c :: d :: pattern, text =>
      if c = pyChar '%' then text.tails.any (like (d :: pattern))
      else if c = pyChar '_' then !text.isEmpty && like (d :: pattern) text.tail
      else if c = pyChar '\\' then text.head? = some d && like pattern text.tail
      else text.head? = some c && like (d :: pattern) text.tail

/-- The filters of a query, of which an absent or empty one leaves nothing out. -/
structure Filters where
  statuses : Option (List PyStr)
  severities : Option (List PyStr)
  ruleKey : Option PyStr
  applicationId : Option Uuid
  environment : Option PyStr
  search : Option PyStr

/-- A filter that is given, and not empty. -/
def given {α : Type*} (filter : Option (List α)) (holds : List α → Bool) : Bool :=
  match filter with
  | none | some [] => true
  | some (x :: xs) => holds (x :: xs)

/-- A row of the table of findings, whose score is a `NUMERIC(4, 2)`, in hundredths. -/
structure FindingRecord where
  finding : Finding
  stored : StoresFinding finding
  score : Int
  numeric : |score| < 10 ^ 4
  score_eq : finding.riskScore = score / 100

namespace FindingRecord

/-- `finding_to_domain`. -/
def toDomain (record : FindingRecord) : Finding :=
  { record.finding with title := record.finding.title.reload }

/-- `float(record.risk_score)`. -/
def scoreFloat (record : FindingRecord) : PyFloat :=
  .finite (nearestDouble record.finding.riskScore)

/-- The order of the list: the highest score first, and the id where scores are equal. -/
def key (record : FindingRecord) : Int ×ₗ Nat :=
  toLex (-record.score, record.finding.id.toNat)

/-- The cursor of the page that ends with the row. -/
def cursor (record : FindingRecord) : PyStr :=
  encodeScoreCursor record.scoreFloat record.finding.id

end FindingRecord

/-- The findings of all organizations. -/
structure FindingTable where
  rows : List FindingRecord
  primaryKey : (rows.map fun record ↦ record.finding.id).Nodup

variable (lib : Library) (dbLower : PyStr → PyStr)

/-- The condition of the filters. `dbLower` is `lower()` of the database. -/
def Filters.admits (filters : Filters) (record : FindingRecord) : Bool :=
  given filters.statuses (record.finding.status.value ∈ ·) &&
    given filters.severities (record.finding.severity.value ∈ ·) &&
    given filters.ruleKey (fun ruleKey ↦ record.finding.ruleKey = lib.lower (PyStr.strip ruleKey)) &&
    filters.applicationId.all (record.finding.applicationId = ·) &&
    given filters.environment (· ∈ record.finding.environmentsSeen) &&
    given filters.search (fun search ↦
      like (py "%" ++ lib.lower (PyStr.strip search) ++ py "%") (dbLower record.finding.title.val))

/-! ## Findings -/

variable (parseFloat : PyStr → Option PyFloat)

/-- A value rounded to two places, half away from zero, in hundredths. -/
def hundredths (value : ℚ) : Int :=
  if 0 ≤ value then ⌊value * 100 + 1 / 2⌋ else -⌊-value * 100 + 1 / 2⌋

/-- A parameter of type `NUMERIC(4, 2)`, in hundredths. -/
inductive Numeric where
  | number (hundredths : Int)
  | nan
  deriving DecidableEq, Repr

/-- The condition that a score is less than the parameter: `NaN` is above all numbers. -/
def Numeric.exceeds (score : Int) : Numeric → Bool
  | number hundredths => score < hundredths
  | nan => true

/-- A `float` as a parameter. An infinity and a number too large are refused. -/
def bindNumeric : PyFloat → Except DomainError Numeric
  | .finite value =>
      if |hundredths value| < 10 ^ 4 then .ok (.number (hundredths value))
      else .error (.BuiltinError .DataError)
  | .infinity _ => .error (.BuiltinError .DataError)
  | .nan => .ok .nan

/-- The condition that a row comes after the one of the cursor. -/
def FindingRecord.after (position : Numeric × Uuid) (record : FindingRecord) : Bool :=
  position.1.exceeds record.score ||
    (position.1 = .number record.score && position.2.toNat < record.finding.id.toNat)

/-- The position a cursor names: none where there is no cursor, or an empty one. -/
def scorePosition (cursor : Option PyStr) : Except DomainError (Option (Numeric × Uuid)) :=
  match cursor with
  | none | some [] => .ok none
  | some (c :: cs) => do
      let (score, identifier) ← decodeScoreCursor lib parseFloat (c :: cs)
      let score ← bindNumeric score
      .ok (some (score, identifier))

/-- The rows of an organization that the filters admit. -/
def FindingTable.matching (table : FindingTable) (organizationId : Uuid) (filters : Filters) :
    List FindingRecord :=
  table.rows.filter fun record ↦
    record.finding.organizationId = organizationId && filters.admits lib dbLower record

/-- The rows of a page and its next cursor: `list_all` of the findings, before the rows are made
entities. -/
def FindingTable.page (table : FindingTable) (organizationId : Uuid) (limit : Nat)
    (filters : Filters) (cursor : Option PyStr) :
    Except DomainError (List FindingRecord × Option PyStr) := do
  let position ← scorePosition lib parseFloat cursor
  let found := (ordered FindingRecord.key ((table.matching lib dbLower organizationId filters).filter
    fun record ↦ position.all (record.after ·))).take (limit + 1)
  .ok ((trim limit found).map id fun last ↦ last.map FindingRecord.cursor)

/-- `list_all` of the findings. -/
def FindingTable.listAll (table : FindingTable) (organizationId : Uuid) (limit : Nat)
    (filters : Filters) (cursor : Option PyStr) :
    Except DomainError (List Finding × Option PyStr) :=
  (table.page lib dbLower parseFloat organizationId limit filters cursor).map
    (Prod.map (List.map FindingRecord.toDomain) id)

/-! ## Memberships -/

/-- A row of the table of memberships. -/
structure MembershipRecord where
  membership : Membership
  createdAt : Instant
  inRange : InRange createdAt

namespace MembershipRecord

/-- The order of the list: the oldest first, and the id where times are equal. -/
def key (record : MembershipRecord) : Instant ×ₗ Nat :=
  toLex (record.createdAt, record.membership.id.toNat)

/-- The cursor of the page that ends with the row. -/
def cursor (record : MembershipRecord) : PyStr :=
  encodeCursor record.createdAt record.membership.id

/-- The condition that a row comes after the one of the cursor. -/
def after (position : Instant × Uuid) (record : MembershipRecord) : Bool :=
  position.1 < record.createdAt ||
    (record.createdAt = position.1 && position.2.toNat < record.membership.id.toNat)

end MembershipRecord

/-- The memberships of all organizations. -/
structure MembershipTable where
  rows : List MembershipRecord
  primaryKey : (rows.map fun record ↦ record.membership.id).Nodup

/-- The position a cursor names. -/
def timePosition (cursor : Option PyStr) : Except DomainError (Option (Instant × Uuid)) :=
  match cursor with
  | none | some [] => .ok none
  | some (c :: cs) => (decodeCursor lib (c :: cs)).map some

/-- The rows of an organization. -/
def MembershipTable.scoped (table : MembershipTable) (organizationId : Uuid) :
    List MembershipRecord :=
  table.rows.filter fun record ↦ record.membership.organizationId = organizationId

/-- `_paginate`, before the rows are made entities. -/
def paginate (records : List MembershipRecord) (limit : Nat) :
    List MembershipRecord × Option PyStr :=
  (trim limit records).map id fun last ↦ last.map MembershipRecord.cursor

/-- The rows of a page and its next cursor: `list_all` of the memberships, before the rows are made
entities. -/
def MembershipTable.page (table : MembershipTable) (organizationId : Uuid) (limit : Nat)
    (cursor : Option PyStr) : Except DomainError (List MembershipRecord × Option PyStr) := do
  let position ← timePosition lib cursor
  let found := (ordered MembershipRecord.key ((table.scoped organizationId).filter
    fun record ↦ position.all (record.after ·))).take (limit + 1)
  .ok (paginate found limit)

/-- `list_all` of the memberships. -/
def MembershipTable.listAll (table : MembershipTable) (organizationId : Uuid) (limit : Nat)
    (cursor : Option PyStr) : Except DomainError (List Membership × Option PyStr) :=
  (table.page lib organizationId limit cursor).map
    (Prod.map (List.map MembershipRecord.membership) id)

/-! ## Cursors and positions -/

/-- A value in hundredths is next to its double. -/
theorem abs_nearest_double_hundredths {score : Int} (h : |score| < 10 ^ 4) :
    |nearestDouble (score / 100) - score / 100| ≤ 1 / 400 := by
  have hsmall : |(score / 100 : ℚ)| < 2 ^ (7 : Int) := by
    rw [abs_div, ← Int.cast_abs, div_lt_iff₀ (by norm_num)]
    have hcast : ((|score| : Int) : ℚ) < 10 ^ 4 := by exact_mod_cast h
    norm_num at hcast ⊢
    linarith
  have hplace : lastPlace (score / 100) ≤ -45 := by
    refine max_le ?_ (by norm_num)
    have hlog : Int.log 2 |(score / 100 : ℚ)| < 7 := by
      rcases eq_or_ne (score / 100 : ℚ) 0 with hzero | hne
      · rw [hzero, abs_zero, Int.log_zero_right]
        norm_num
      · exact (Int.lt_zpow_iff_log_lt (by norm_num) (abs_pos.mpr hne)).mp hsmall
    omega
  have hbound : (2 : ℚ) ^ lastPlace (score / 100) ≤ 2 ^ (-45 : Int) :=
    zpow_le_zpow_right₀ (by norm_num) hplace
  have htiny : (2 : ℚ) ^ (-45 : Int) ≤ 1 / 400 := by norm_num
  exact (abs_nearest_double_sub_le _).trans (hbound.trans htiny)

/-- It is rounded back to itself. -/
theorem hundredths_nearest_double {score : Int} (h : |score| < 10 ^ 4) :
    hundredths (nearestDouble (score / 100)) = score := by
  obtain ⟨hlow, hhigh⟩ := abs_le.mp (abs_nearest_double_hundredths h)
  unfold hundredths
  split_ifs with hsign
  · rw [Int.floor_eq_iff]
    constructor <;> linarith
  · rw [neg_eq_iff_eq_neg, Int.floor_eq_iff]
    push_cast
    constructor <;> linarith

/-- It is a double. -/
theorem is_double_hundredths {score : Int} (h : |score| < 10 ^ 4) :
    IsDouble (nearestDouble (score / 100)) where
  places := places_nearest_double _
  bounded := by
    obtain ⟨hlow, hhigh⟩ := abs_le.mp (abs_nearest_double_hundredths h)
    have hcast : ((|score| : Int) : ℚ) < 10 ^ 4 := by exact_mod_cast h
    obtain ⟨hneg, hpos⟩ := abs_lt.mp (by rwa [Int.cast_abs] at hcast)
    have hlarge : (200 : ℚ) < 2 ^ 1024 :=
      lt_of_lt_of_le (show (200 : ℚ) < 2 ^ 8 by norm_num)
        (pow_le_pow_right₀ (by norm_num) (by norm_num))
    refine lt_of_le_of_lt (abs_le.mpr ⟨?_, ?_⟩) hlarge <;> norm_num at hneg hpos <;> linarith

/-- The cursor of a row names its score and its id. -/
theorem decode_finding_cursor (record : FindingRecord) :
    decodeScoreCursor lib parseFloat record.cursor =
      .ok (record.scoreFloat, record.finding.id) := by
  have hdouble : IsDouble (nearestDouble record.finding.riskScore) := by
    rw [record.score_eq]
    exact is_double_hundredths record.numeric
  exact decode_encode_score_cursor lib parseFloat hdouble record.finding.id

/-- The score of a row is what its double is as a parameter. -/
theorem bind_score_float (record : FindingRecord) :
    bindNumeric record.scoreFloat = .ok (.number record.score) := by
  rw [FindingRecord.scoreFloat, bindNumeric, record.score_eq,
    hundredths_nearest_double record.numeric, if_pos record.numeric]

/-- The position of the cursor of a row. -/
theorem score_position_cursor (record : FindingRecord) :
    scorePosition lib parseFloat (some record.cursor) =
      .ok (some (.number record.score, record.finding.id)) := by
  have hsome : ∀ text : PyStr, text ≠ [] → scorePosition lib parseFloat (some text) =
      (decodeScoreCursor lib parseFloat text).bind fun decoded ↦
        (bindNumeric decoded.1).bind fun score ↦ .ok (some (score, decoded.2)) := by
    intro text hne
    cases text with
    | nil => exact absurd rfl hne
    | cons c cs => rfl
  have hne : record.cursor ≠ [] := by
    rw [FindingRecord.cursor, encodeScoreCursor]
    exact cursor_text_ne_nil
  rw [hsome _ hne, decode_finding_cursor]
  show (bindNumeric record.scoreFloat).bind _ = _
  rw [bind_score_float]
  rfl

/-- The rows after a row are those whose keys are greater. -/
theorem after_iff (record other : FindingRecord) :
    other.after (.number record.score, record.finding.id) =
      decide (record.key < other.key) := by
  rw [Bool.eq_iff_iff, decide_eq_true_iff, FindingRecord.key, FindingRecord.key,
    Prod.Lex.toLex_lt_toLex]
  simp only [FindingRecord.after, Numeric.exceeds, Bool.or_eq_true, Bool.and_eq_true,
    decide_eq_true_eq, Numeric.number.injEq]
  constructor
  · rintro (h | ⟨h, hid⟩)
    · exact .inl (by omega)
    · exact .inr ⟨by omega, hid⟩
  · rintro (h | ⟨h, hid⟩)
    · exact .inl (by omega)
    · exact .inr ⟨by omega, hid⟩

/-- The keys of the rows that match differ. -/
theorem FindingTable.keys_nodup (table : FindingTable) (organizationId : Uuid)
    (filters : Filters) :
    ((table.matching lib dbLower organizationId filters).map FindingRecord.key).Nodup := by
  have hids := (List.Sublist.map (fun record : FindingRecord ↦ record.finding.id)
    (List.filter_sublist (p := fun record : FindingRecord ↦
      decide (record.finding.organizationId = organizationId) &&
        filters.admits lib dbLower record) (l := table.rows))).nodup table.primaryKey
  refine List.Nodup.of_map (fun key ↦ (ofLex key).2) ?_
  rw [List.map_map]
  have hnat := List.Nodup.map (f := BitVec.toNat (w := 128)) (fun a b ↦ BitVec.eq_of_toNat_eq) hids
  rw [List.map_map] at hnat
  exact hnat

/-- The pages of the findings are those of the list in its order. -/
theorem FindingTable.pages (table : FindingTable) (organizationId : Uuid) (limit : Nat)
    (filters : Filters) :
    Pages (ordered FindingRecord.key (table.matching lib dbLower organizationId filters)) limit
      (fun a b ↦ a.key < b.key) FindingRecord.cursor
      (table.page lib dbLower parseFloat organizationId limit filters) where
  ordered := ordered_lt _ (table.keys_nodup lib dbLower organizationId filters)
  first := by
    simp only [FindingTable.page, scorePosition, bind, Except.bind, Option.all_none,
      List.filter_true]
  next row _ := by
    have hafter : (fun record : FindingRecord ↦
        record.after (.number row.score, row.finding.id)) =
          fun record ↦ decide (row.key < record.key) := funext (after_iff row)
    simp only [FindingTable.page, score_position_cursor, bind, Except.bind, Option.all_some, hafter,
      ordered_filter _ (table.keys_nodup lib dbLower organizationId filters)]

/-- The cursor of a membership names its time and its id. -/
theorem decode_membership_cursor (record : MembershipRecord) :
    decodeCursor lib record.cursor = .ok (record.createdAt, record.membership.id) :=
  decode_encode_cursor lib record.inRange record.membership.id

/-- The position of the cursor of a membership. -/
theorem time_position_cursor (record : MembershipRecord) :
    timePosition lib (some record.cursor) =
      .ok (some (record.createdAt, record.membership.id)) := by
  have hsome : ∀ text : PyStr, text ≠ [] →
      timePosition lib (some text) = (decodeCursor lib text).map some := by
    intro text hne
    cases text with
    | nil => exact absurd rfl hne
    | cons c cs => rfl
  have hne : record.cursor ≠ [] := by
    rw [MembershipRecord.cursor, encodeCursor]
    exact cursor_text_ne_nil
  rw [hsome _ hne, decode_membership_cursor]
  rfl

/-- The memberships after one are those whose keys are greater. -/
theorem MembershipRecord.after_iff (record other : MembershipRecord) :
    other.after (record.createdAt, record.membership.id) = decide (record.key < other.key) := by
  rw [Bool.eq_iff_iff, decide_eq_true_iff, MembershipRecord.key, MembershipRecord.key,
    Prod.Lex.toLex_lt_toLex]
  simp only [MembershipRecord.after, Bool.or_eq_true, Bool.and_eq_true, decide_eq_true_eq]
  constructor
  · exact Or.imp_right fun h ↦ ⟨h.1.symm, h.2⟩
  · exact Or.imp_right fun h ↦ ⟨h.1.symm, h.2⟩

/-- The keys of the memberships of an organization differ. -/
theorem MembershipTable.keys_nodup (table : MembershipTable) (organizationId : Uuid) :
    ((table.scoped organizationId).map MembershipRecord.key).Nodup := by
  have hids := (List.Sublist.map (fun record : MembershipRecord ↦ record.membership.id)
    (List.filter_sublist (p := fun record : MembershipRecord ↦
      decide (record.membership.organizationId = organizationId)) (l := table.rows))).nodup
        table.primaryKey
  refine List.Nodup.of_map (fun key ↦ (ofLex key).2) ?_
  rw [List.map_map]
  have hnat := List.Nodup.map (f := BitVec.toNat (w := 128)) (fun a b ↦ BitVec.eq_of_toNat_eq) hids
  rw [List.map_map] at hnat
  exact hnat

/-- The pages of the memberships are those of the list in its order. -/
theorem MembershipTable.pages (table : MembershipTable) (organizationId : Uuid) (limit : Nat) :
    Pages (ordered MembershipRecord.key (table.scoped organizationId)) limit
      (fun a b ↦ a.key < b.key) MembershipRecord.cursor
      (table.page lib organizationId limit) where
  ordered := ordered_lt _ (table.keys_nodup organizationId)
  first := by
    simp only [MembershipTable.page, timePosition, bind, Except.bind, Option.all_none,
      List.filter_true, paginate]
  next row _ := by
    have hafter : (fun record : MembershipRecord ↦
        record.after (row.createdAt, row.membership.id)) =
          fun record ↦ decide (row.key < record.key) := funext (row.after_iff)
    simp only [MembershipTable.page, time_position_cursor, bind, Except.bind, Option.all_some,
      hafter, ordered_filter _ (table.keys_nodup organizationId), paginate]

/-! ## Following the cursors -/

/-- The title is that of a finding. -/
theorem title_of_tied :
    (py "SQL injection").strip ≠ [] ∧ (py "SQL injection").length ≤ 200 :=
  ⟨by decide, by decide⟩

/-- A finding with a score that others have too. -/
def tiedFinding (id : Uuid) : Finding :=
  { Finding.create id 7 2 (PyStr.decimal id.toNat) (py "sql-injection")
      ⟨py "SQL injection", title_of_tied⟩ .CRITICAL .EXPLOITED
      (py "java.sql.Statement.execute") (py "PARAMETER") (py "b") with riskScore := 81 / 10 }

end Aegis.Api
