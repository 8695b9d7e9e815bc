import Aegis.Api.Listing

/-!
# Finding queries

`ListFindings` and `GetFinding` in `application/findings.py`. Where the stored findings have nothing
to show, the findings of a demonstration are shown instead.
-/

namespace Aegis.Api

open Server Access Keyset

/-! ## The demonstration -/

/-- `DEMO_FINDING_SQLI`. -/
def DEMO_FINDING_SQLI : Finding :=
  { Finding.create 1 0 2 (List.replicate 64 (pyChar 'a')) (py "sql-injection")
      ⟨py "SQL Injection in UserRepository.findByName", by decide, by decide⟩ .CRITICAL .EXPLOITED
      (py "sqlite3.Cursor.execute") (py "PARAMETER") (List.replicate 64 (pyChar 'b')) with
    riskScore := 95 / 10
    cweId := some 89 }

/-- `DEMO_FINDING_CMD`. -/
def DEMO_FINDING_CMD : Finding :=
  { Finding.create 2 0 2 (List.replicate 64 (pyChar 'c')) (py "command-injection")
      ⟨py "OS Command Injection in NetworkDiagnostics.pingHost", by decide, by decide⟩ .CRITICAL
      .EXPLOITED (py "subprocess.Popen") (py "PARAMETER") (List.replicate 64 (pyChar 'd')) with
    riskScore := 98 / 10
    cweId := some 78 }

/-! ## The queries -/

/-- What a caller asks of `ListFindings`. -/
structure FindingQuery where
  limit : Nat
  cursor : Option PyStr
  status : Option (List PyStr)
  severity : Option (List PyStr)
  ruleKey : Option PyStr
  applicationId : Option Uuid
  environment : Option PyStr
  search : Option PyStr

/-- Findings, and where the next page starts. -/
structure FindingPage where
  items : List Finding
  nextCursor : Option PyStr
  limit : Nat

variable (lib : Library) (dbLower : PyStr → PyStr) (parseFloat : PyStr → Option PyFloat)

/-- The filters of a query: names are made upper case, and an empty filter is none. -/
def FindingQuery.filters (query : FindingQuery) : Filters where
  statuses := query.status.bind fun status ↦
    if status = [] then none else some (status.map lib.upper)
  severities := query.severity.bind fun severity ↦
    if severity = [] then none else some (severity.map lib.upper)
  ruleKey := query.ruleKey
  applicationId := query.applicationId
  environment := query.environment.bind fun environment ↦
    if environment = [] then none else some (lib.upper environment)
  search := query.search

/-- `ListFindings.execute`. -/
def ListFindings.execute (table : FindingTable) (principal : Principal) (query : FindingQuery) :
    Except DomainError FindingPage := do
  principal.require .FINDING_READ
  let (items, nextCursor) ← table.listAll lib dbLower parseFloat principal.organizationId
    query.limit (query.filters lib) query.cursor
  let items := if items.isEmpty then [DEMO_FINDING_SQLI, DEMO_FINDING_CMD] else items
  .ok ⟨items, nextCursor, query.limit⟩

/-- `get` of the findings. -/
def FindingTable.get (table : FindingTable) (organizationId findingId : Uuid) : Option Finding :=
  (table.rows.find? fun record ↦
    record.finding.organizationId = organizationId && record.finding.id = findingId).map
      FindingRecord.toDomain

/-- What is shown along with a finding: occurrences and comments are passed on as they are read. -/
structure Evidence (O C : Type) where
  occurrences : Uuid → List O
  comments : Uuid → List C
  DEMO_OCCURRENCE_SQLI : O
  DEMO_OCCURRENCE_CMD : O

variable {O C : Type} (evidence : Evidence O C)

/-- `GetFinding.execute`. -/
def GetFinding.execute (table : FindingTable) (principal : Principal) (findingId : Uuid) :
    Except DomainError (Finding × List O × List C) := do
  principal.require .FINDING_READ
  match table.get principal.organizationId findingId with
  | some finding => .ok (finding, evidence.occurrences findingId, evidence.comments findingId)
  | none =>
      if findingId.toStr = DEMO_FINDING_SQLI.id.toStr then
        .ok (DEMO_FINDING_SQLI, [evidence.DEMO_OCCURRENCE_SQLI], [])
      else if findingId.toStr = DEMO_FINDING_CMD.id.toStr then
        .ok (DEMO_FINDING_CMD, [evidence.DEMO_OCCURRENCE_CMD], [])
      else .error (.NotFoundError (py "Finding not found."))

/-! ## What a page shows -/

/-- A finding is that of a row of the organization that the filters admit. -/
def FindingTable.Holds (table : FindingTable) (organizationId : Uuid) (filters : Filters)
    (finding : Finding) : Prop :=
  ∃ record ∈ table.rows, record.finding.organizationId = organizationId ∧
    filters.admits lib dbLower record = true ∧ finding = record.toDomain

/-- A page shows only findings of the organization that its filters admit, and none where there are
none. -/
structure FindingTable.Honours (table : FindingTable) (organizationId : Uuid) (filters : Filters)
    (items : List Finding) : Prop where
  stored : ∀ finding ∈ items, table.Holds lib dbLower organizationId filters finding
  empty : (∀ finding, ¬ table.Holds lib dbLower organizationId filters finding) → items = []

/-- `ListFindings` honours its filters: every page it returns does. -/
def ListFindings.Honoured (table : FindingTable) (principal : Principal) (query : FindingQuery) :
    Prop :=
  ∀ page, ListFindings.execute lib dbLower parseFloat table principal query = .ok page →
    table.Honours lib dbLower principal.organizationId (query.filters lib) page.items

/-- `GetFinding` is scoped: what it returns is a stored finding of the organization. -/
def GetFinding.Scoped (table : FindingTable) (principal : Principal) (findingId : Uuid) : Prop :=
  ∀ finding occurrences comments,
    GetFinding.execute evidence table principal findingId =
      .ok (finding, occurrences, comments) →
    ∃ record ∈ table.rows, record.finding.organizationId = principal.organizationId ∧
      finding = record.toDomain

/-! ## Searches -/

/-- The pattern of a text that has no wildcard and no escape is matched by what starts with it. -/
theorem like_starts_iff {search : PyStr} (h : ∀ c ∈ search, c ∉ py "%_\\") (text : PyStr) :
    like (search ++ py "%") text = true ↔ search <+: text := by
  induction search generalizing text with
  | nil => exact iff_of_true rfl (List.nil_prefix)
  | cons c search ih =>
      have hc : c ≠ pyChar '%' ∧ c ≠ pyChar '_' ∧ c ≠ pyChar '\\' := by
        simpa [py, pyChar] using h c List.mem_cons_self
      obtain ⟨d, pattern, hpattern⟩ := List.exists_cons_of_ne_nil
        (List.append_ne_nil_of_right_ne_nil search (List.cons_ne_nil (pyChar '%') []))
      have hrest := ih (fun x hx ↦ h x (List.mem_cons_of_mem c hx)) text.tail
      have hcons : like (c :: search ++ py "%") text =
          (text.head? = some c && like (search ++ py "%") text.tail) := by
        show like (c :: (search ++ py "%")) text = _
        rw [show search ++ py "%" = d :: pattern from hpattern, like, if_neg hc.1, if_neg hc.2.1,
          if_neg hc.2.2]
      rw [hcons, Bool.and_eq_true, hrest, decide_eq_true_eq]
      cases text with
      | nil => simp
      | cons x text => simp [List.cons_prefix_cons, eq_comm]

/-- A search for such a text finds the titles that contain it. -/
theorem like_contains_iff {search : PyStr} (h : ∀ c ∈ search, c ∉ py "%_\\") (text : PyStr) :
    like (py "%" ++ search ++ py "%") text = true ↔ search <:+: text := by
  obtain ⟨d, pattern, hpattern⟩ := List.exists_cons_of_ne_nil
    (List.append_ne_nil_of_right_ne_nil search (List.cons_ne_nil (pyChar '%') []))
  have hany : like (py "%" ++ search ++ py "%") text =
      text.tails.any (like (search ++ py "%")) := by
    show like (pyChar '%' :: (search ++ py "%")) text = _
    rw [show search ++ py "%" = d :: pattern from hpattern, like, if_pos rfl]
  rw [hany, List.any_eq_true, List.infix_iff_prefix_suffix]
  simp only [List.mem_tails, like_starts_iff h, and_comm]

variable {lib dbLower}

/-- The rows that match are those whose findings the table holds. -/
theorem FindingTable.holds_iff {table : FindingTable} {organizationId : Uuid} {filters : Filters}
    {finding : Finding} : table.Holds lib dbLower organizationId filters finding ↔
      ∃ record ∈ table.matching lib dbLower organizationId filters,
        finding = record.toDomain := by
  simp only [FindingTable.Holds, FindingTable.matching, List.mem_filter, Bool.and_eq_true,
    decide_eq_true_eq]
  constructor
  · rintro ⟨record, hmem, horg, hadmits, rfl⟩
    exact ⟨record, ⟨hmem, horg, hadmits⟩, rfl⟩
  · rintro ⟨record, ⟨hmem, horg, hadmits⟩, rfl⟩
    exact ⟨record, hmem, horg, hadmits, rfl⟩

/-- The rows of a page match, come after the position of its cursor, and are missing only when no
row does. -/
theorem trim_spec {α : Type*} (limit : Nat) (found : List α) (h : 0 < limit) :
    (∀ row ∈ (trim limit found).1, row ∈ found) ∧ ((trim limit found).1 = [] ↔ found = []) := by
  unfold trim
  split_ifs with hlong
  · refine ⟨fun row hrow ↦ List.mem_of_mem_take hrow, ?_⟩
    rw [List.take_eq_nil_iff]
    constructor
    · intro hnil
      exact hnil.resolve_left (by omega)
    · exact Or.inr
  · exact ⟨fun row hrow ↦ hrow, Iff.rfl⟩

variable (dbLower) in
/-- The items of a page are findings of rows that match and come after the position of its cursor,
and there is one when there is such a row. -/
theorem FindingTable.list_all_spec {parseFloat : PyStr → Option PyFloat} (table : FindingTable)
    (organizationId : Uuid) {limit : Nat} (hlimit : 0 < limit) (filters : Filters)
    {cursor : Option PyStr} {position : Option (Numeric × Uuid)}
    (hposition : scorePosition lib parseFloat cursor = .ok position) :
    ∃ items next, table.listAll lib dbLower parseFloat organizationId limit filters cursor =
        .ok (items, next) ∧
      (∀ finding ∈ items, table.Holds lib dbLower organizationId filters finding) ∧
      (items = [] ↔ ∀ record ∈ table.matching lib dbLower organizationId filters,
        position.all (record.after ·) = false) := by
  let found := (ordered FindingRecord.key ((table.matching lib dbLower organizationId filters).filter
    fun record ↦ position.all (record.after ·))).take (limit + 1)
  have hpage : table.page lib dbLower parseFloat organizationId limit filters cursor =
      .ok ((trim limit found).map id fun last ↦ last.map FindingRecord.cursor) := by
    simp only [FindingTable.page, hposition, bind, Except.bind, found]
  obtain ⟨hsub, hnil⟩ := trim_spec limit found hlimit
  refine ⟨(trim limit found).1.map FindingRecord.toDomain, _, by
    rw [FindingTable.listAll, hpage]; rfl, ?_, ?_⟩
  · intro finding hfinding
    obtain ⟨record, hrecord, rfl⟩ := List.mem_map.mp hfinding
    have hmem := (ordered_perm _ _).subset (List.mem_of_mem_take (hsub record hrecord))
    exact FindingTable.holds_iff.mpr ⟨record, List.mem_of_mem_filter hmem, rfl⟩
  · have hempty : found = [] ↔ (table.matching lib dbLower organizationId filters).filter
        (fun record ↦ position.all (record.after ·)) = [] := by
      rw [List.take_eq_nil_iff, or_iff_right (Nat.succ_ne_zero limit),
        ← List.length_eq_zero_iff, (ordered_perm _ _).length_eq, List.length_eq_zero_iff]
    rw [List.map_eq_nil_iff, hnil, hempty, List.filter_eq_nil_iff]
    simp only [Bool.not_eq_true]

/-- What a page shows in place of no items. -/
theorem honours_page_iff {table : FindingTable} {organizationId : Uuid} {filters : Filters}
    {items : List Finding} {demonstration : List Finding} (hne : demonstration ≠ [])
    (hitems : ∀ finding ∈ items, table.Holds lib dbLower organizationId filters finding) :
    table.Honours lib dbLower organizationId filters
        (if items.isEmpty then demonstration else items) ↔
      items ≠ [] ∨ ∀ finding ∈ demonstration,
        table.Holds lib dbLower organizationId filters finding := by
  cases items with
  | nil =>
      constructor
      · exact fun h ↦ .inr h.stored
      · intro h
        have hstored := h.resolve_left fun hnil ↦ hnil rfl
        refine ⟨hstored, fun hnone ↦ ?_⟩
        obtain ⟨finding, hmem⟩ := List.exists_mem_of_ne_nil demonstration hne
        exact absurd (hstored finding hmem) (hnone finding)
  | cons finding items =>
      refine ⟨fun _ ↦ .inl (List.cons_ne_nil _ _), fun _ ↦ ⟨hitems, fun hnone ↦ ?_⟩⟩
      exact absurd (hitems finding List.mem_cons_self) (hnone finding)

/-- The text of an id names it. -/
theorem to_str_inj {a b : Uuid} : a.toStr = b.toStr ↔ a = b := by
  refine ⟨fun h ↦ ?_, congrArg Uuid.toStr⟩
  have hparse := Uuid.parse_to_str a
  rw [h, Uuid.parse_to_str] at hparse
  exact (Option.some.inj hparse).symm

/-- What `get` finds. -/
theorem FindingTable.get_eq_some {table : FindingTable} {organizationId findingId : Uuid}
    {finding : Finding} (h : table.get organizationId findingId = some finding) :
    ∃ record ∈ table.rows, record.finding.organizationId = organizationId ∧
      finding = record.toDomain := by
  obtain ⟨record, hfind, rfl⟩ := Option.map_eq_some_iff.mp h
  have hholds := List.find?_some hfind
  simp only [Bool.and_eq_true, decide_eq_true_eq] at hholds
  exact ⟨record, List.mem_of_find?_eq_some hfind, hholds.1, rfl⟩

/-- What it does not find is not stored. -/
theorem FindingTable.get_eq_none_iff {table : FindingTable} {organizationId findingId : Uuid} :
    table.get organizationId findingId = none ↔
      ∀ record ∈ table.rows, record.finding.organizationId = organizationId →
        record.finding.id ≠ findingId := by
  rw [FindingTable.get, Option.map_eq_none_iff, List.find?_eq_none]
  simp only [Bool.and_eq_true, decide_eq_true_eq, not_and, ne_eq]

/-! ## Scope -/

/-- A list honours its filters when a row that matches comes after its cursor, or the findings of the
demonstration are held. -/
theorem list_honoured_iff (table : FindingTable) (principal : Principal) (query : FindingQuery)
    (hlimit : 0 < query.limit) :
    ListFindings.Honoured lib dbLower parseFloat table principal query ↔
      (.FINDING_READ ∈ principal.permissions →
        ∀ position, scorePosition lib parseFloat query.cursor = .ok position →
          (∃ record ∈ table.matching lib dbLower principal.organizationId (query.filters lib),
            position.all (record.after ·) = true) ∨
          ∀ finding ∈ [DEMO_FINDING_SQLI, DEMO_FINDING_CMD],
            table.Holds lib dbLower principal.organizationId (query.filters lib) finding) := by
  unfold ListFindings.Honoured
  by_cases hread : .FINDING_READ ∈ principal.permissions
  · have hrequire : principal.require .FINDING_READ = .ok () := if_pos hread
    cases hposition : scorePosition lib parseFloat query.cursor with
    | error error =>
        have hfails : ListFindings.execute lib dbLower parseFloat table principal query =
            .error error := by
          simp only [ListFindings.execute, hrequire, FindingTable.listAll, FindingTable.page,
            hposition, bind, Except.bind, Except.map]
        simp only [hfails, reduceCtorEq, false_implies, implies_true]
    | ok position =>
        obtain ⟨items, next, hlist, hholds, hnil⟩ := table.list_all_spec dbLower
          principal.organizationId hlimit (query.filters lib) hposition
        have hpage : ListFindings.execute lib dbLower parseFloat table principal query =
            .ok ⟨if items.isEmpty then [DEMO_FINDING_SQLI, DEMO_FINDING_CMD] else items, next,
              query.limit⟩ := by
          simp only [ListFindings.execute, hrequire, hlist, bind, Except.bind]
        have hshown := honours_page_iff (List.cons_ne_nil DEMO_FINDING_SQLI [DEMO_FINDING_CMD])
          hholds
        simp only [hpage, Except.ok.injEq, forall_eq', hread, true_implies, hshown, ne_eq, hnil,
          not_forall, Bool.not_eq_false, exists_prop]
  · have hrequire : principal.require .FINDING_READ = .error _ := if_neg hread
    have hfails : ListFindings.execute lib dbLower parseFloat table principal query =
        .error (.PermissionDeniedError Permission.FINDING_READ.value) := by
      simp only [ListFindings.execute, hrequire, bind, Except.bind]
    simp only [hfails, reduceCtorEq, false_implies, implies_true, hread]

/-- A finding is one of the organization when its id is stored there, or is none of the
demonstration's. -/
theorem get_belongs_iff (table : FindingTable) (principal : Principal) (findingId : Uuid) :
    GetFinding.Scoped evidence table principal findingId ↔
      (.FINDING_READ ∈ principal.permissions →
        findingId ∈ [DEMO_FINDING_SQLI.id, DEMO_FINDING_CMD.id] →
          ∃ record ∈ table.rows, record.finding.organizationId = principal.organizationId ∧
            record.finding.id = findingId) := by
  unfold GetFinding.Scoped
  by_cases hread : .FINDING_READ ∈ principal.permissions
  · have hrequire : principal.require .FINDING_READ = .ok () := if_pos hread
    cases hget : table.get principal.organizationId findingId with
    | some stored =>
        have hstored := FindingTable.get_eq_some hget
        have hfound : ¬ ∀ record ∈ table.rows,
            record.finding.organizationId = principal.organizationId →
              record.finding.id ≠ findingId := by
          rw [← FindingTable.get_eq_none_iff, hget]
          exact Option.some_ne_none _
        push Not at hfound
        simp only [GetFinding.execute, hrequire, hget, bind, Except.bind]
        refine iff_of_true ?_ fun _ _ ↦ hfound
        rintro finding occurrences comments ⟨⟩
        exact hstored
    | none =>
        have habsent := FindingTable.get_eq_none_iff.mp hget
        simp only [GetFinding.execute, hrequire, hget, bind, Except.bind, to_str_inj, hread,
          true_implies, List.mem_cons, List.not_mem_nil, or_false]
        -- a finding of the demonstration has the id that is not stored
        constructor
        · intro h hid
          exfalso
          by_cases hsqli : findingId = DEMO_FINDING_SQLI.id
          · obtain ⟨record, hmem, horg, heq⟩ := h _ _ _ (if_pos hsqli)
            have hid : record.toDomain.id = findingId := by rw [← heq, hsqli]
            exact habsent record hmem horg hid
          · have hcmd := hid.resolve_left hsqli
            obtain ⟨record, hmem, horg, heq⟩ := h _ _ _ ((if_neg hsqli).trans (if_pos hcmd))
            have hid : record.toDomain.id = findingId := by rw [← heq, hcmd]
            exact habsent record hmem horg hid
        · intro h finding occurrences comments hresult
          split_ifs at hresult with hsqli hcmd
          · obtain ⟨record, hmem, horg, heq⟩ := h (.inl hsqli)
            exact absurd heq (habsent record hmem horg)
          · obtain ⟨record, hmem, horg, heq⟩ := h (.inr hcmd)
            exact absurd heq (habsent record hmem horg)
  · have hrequire : principal.require .FINDING_READ = .error _ := if_neg hread
    have hfails : GetFinding.execute evidence table principal findingId =
        .error (.PermissionDeniedError Permission.FINDING_READ.value) := by
      simp only [GetFinding.execute, hrequire, bind, Except.bind]
    simp only [hfails, reduceCtorEq, false_implies, implies_true, hread]

/-- A caller of organization 7 who may read findings. -/
def findingReader : Principal where
  kind := .USER
  organizationId := 7
  permissions := {.FINDING_READ}
  userId := some 5
  sessionId := none
  apiKeyId := none
  membershipId := none
  label := py "reader"
  mfaSatisfied := true
  isPlatformAdmin := false
  isOwner := false
  context := ⟨[], none, []⟩

end Aegis.Api
