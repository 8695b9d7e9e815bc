import Mathlib.Algebra.GroupWithZero.Nat
import Aegis.Agent.RuntimeEvent

/-!
# What a telemetry event discloses

A value is withheld when its key is sensitive, or whatever its key is when nothing may be captured.
Noninterference is a statement about two runs whose contexts differ in withheld values only: their
events should be the same line. The event writes the maps of parameters and headers as they are,
so `undisclosed_iff` says that the statement holds exactly when neither map has a withheld key.
-/

namespace Aegis.Agent

/-- The value under this key must not be transmitted. -/
def Redactor.withholds (platform : Platform) (r : Redactor) (key : JString) : Bool :=
  r.captureMode == .NONE || r.isSensitiveKey platform (some key)

/-- Two maps with the same keys in the same order, whose values differ under withheld keys only. -/
def SameBut (withheld : JString → Bool) (m m' : StringMap) : Prop :=
  List.Forall₂ (fun e e' ↦ e.1 = e'.1 ∧ (withheld e.1 = true ∨ e.2 = e'.2)) m m'

/-- Two contexts that differ in the withheld values of parameters and headers only. -/
structure LikeContexts (withheld : JString → Bool) (c c' : RequestContext) : Prop where
  parameters : SameBut withheld c.parameters c'.parameters
  headers : SameBut withheld c.headers c'.headers
  others : c' = { c with parameters := c'.parameters, headers := c'.headers }

/-- The entries of both maps of a context. -/
def RequestContext.entries (c : RequestContext) : StringMap :=
  c.parameters ++ c.headers

/-- No withheld value of the context occurs in the argument. -/
def Absent (withheld : JString → Bool) (argument : JString) (c : RequestContext) : Prop :=
  ∀ e ∈ c.entries, withheld e.1 = true → ¬e.2 <:+: argument

/-- The event of the finding is the same line in any two runs whose contexts are like this one but
for withheld values that do not occur in the argument. -/
def Undisclosed (withheld : JString → Bool) (argument : JString) (finding : Finding)
    (shape : RequestContext) : Prop :=
  ∀ c₁ c₂, LikeContexts withheld shape c₁ → LikeContexts withheld shape c₂ →
    Absent withheld argument c₁ → Absent withheld argument c₂ → ∀ eventId moment,
    (RuntimeEvent.taintHit eventId finding (some c₁) moment).toJson =
      (RuntimeEvent.taintHit eventId finding (some c₂) moment).toJson

/-! ## Without withheld keys -/

/-- Maps without withheld keys that are the same but for withheld values are the same. -/
theorem eq_of_same_but {withheld : JString → Bool} {m m' : StringMap} (h : SameBut withheld m m')
    (hnone : ∀ e ∈ m, withheld e.1 = false) : m = m' := by
  induction h with
  | nil => rfl
  | @cons e e' m m' hentry _ ih =>
      obtain ⟨hfirst, hrest⟩ := List.forall_mem_cons.mp hnone
      obtain ⟨hkey, hsensitive | hvalue⟩ := hentry
      · rw [hfirst] at hsensitive
        cases hsensitive
      · rw [ih hrest, Prod.ext hkey hvalue]

/-- A context without withheld keys is like itself only. -/
theorem eq_of_like_contexts {withheld : JString → Bool} {c c' : RequestContext}
    (h : LikeContexts withheld c c') (hnone : ∀ e ∈ c.entries, withheld e.1 = false) : c' = c := by
  obtain ⟨hparameters, hheaders⟩ := List.forall_mem_append.mp hnone
  rw [h.others, ← eq_of_same_but h.parameters hparameters, ← eq_of_same_but h.headers hheaders]

/-! ## With a withheld key -/

/-- The map with every withheld value replaced by filler of some length. -/
def fill (withheld : JString → Bool) (n : Nat) (m : StringMap) : StringMap :=
  m.map fun e ↦ if withheld e.1 then (e.1, List.replicate n (jchar 'x')) else e

/-- The context with every withheld value replaced by filler of some length. -/
def RequestContext.fill (withheld : JString → Bool) (n : Nat) (c : RequestContext) :
    RequestContext :=
  { c with
    parameters := Agent.fill withheld n c.parameters
    headers := Agent.fill withheld n c.headers }

@[simp] theorem parameters_fill (withheld : JString → Bool) (n : Nat) (c : RequestContext) :
    (c.fill withheld n).parameters = fill withheld n c.parameters := rfl

@[simp] theorem headers_fill (withheld : JString → Bool) (n : Nat) (c : RequestContext) :
    (c.fill withheld n).headers = fill withheld n c.headers := rfl

@[simp] theorem request_line_fill (withheld : JString → Bool) (n : Nat) (c : RequestContext) :
    RuntimeEvent.requestLineJson (c.fill withheld n) = RuntimeEvent.requestLineJson c := rfl

@[simp] theorem body_excerpt_fill (withheld : JString → Bool) (n : Nat) (c : RequestContext) :
    (c.fill withheld n).bodyExcerpt = c.bodyExcerpt := rfl

@[simp] theorem trace_id_fill (withheld : JString → Bool) (n : Nat) (c : RequestContext) :
    (c.fill withheld n).traceId = c.traceId := rfl

section Fill

variable (withheld : JString → Bool) (n : Nat)

/-- Filling changes withheld values only. -/
theorem same_but_fill (m : StringMap) : SameBut withheld m (fill withheld n m) := by
  rw [SameBut, fill, List.forall₂_map_right_iff, List.forall₂_same]
  intro e _
  split
  · next h => exact ⟨rfl, .inl h⟩
  · exact ⟨rfl, .inr rfl⟩

/-- A filled context is like the one it comes from. -/
theorem like_fill (c : RequestContext) : LikeContexts withheld c (c.fill withheld n) :=
  ⟨same_but_fill withheld n _, same_but_fill withheld n _, rfl⟩

/-- Filler longer than the argument does not occur in it. -/
theorem absent_fill (argument : JString) (hn : argument.length < n) (c : RequestContext) :
    Absent withheld argument (c.fill withheld n) := by
  intro e he hwithheld hoccurs
  rw [RequestContext.entries, RequestContext.fill, fill, fill, ← List.map_append] at he
  obtain ⟨e', -, rfl⟩ := List.mem_map.mp he
  cases hkey : withheld e'.1 with
  | true =>
      have hlength := hoccurs.length_le
      simp only [hkey, if_true, List.length_replicate] at hlength
      omega
  | false => simp [hkey] at hwithheld

/-- An entry of a filled map is written one character longer when the filler is. -/
theorem length_string_entry (e : JString × JString) :
    (stringEntry (if withheld e.1 then (e.1, List.replicate (n + 1) (jchar 'x')) else e)).length =
      (stringEntry (if withheld e.1 then (e.1, List.replicate n (jchar 'x')) else e)).length +
        (withheld e.1).toNat := by
  cases h : withheld e.1 with
  | false => rfl
  | true =>
      have hescape : (escape (jchar 'x')).length = 1 := by decide
      simp [stringEntry, quote, List.replicate_succ, hescape]
      omega

/-- The length of items with commas between them. -/
theorem length_separated (items : List JString) :
    (separated items).length = (items.map List.length).sum + (items.length - 1) := by
  induction items with
  | nil => rfl
  | cons item items ih =>
      cases items with
      | nil => simp [separated]
      | cons item' items =>
          have hcomma : (java ",").length = 1 := by decide
          rw [separated, List.intercalate_cons_cons, ← separated]
          simp only [List.length_append, List.map_cons, List.sum_cons, List.length_cons, hcomma,
            ih]
          omega

/-- A filled map is written longer by one character for each withheld key when the filler is. -/
theorem length_string_map_fill (m : StringMap) :
    (stringMap (fill withheld (n + 1) m)).length =
      (stringMap (fill withheld n m)).length + m.countP fun e ↦ withheld e.1 := by
  have hsum : (((fill withheld (n + 1) m).map stringEntry).map List.length).sum =
      (((fill withheld n m).map stringEntry).map List.length).sum +
        m.countP fun e ↦ withheld e.1 := by
    induction m with
    | nil => rfl
    | cons e m ih =>
        simp only [fill, List.map_cons, List.sum_cons, List.countP_cons] at ih ⊢
        rw [ih, length_string_entry]
        cases withheld e.1 <;> simp <;> omega
  have hlength : (fill withheld (n + 1) m).length = (fill withheld n m).length := by
    simp [fill]
  simp only [stringMap, List.length_append, length_separated, List.length_map, hsum, hlength]
  omega

/-- The event of a filled context is longer by one character for each withheld key when the filler
is. -/
theorem length_taint_hit_fill (finding : Finding) (c : RequestContext) (eventId : JString)
    (moment : Moment) :
    (RuntimeEvent.taintHit eventId finding (some (c.fill withheld (n + 1))) moment).toJson.length =
      (RuntimeEvent.taintHit eventId finding (some (c.fill withheld n)) moment).toJson.length +
        c.entries.countP fun e ↦ withheld e.1 := by
  have hparameters := length_string_map_fill withheld n c.parameters
  have hheaders := length_string_map_fill withheld n c.headers
  have hrequest : (RuntimeEvent.requestJson (c.fill withheld (n + 1))).length =
      (RuntimeEvent.requestJson (c.fill withheld n)).length +
        c.entries.countP fun e ↦ withheld e.1 := by
    simp only [RuntimeEvent.requestJson, List.length_append, RequestContext.entries,
      List.countP_append, parameters_fill, headers_fill, request_line_fill, body_excerpt_fill]
    omega
  simp only [RuntimeEvent.toJson, RuntimeEvent.taintHit, List.length_append, Option.map_some,
    Option.getD_some, trace_id_fill]
  omega

end Fill

/-- The line of a finding is the same in any two runs that differ in withheld values only, exactly
when no recorded parameter and no recorded header has a withheld key. -/
theorem undisclosed_iff (platform : Platform) (r : Redactor) (argument : JString)
    (finding : Finding) (shape : RequestContext) :
    Undisclosed (r.withholds platform) argument finding shape ↔
      ∀ e ∈ shape.entries, r.withholds platform e.1 = false := by
  constructor
  · intro h
    have hcount : shape.entries.countP (fun e ↦ r.withholds platform e.1) = 0 := by
      have hsame := h _ _ (like_fill _ (argument.length + 2) shape)
        (like_fill _ (argument.length + 1) shape)
        (absent_fill _ _ argument (by omega) shape) (absent_fill _ _ argument (by omega) shape)
        [] ⟨0, 0, true⟩
      have hlength := length_taint_hit_fill (r.withholds platform) (argument.length + 1) finding
        shape [] ⟨0, 0, true⟩
      rw [hsame] at hlength
      omega
    intro e he
    simpa using List.countP_eq_zero.mp hcount e he
  · intro h c₁ c₂ hc₁ hc₂ _ _ eventId moment
    rw [eq_of_like_contexts hc₁ h, eq_of_like_contexts hc₂ h]

/-! ## A disclosed password -/

/-- A redactor with the default deny-list that captures nothing. -/
def silentRedactor : Redactor :=
  .create asciiPlatform none .NONE 512 false

/-- A request whose handler has read the parameter `password`. -/
def passwordRequest (password : String) : RequestContext :=
  (RequestContext.create (java "trace") true).recordParameter (some (java "password"))
    (some (java password))

/-- What is reported when a tainted value reaches a query. -/
def queryFinding : Option Finding :=
  (SinkDetector.mk silentRedactor []).evaluate asciiPlatform
    (.fullyTainted 4 .PARAMETER (some (java "q"))) (java "name") .SQL_INJECTION
    (java "java.sql.Statement#execute") [] false

/-- The redactor calls the key sensitive and captures nothing, and the line of the finding still
tells one password from another. -/
theorem password_disclosed :
    silentRedactor.isSensitiveKey asciiPlatform (some (java "password")) = true ∧
      ∃ finding ∈ queryFinding,
        ¬Undisclosed (silentRedactor.withholds asciiPlatform) (java "name") finding
          (passwordRequest "hunter2") := by
  refine ⟨by decide, _, rfl, fun h ↦ ?_⟩
  have hlike (password : String) : LikeContexts (silentRedactor.withholds asciiPlatform)
      (passwordRequest "hunter2") (passwordRequest password) :=
    ⟨.cons ⟨rfl, .inl (by decide)⟩ .nil, .nil, rfl⟩
  have hsame := h _ _ (hlike "hunter2") (hlike "swordfish")
    (by unfold Absent; decide) (by unfold Absent; decide) (java "1-1") ⟨1, 1, true⟩
  have hlength := congrArg List.length hsame
  have hothers (password : String) : passwordRequest password =
      { RequestContext.create (java "trace") true with
        parameters := [(java "password", java password)] } := rfl
  simp only [RuntimeEvent.toJson, RuntimeEvent.taintHit, RuntimeEvent.requestJson,
    RuntimeEvent.requestLineJson, RequestContext.routeTemplate, List.length_append,
    Option.map_some, Option.getD_some, hothers] at hlength
  have hlonger : (stringMap [(java "password", java "hunter2")]).length <
      (stringMap [(java "password", java "swordfish")]).length := by decide
  omega

end Aegis.Agent
