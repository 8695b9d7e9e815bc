import Aegis.Agent.Taint.Propagators

/-!
# Soundness of the taint algebra

`Expr` closes the propagators under composition: each node is one string operation, with the taint
value the agent computes for it (`Expr.value`) and the truth about its characters
(`Expr.labels`). With true lengths and offsets in bounds the value always models the truth, so no
composition of operations launders a character and every value is in canonical form.
-/

namespace Aegis.Agent

open Spans TaintedValue

/-- An expression over strings. `source` is a value returned by a source and `plain` one written
by the application. `reshaped` is a wholesale rewrite: each character of its result derives from
the characters of the operand at the listed positions. -/
inductive Expr where
  | source (length : Nat) (kind : SourceKind) (name : Option JString)
  | plain (length : Nat)
  | concat (left right : Expr)
  | substring (operand : Expr) (lower upper : Nat)
  | insert (operand : Expr) (offset : Nat) (inserted : Expr)
  | replace (operand : Expr) (lower upper : Nat) (replacement : Expr)
  | reversed (operand : Expr)
  | sanitizedFor (operand : Expr) (rule : RuleClass)
  | reshaped (operand : Expr) (origins : List (List Nat))
  deriving DecidableEq

namespace Expr

/-- What is true of a character that derives from the characters at `positions`: it is tainted as
soon as one of them is, and safe for a rule only if all the tainted ones are. -/
def mix (truth : List (Option Label)) (positions : List Nat) : Option Label :=
  match positions.filterMap fun i ↦ (truth[i]?).join with
  | [] => none
  | first :: rest =>
      some { first with
        clearedFor := rest.foldl (fun cleared l ↦ cleared ∩ l.clearedFor) first.clearedFor }

/-- The truth about the characters of the string. -/
def labels : Expr → List (Option Label)
  | source n kind name => List.replicate n (some ⟨kind, name.getD [], ∅⟩)
  | plain n => List.replicate n none
  | concat left right => left.labels ++ right.labels
  | substring operand lower upper => (operand.labels.drop lower).take (upper - lower)
  | insert operand offset inserted =>
      operand.labels.take offset ++ inserted.labels ++ operand.labels.drop offset
  | replace operand lower upper replacement =>
      operand.labels.take lower ++ replacement.labels ++ operand.labels.drop upper
  | reversed operand => operand.labels.reverse
  | sanitizedFor operand rule => operand.labels.map (Option.map (·.clear rule))
  | reshaped operand origins => origins.map (mix operand.labels)

/-- The length of the string. -/
def length (e : Expr) : Nat := e.labels.length

/-- The taint value the agent computes, with every length the true one. -/
def value : Expr → Option TaintedValue
  | source n kind name => some (fullyTainted n kind name)
  | plain _ => some TaintedValue.empty
  | concat left right => do TaintedValue.concat (← left.value) left.length (← right.value)
  | substring operand lower upper => do some ((← operand.value).substring lower upper)
  | insert operand offset inserted => do
      (← operand.value).insert offset (← inserted.value) inserted.length
  | replace operand lower upper replacement => do
      (← operand.value).replace lower upper (← replacement.value) replacement.length
  | reversed operand => do some ((← operand.value).reversed operand.length)
  | sanitizedFor operand rule => do some ((← operand.value).sanitizedFor rule)
  | reshaped operand origins => do some ((← operand.value).reshaped origins.length)

/-- Every offset is one the JDK method accepts. `StringBuilder.replace` cuts an end past the
string down to its length, so that end is unchecked. -/
def InBounds : Expr → Prop
  | source _ _ _ | plain _ => True
  | concat left right => left.InBounds ∧ right.InBounds
  | substring operand lower upper =>
      operand.InBounds ∧ lower ≤ upper ∧ upper ≤ operand.length
  | insert operand offset inserted =>
      operand.InBounds ∧ inserted.InBounds ∧ offset ≤ operand.length
  | replace operand lower upper replacement =>
      operand.InBounds ∧ replacement.InBounds ∧ lower ≤ upper ∧ lower ≤ operand.length
  | reversed operand | sanitizedFor operand _ | reshaped operand _ => operand.InBounds

/-- The bounds of an expression are decided node by node. -/
instance InBounds.decidable : (e : Expr) → Decidable e.InBounds
  | source _ _ _ | plain _ => inferInstanceAs (Decidable True)
  | concat left right =>
      have := decidable left
      have := decidable right
      inferInstanceAs (Decidable (_ ∧ _))
  | substring operand _ _ =>
      have := decidable operand
      inferInstanceAs (Decidable (_ ∧ _ ∧ _))
  | insert operand _ inserted =>
      have := decidable operand
      have := decidable inserted
      inferInstanceAs (Decidable (_ ∧ _ ∧ _))
  | replace operand _ _ replacement =>
      have := decidable operand
      have := decidable replacement
      inferInstanceAs (Decidable (_ ∧ _ ∧ _ ∧ _))
  | reversed operand | sanitizedFor operand _ | reshaped operand _ => decidable operand

/-- A mixed character is tainted only if one it derives from is, and dangerous for a rule only if
one of those is. -/
theorem mix_eq_some {truth : List (Option Label)} {positions : List Nat} {l : Label}
    (h : mix truth positions = some l) :
    (∃ j m, labelOf truth j = some m) ∧ ∀ rule, rule ∉ l.clearedFor →
      ∃ j m, labelOf truth j = some m ∧ rule ∉ m.clearedFor := by
  have hmem : ∀ m ∈ positions.filterMap (fun i ↦ (truth[i]?).join),
      ∃ j : Int, labelOf truth j = some m := by
    intro m hm
    obtain ⟨i, -, hi⟩ := List.mem_filterMap.mp hm
    exact ⟨i, (label_of_natCast truth i).trans hi⟩
  unfold mix at h
  cases hlabels : positions.filterMap fun i ↦ (truth[i]?).join with
  | nil => simp [hlabels] at h
  | cons first rest =>
      rw [hlabels] at h hmem
      obtain rfl := Option.some.inj h
      obtain ⟨j, hj⟩ := hmem first (by simp)
      refine ⟨⟨j, first, hj⟩, fun rule hrule ↦ ?_⟩
      by_contra hsafe
      -- safe on every character it derives from, the rule stays in the intersection
      have hkept : ∀ (ls : List Label) (cleared : Finset RuleClass), rule ∈ cleared →
          (∀ m ∈ ls, rule ∈ m.clearedFor) →
            rule ∈ ls.foldl (fun cleared m ↦ cleared ∩ m.clearedFor) cleared := by
        intro ls
        induction ls with
        | nil => exact fun cleared h _ ↦ h
        | cons m ls ih =>
            intro cleared hcleared hall
            exact ih _ (Finset.mem_inter.mpr ⟨hcleared, hall m (by simp)⟩)
              fun m' hm' ↦ hall m' (by simp [hm'])
      have hcleared : ∀ m ∈ first :: rest, rule ∈ m.clearedFor := by
        intro m hm
        by_contra hnot
        obtain ⟨k, hk⟩ := hmem m hm
        exact hsafe ⟨k, m, hk, hnot⟩
      exact hrule (hkept rest first.clearedFor (hcleared first (by simp))
        fun m hm ↦ hcleared m (by simp [hm]))

/-- The characters of a rewritten string derive from those of its operand. -/
theorem derives_mix (truth : List (Option Label)) (origins : List (List Nat)) :
    Derives truth (origins.map (mix truth)) := by
  have hmix : ∀ i l, labelOf (origins.map (mix truth)) i = some l →
      ∃ positions, mix truth positions = some l := by
    intro i l h
    unfold labelOf at h
    split at h
    · rw [List.getElem?_map, Option.join_eq_some_iff] at h
      obtain ⟨positions, -, hpositions⟩ := Option.map_eq_some_iff.mp h
      exact ⟨positions, hpositions⟩
    · simp at h
  constructor
  · intro i l h
    obtain ⟨positions, hpositions⟩ := hmix i l h
    exact (mix_eq_some hpositions).1
  · intro i l rule h hrule
    obtain ⟨positions, hpositions⟩ := hmix i l h
    exact (mix_eq_some hpositions).2 rule hrule

/-- The value of an expression in bounds is defined and models the truth about it. -/
theorem value_models (e : Expr) (h : e.InBounds) :
    ∃ v, e.value = some v ∧ v.Models e.labels := by
  induction e with
  | source n kind name => exact ⟨_, rfl, models_fully_tainted n kind name⟩
  | plain n =>
      refine ⟨_, rfl, models_empty fun i ↦ ?_⟩
      unfold labelOf labels
      rw [List.getElem?_replicate]
      split_ifs <;> rfl
  | concat left right ihl ihr =>
      obtain ⟨v, hv, hmodels⟩ := ihl h.1
      obtain ⟨w, hw, hmodels'⟩ := ihr h.2
      obtain ⟨u, hu, hresult⟩ := hmodels.concat hmodels'
      exact ⟨u, by simpa [value, length, hv, hw] using hu, hresult⟩
  | substring operand lower upper ih =>
      obtain ⟨v, hv, hmodels⟩ := ih h.1
      exact ⟨_, by rw [value, hv]; rfl, hmodels.substring h.2.1 h.2.2⟩
  | insert operand offset inserted ih ihi =>
      obtain ⟨v, hv, hmodels⟩ := ih h.1
      obtain ⟨w, hw, hmodels'⟩ := ihi h.2.1
      obtain ⟨u, hu, hresult⟩ := hmodels.insert hmodels' h.2.2
      exact ⟨u, by simpa [value, length, hv, hw] using hu, hresult⟩
  | replace operand lower upper replacement ih ihr =>
      obtain ⟨v, hv, hmodels⟩ := ih h.1
      obtain ⟨w, hw, hmodels'⟩ := ihr h.2.1
      obtain ⟨u, hu, hresult⟩ := hmodels.replace hmodels' h.2.2.2 h.2.2.1
      exact ⟨u, by simpa [value, length, hv, hw] using hu, hresult⟩
  | reversed operand ih =>
      obtain ⟨v, hv, hmodels⟩ := ih h
      exact ⟨_, by rw [value, hv]; rfl, hmodels.reversed⟩
  | sanitizedFor operand rule ih =>
      obtain ⟨v, hv, hmodels⟩ := ih h
      exact ⟨_, by rw [value, hv]; rfl, hmodels.sanitizedFor rule⟩
  | reshaped operand origins ih =>
      obtain ⟨v, hv, hmodels⟩ := ih h
      have hresult := hmodels.reshaped (derives_mix operand.labels origins)
      rw [List.length_map] at hresult
      exact ⟨_, by rw [value, hv]; rfl, hresult⟩

/-- Soundness of the taint algebra: a precise value reads the true label of every character, and
a character dangerous for a rule always lies in a range that is not safe for it. -/
theorem value_sound (e : Expr) (h : e.InBounds) : ∃ v, e.value = some v ∧
    (v.imprecise = false → ∀ i (hi : i < e.labels.length), labelAt v.ranges i = e.labels[i]) ∧
    ∀ i (hi : i < e.labels.length) l rule, e.labels[i] = some l → rule ∉ l.clearedFor →
      ∃ r ∈ v.ranges, Covers r i ∧ r.isSafeFor rule = false := by
  obtain ⟨v, hv, hmodels⟩ := value_models e h
  have hlabel : ∀ i (hi : i < e.labels.length), labelOf e.labels i = e.labels[i] := by
    intro i hi
    rw [label_of_natCast, List.getElem?_eq_getElem hi, Option.join_some]
  refine ⟨v, hv, fun hprecise i hi ↦ ?_, fun i hi l rule hl hdanger ↦ ?_⟩
  · have hread := hmodels.reads i
    rw [hprecise, hlabel i hi] at hread
    exact hread
  · obtain ⟨m, hm, hsub⟩ := (hmodels.reads i).exists_read ((hlabel i hi).trans hl)
    obtain ⟨r, hr, hcovers, rfl⟩ := exists_of_label_at hm
    refine ⟨r, hr, hcovers, Bool.eq_false_iff.mpr fun hsafe ↦ hdanger (hsub ?_)⟩
    exact (TaintRange.is_safe_for_iff r rule).mp hsafe

/-- A query with a reversed parameter inserted before an escaped cookie. -/
def query : Expr :=
  .insert
    (.concat (.plain 8) (.sanitizedFor (.source 3 .COOKIE (some (java "id"))) .REFLECTED_XSS)) 8
    (.reversed (.source 2 .PARAMETER (some (java "q"))))

/-- The first character of the inserted parameter is reported, and the cookie is not dangerous for
the rule it was escaped for. -/
theorem value_sound_query : ∃ v, query.value = some v ∧
    (v.imprecise = false → labelAt v.ranges (10 : Nat) =
      some ⟨.COOKIE, java "id", {.REFLECTED_XSS}⟩) ∧
    ∃ r ∈ v.ranges, Covers r (8 : Nat) ∧ r.isSafeFor .SQL_INJECTION = false := by
  obtain ⟨v, hv, hprecise, hdanger⟩ := value_sound query (by decide)
  exact ⟨v, hv, fun h ↦ (hprecise h 10 (by decide)).trans (by decide),
    hdanger 8 (by decide) ⟨.PARAMETER, java "q", ∅⟩ .SQL_INJECTION (by decide) (by decide)⟩

/-- Every value the agent computes is in canonical form. -/
theorem value_canonical (e : Expr) (h : e.InBounds) :
    ∃ v, e.value = some v ∧ v.Canonical e.length := by
  obtain ⟨v, hv, hmodels⟩ := value_models e h
  exact ⟨v, hv, hmodels.canonical⟩

/-- The value of `query` is defined and canonical at its 13 characters. -/
theorem value_canonical_query :
    query.length = 13 ∧ ∃ v, query.value = some v ∧ v.Canonical query.length :=
  ⟨by decide, value_canonical query (by decide)⟩

end Expr

end Aegis.Agent
