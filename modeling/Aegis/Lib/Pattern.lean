import Mathlib.Data.List.Basic
import Mathlib.Data.List.Forall2

/-!
# Patterns

Regular expressions with zero-width tests, matched by backtracking. `results` lists the places a
match can end at, most preferred first, so a search and a replacement agree with an engine that
tries greedy choices in that order. `Reaches` is the same relation without the order, `results`
enumerates it, and `occurs_iff_of_twins` says that a pattern cannot tell apart texts that differ
only in symbols it does not look at.
-/

universe u

/-- A place in a text: what was read, nearest first, and what is still to read. -/
structure Place (α : Type u) where
  past : List α
  rest : List α

/-- Regular expressions over an alphabet. A `look` consumes nothing and tests both sides. -/
inductive Pattern (α : Type u) where
  | empty
  | one (accepts : α → Bool)
  | look (holds : List α → List α → Bool)
  | seq (first second : Pattern α)
  | alt (first second : Pattern α)
  | many (body : Pattern α)

namespace Pattern

variable {α : Type u}

/-! ## Derived forms -/

/-- One of these symbols. -/
def oneOf [DecidableEq α] (symbols : List α) : Pattern α :=
  .one fun a ↦ a ∈ symbols

/-- Any symbol but these. -/
def noneOf [DecidableEq α] (symbols : List α) : Pattern α :=
  .one fun a ↦ a ∉ symbols

/-- The patterns one after the other. -/
def all : List (Pattern α) → Pattern α
  | [] => .empty
  | p :: ps => .seq p (all ps)

/-- The first of the patterns that leads to a match. -/
def firstOf (p : Pattern α) : List (Pattern α) → Pattern α
  | [] => p
  | q :: qs => .alt p (firstOf q qs)

/-- The pattern or nothing, the pattern preferred. -/
def optional (p : Pattern α) : Pattern α :=
  .alt p .empty

/-- The pattern a number of times. -/
def times (p : Pattern α) : Nat → Pattern α
  | 0 => .empty
  | n + 1 => .seq p (times p n)

/-- The pattern at most a number of times, as often as possible preferred. -/
def atMost (p : Pattern α) : Nat → Pattern α
  | 0 => .empty
  | n + 1 => optional (.seq p (atMost p n))

/-- The pattern at least a number of times. -/
def atLeast (p : Pattern α) (least : Nat) : Pattern α :=
  .seq (times p least) (.many p)

/-- The pattern between two numbers of times. -/
def between (p : Pattern α) (least most : Nat) : Pattern α :=
  .seq (times p least) (atMost p (most - least))

/-! ## Matching -/

/-- Repeat a step that must get closer to the end, as often as possible preferred. -/
def iterate (step : Place α → List (Place α)) : Nat → Place α → List (Place α)
  | 0, c => [c]
  | fuel + 1, c =>
      ((step c).filter fun d ↦ d.rest.length < c.rest.length).flatMap (iterate step fuel) ++ [c]

/-- The places a match that starts here can end at, most preferred first. -/
def results : Pattern α → Place α → List (Place α)
  | .empty, c => [c]
  | .one _, ⟨_, []⟩ => []
  | .one accepts, ⟨past, a :: rest⟩ => if accepts a then [⟨a :: past, rest⟩] else []
  | .look holds, c => if holds c.past c.rest then [c] else []
  | .seq p q, c => (results p c).flatMap (results q)
  | .alt p q, c => results p c ++ results q c
  | .many p, c => iterate (results p) c.rest.length c

/-- A match starts at some place from here on. -/
def findFrom (p : Pattern α) (past : List α) : List α → Bool
  | [] => !(results p ⟨past, []⟩).isEmpty
  | a :: rest => !(results p ⟨past, a :: rest⟩).isEmpty || findFrom p (a :: past) rest

/-- The pattern matches some part of the text. -/
def find (p : Pattern α) (text : List α) : Bool :=
  findFrom p [] text

/-- Copy the rest of the text with every match replaced, the leftmost first and each by its most
preferred end. After an empty match one symbol is copied. -/
def replaceFrom (p : Pattern α) (replacement : List α) : Nat → Place α → List α
  | 0, c => c.rest
  | fuel + 1, c =>
      match (results p c).head?, c.rest with
      | some d, rest =>
          if d.rest.length < rest.length then replacement ++ replaceFrom p replacement fuel d
          else
            replacement ++ match rest with
              | [] => []
              | a :: rest => a :: replaceFrom p replacement fuel ⟨a :: c.past, rest⟩
      | none, [] => []
      | none, a :: rest => a :: replaceFrom p replacement fuel ⟨a :: c.past, rest⟩

/-- The text with every match replaced. -/
def replaceAll (p : Pattern α) (replacement text : List α) : List α :=
  replaceFrom p replacement (text.length + 1) ⟨[], text⟩

/-! ## What matching means -/

/-- A match of the pattern leads from one place to another. -/
inductive Reaches : Pattern α → Place α → Place α → Prop
  | empty (c : Place α) : Reaches .empty c c
  | one {accepts : α → Bool} {past rest : List α} {a : α} (haccepts : accepts a = true) :
      Reaches (.one accepts) ⟨past, a :: rest⟩ ⟨a :: past, rest⟩
  | look {holds : List α → List α → Bool} {c : Place α} (hholds : holds c.past c.rest = true) :
      Reaches (.look holds) c c
  | seq {p q : Pattern α} {c d e : Place α} (hfirst : Reaches p c d) (hsecond : Reaches q d e) :
      Reaches (.seq p q) c e
  | first {p q : Pattern α} {c d : Place α} (hfirst : Reaches p c d) : Reaches (.alt p q) c d
  | second {p q : Pattern α} {c d : Place α} (hsecond : Reaches q c d) : Reaches (.alt p q) c d
  | stop {p : Pattern α} (c : Place α) : Reaches (.many p) c c
  | again {p : Pattern α} {c d e : Place α} (hbody : Reaches p c d)
      (hcloser : d.rest.length < c.rest.length) (hagain : Reaches (.many p) d e) :
      Reaches (.many p) c e

/-- A match of the pattern starts at some place of the text. -/
def Occurs (p : Pattern α) (text : List α) : Prop :=
  ∃ past rest, text = past.reverse ++ rest ∧ ∃ d, Reaches p ⟨past, rest⟩ d

/-- Iterating a step enumerates the repetitions of what the step enumerates. -/
theorem mem_iterate_iff {p : Pattern α} {step : Place α → List (Place α)}
    (hstep : ∀ c d, d ∈ step c ↔ Reaches p c d) {fuel : Nat} {c d : Place α}
    (hfuel : c.rest.length ≤ fuel) : d ∈ iterate step fuel c ↔ Reaches (.many p) c d := by
  induction fuel generalizing c with
  | zero =>
      rw [iterate, List.mem_singleton]
      constructor
      · rintro rfl
        exact .stop d
      · intro h
        cases h with
        | stop => rfl
        | again _ hcloser _ => omega
  | succ fuel ih =>
      rw [iterate, List.mem_append, List.mem_flatMap, List.mem_singleton]
      constructor
      · rintro (⟨e, he, hd⟩ | rfl)
        · obtain ⟨hbody, hcloser⟩ := List.mem_filter.mp he
          have hcloser : e.rest.length < c.rest.length := by simpa using hcloser
          exact .again ((hstep c e).mp hbody) hcloser ((ih (by omega)).mp hd)
        · exact .stop d
      · intro h
        cases h with
        | stop => exact .inr rfl
        | again hbody hcloser hagain =>
            refine .inl ⟨_, List.mem_filter.mpr ⟨(hstep _ _).mpr hbody, ?_⟩,
              (ih (by omega)).mpr hagain⟩
            simpa using hcloser

/-- Matching enumerates the places that a match leads to. -/
theorem mem_results_iff {p : Pattern α} {c d : Place α} : d ∈ results p c ↔ Reaches p c d := by
  induction p generalizing c d with
  | empty =>
      rw [results, List.mem_singleton]
      exact ⟨fun h ↦ h ▸ .empty c, fun h ↦ by cases h; rfl⟩
  | one accepts =>
      obtain ⟨past, _ | ⟨a, rest⟩⟩ := c
      · exact ⟨fun h ↦ by simp [results] at h, fun h ↦ by cases h⟩
      · rw [results]
        constructor
        · intro h
          split at h
          · next haccepts =>
              rw [List.mem_singleton.mp h]
              exact .one haccepts
          · simp at h
        · intro h
          cases h with
          | one haccepts => simp [haccepts]
  | look holds =>
      rw [results]
      constructor
      · intro h
        split at h
        · next hholds =>
            rw [List.mem_singleton.mp h]
            exact .look hholds
        · simp at h
      · intro h
        cases h with
        | look hholds => simp [hholds]
  | seq p q ihp ihq =>
      rw [results, List.mem_flatMap]
      constructor
      · rintro ⟨e, he, hd⟩
        exact .seq (ihp.mp he) (ihq.mp hd)
      · intro h
        cases h with
        | seq hfirst hsecond => exact ⟨_, ihp.mpr hfirst, ihq.mpr hsecond⟩
  | alt p q ihp ihq =>
      rw [results, List.mem_append]
      constructor
      · rintro (h | h)
        · exact .first (ihp.mp h)
        · exact .second (ihq.mp h)
      · intro h
        cases h with
        | first hfirst => exact .inl (ihp.mpr hfirst)
        | second hsecond => exact .inr (ihq.mpr hsecond)
  | many p ih =>
      rw [results]
      exact mem_iterate_iff (fun _ _ ↦ ih) (Nat.le_refl _)

/-- Some match starts here exactly when matching yields a place. -/
theorem results_ne_nil_iff {p : Pattern α} {c : Place α} :
    (!(results p c).isEmpty) = true ↔ ∃ d, Reaches p c d := by
  simp only [← mem_results_iff, Bool.not_eq_true', List.isEmpty_eq_false_iff_exists_mem]

/-- The search finds a match that starts at a later place. -/
theorem find_from_iff {p : Pattern α} {past text : List α} :
    findFrom p past text = true ↔
      ∃ front rest, text = front.reverse ++ rest ∧ ∃ d, Reaches p ⟨front ++ past, rest⟩ d := by
  induction text generalizing past with
  | nil =>
      rw [findFrom, results_ne_nil_iff]
      constructor
      · rintro ⟨d, hd⟩
        exact ⟨[], [], rfl, d, hd⟩
      · rintro ⟨front, rest, htext, d, hd⟩
        obtain ⟨hfront, rfl⟩ := List.append_eq_nil_iff.mp htext.symm
        rw [List.reverse_eq_nil_iff.mp hfront] at hd
        exact ⟨d, hd⟩
  | cons a text ih =>
      rw [findFrom, Bool.or_eq_true, results_ne_nil_iff, ih]
      constructor
      · rintro (⟨d, hd⟩ | ⟨front, rest, htext, d, hd⟩)
        · exact ⟨[], a :: text, rfl, d, hd⟩
        · refine ⟨front ++ [a], rest, ?_, d, ?_⟩
          · simp [htext]
          · simpa using hd
      · rintro ⟨front, rest, htext, d, hd⟩
        rcases front.eq_nil_or_concat with rfl | ⟨front, b, rfl⟩
        · rw [List.reverse_nil, List.nil_append] at htext
          subst htext
          exact .inl ⟨d, hd⟩
        · simp only [List.concat_eq_append, List.reverse_append, List.reverse_singleton,
            List.append_assoc, List.cons_append, List.cons.injEq] at htext hd
          obtain ⟨rfl, htext⟩ := htext
          exact .inr ⟨front, rest, htext, d, hd⟩

/-- The search decides whether the pattern occurs. -/
theorem find_iff {p : Pattern α} {text : List α} : find p text = true ↔ Occurs p text := by
  rw [find, find_from_iff]
  simp only [List.append_nil]
  rfl

/-! ## Symbols a pattern does not look at -/

/-- The same symbol, or two inert ones. -/
def Twins (inert : α → Prop) (a b : α) : Prop :=
  a = b ∨ (inert a ∧ inert b)

/-- Twins stay twins when they trade places. -/
theorem Twins.symm {inert : α → Prop} {a b : α} (h : Twins inert a b) : Twins inert b a :=
  h.imp Eq.symm And.symm

/-- No part of the pattern can tell two inert symbols apart. -/
def Ignores (inert : α → Prop) : Pattern α → Prop
  | .empty => True
  | .one accepts => ∀ a b, inert a → inert b → accepts a = accepts b
  | .look holds => ∀ past past' rest rest', List.Forall₂ (Twins inert) past past' →
      List.Forall₂ (Twins inert) rest rest' → holds past rest = holds past' rest'
  | .seq p q => Ignores inert p ∧ Ignores inert q
  | .alt p q => Ignores inert p ∧ Ignores inert q
  | .many p => Ignores inert p

section Inert

variable {inert : α → Prop}

/-- A class that names no inert symbol accepts none of them. -/
theorem ignores_one_of [DecidableEq α] {symbols : List α} (hsymbols : ∀ a ∈ symbols, ¬inert a) :
    Ignores inert (oneOf symbols) := by
  intro a b ha hb
  have hnot (c : α) (hc : inert c) : c ∉ symbols := fun hmem ↦ hsymbols c hmem hc
  simp [hnot a ha, hnot b hb]

/-- A negated class that names no inert symbol accepts all of them. -/
theorem ignores_none_of [DecidableEq α] {symbols : List α} (hsymbols : ∀ a ∈ symbols, ¬inert a) :
    Ignores inert (noneOf symbols) := by
  intro a b ha hb
  have hnot (c : α) (hc : inert c) : c ∉ symbols := fun hmem ↦ hsymbols c hmem hc
  simp [hnot a ha, hnot b hb]

/-- A sequence ignores what every member ignores. -/
theorem ignores_all {ps : List (Pattern α)} (h : ∀ p ∈ ps, Ignores inert p) :
    Ignores inert (all ps) := by
  induction ps with
  | nil => trivial
  | cons p ps ih =>
      obtain ⟨hp, hps⟩ := List.forall_mem_cons.mp h
      exact ⟨hp, ih hps⟩

/-- A match can be followed in a text whose symbols are twins of the first text's. -/
theorem Reaches.transfer {p : Pattern α} (hignores : Ignores inert p) {c d : Place α}
    (h : Reaches p c d) {past rest : List α} (hpast : List.Forall₂ (Twins inert) c.past past)
    (hrest : List.Forall₂ (Twins inert) c.rest rest) :
    ∃ d', Reaches p ⟨past, rest⟩ d' ∧ List.Forall₂ (Twins inert) d.past d'.past ∧
      List.Forall₂ (Twins inert) d.rest d'.rest := by
  induction h generalizing past rest with
  | empty c => exact ⟨_, .empty _, hpast, hrest⟩
  | @one accepts _ _ a haccepts =>
      obtain _ | ⟨a', rest⟩ := rest
      · cases hrest
      · obtain ⟨htwin, htail⟩ := List.forall₂_cons.mp hrest
        refine ⟨⟨a' :: past, rest⟩, .one ?_, .cons htwin hpast, htail⟩
        rcases htwin with rfl | ⟨ha, ha'⟩
        · exact haccepts
        · rw [← hignores a a' ha ha']
          exact haccepts
  | look hholds =>
      refine ⟨_, .look ?_, hpast, hrest⟩
      rw [← hignores _ _ _ _ hpast hrest]
      exact hholds
  | seq _ _ ihfirst ihsecond =>
      obtain ⟨d', hfirst, hpast, hrest⟩ := ihfirst hignores.1 hpast hrest
      obtain ⟨e', hsecond, hpast, hrest⟩ := ihsecond hignores.2 hpast hrest
      exact ⟨e', .seq hfirst hsecond, hpast, hrest⟩
  | first _ ih =>
      obtain ⟨d', hd', hpast, hrest⟩ := ih hignores.1 hpast hrest
      exact ⟨d', .first hd', hpast, hrest⟩
  | second _ ih =>
      obtain ⟨d', hd', hpast, hrest⟩ := ih hignores.2 hpast hrest
      exact ⟨d', .second hd', hpast, hrest⟩
  | stop c => exact ⟨_, .stop _, hpast, hrest⟩
  | again _ hcloser _ ihbody ihagain =>
      have hlength := hrest.length_eq
      obtain ⟨d', hbody, hpast, hrest⟩ := ihbody hignores hpast hrest
      obtain ⟨e', hagain, hpast', hrest'⟩ := ihagain hignores hpast hrest
      have hlength' := hrest.length_eq
      refine ⟨e', .again hbody ?_ hagain, hpast', hrest'⟩
      rw [← hlength, ← hlength']
      exact hcloser

/-- An occurrence is found again in a text of twins. -/
theorem Occurs.transfer {p : Pattern α} (hignores : Ignores inert p) {s t : List α}
    (htwins : List.Forall₂ (Twins inert) s t) (h : Occurs p s) : Occurs p t := by
  obtain ⟨past, rest, rfl, d, hd⟩ := h
  have hfront := List.forall₂_take past.length htwins
  have hback := List.forall₂_drop past.length htwins
  rw [List.take_left' List.length_reverse] at hfront
  rw [List.drop_left' List.length_reverse] at hback
  have hpast := List.rel_reverse hfront
  rw [List.reverse_reverse] at hpast
  obtain ⟨d', hd', -⟩ := hd.transfer hignores hpast hback
  exact ⟨_, _, by simp, d', hd'⟩

/-- A pattern occurs in both or in neither of two texts that differ only in symbols it ignores. -/
theorem occurs_iff_of_twins {p : Pattern α} (hignores : Ignores inert p) {s t : List α}
    (htwins : List.Forall₂ (Twins inert) s t) : Occurs p s ↔ Occurs p t :=
  ⟨fun h ↦ h.transfer hignores htwins,
    fun h ↦ h.transfer hignores (htwins.flip.imp fun _ _ ↦ Twins.symm)⟩

end Inert

end Pattern
