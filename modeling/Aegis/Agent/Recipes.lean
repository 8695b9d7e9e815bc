import Aegis.Agent.AgentRuntime
import Aegis.Agent.Taint.Propagators

/-!
# Concatenation by recipe

A recipe of `StringConcatFactory` is a string of literal characters and tags that ask for the next
argument or the next constant. `readRecipe` turns it into the pieces of the result and
`Piece.append` is one turn of the loop of `onIndyConcat`, so the loop is a fold over the pieces
(`concat_loop_eq_some_iff`). Over the pieces the fold models the concatenation of what is recorded
of each of them, and it is the fold of the binary concatenation.
-/

namespace Aegis.Agent

open Spans TaintedValue AgentRuntime

/-! ## Values in canonical form -/

namespace TaintedValue

/-- Normalizing a value that is in canonical form changes nothing. -/
theorem normalize_of_canonical {v : TaintedValue} {n : Int} (h : v.Canonical n) :
    normalize v.ranges v.imprecise = v := by
  have hsorted : v.ranges.insertionSort sortsBefore = v.ranges :=
    (h.sorted.imp fun hlt ↦ .inl hlt).insertionSort_eq
  have hchain := h.separated
  unfold normalize
  rw [hsorted]
  cases hranges : v.ranges with
  | nil =>
      dsimp only
      rw [← hranges]
  | cons current rest =>
      rw [hranges] at hchain
      dsimp only
      rw [coalesce_of_chain hchain, ← hranges, if_pos h.bounded]

/-- Normalizing no more ranges than a value may have keeps it precise and adds none. -/
theorem normalize_of_few {input : List TaintRange} (imprecise : Bool)
    (h : input.length ≤ MAX_RANGES) :
    (normalize input imprecise).imprecise = imprecise ∧
      (normalize input imprecise).ranges.length ≤ input.length := by
  have hsorted := List.length_insertionSort sortsBefore input
  unfold normalize
  cases hs : input.insertionSort sortsBefore with
  | nil => exact ⟨rfl, Nat.zero_le _⟩
  | cons current rest =>
      rw [hs, List.length_cons] at hsorted
      have hfewer := length_coalesce_le TaintRange.mergeableWith TaintRange.mergeWith current rest
      dsimp only
      rw [if_pos (by omega)]
      exact ⟨rfl, hfewer.trans hsorted.le⟩

/-- What a value says about each of the first `n` characters. -/
def reading (v : TaintedValue) (n : Nat) : List (Option Label) :=
  (List.range n).map fun i : Nat ↦ labelAt v.ranges i

@[simp] theorem length_reading (v : TaintedValue) (n : Nat) : (v.reading n).length = n := by
  simp [reading]

/-- The untainted value says nothing. -/
theorem reading_empty (n : Nat) : empty.reading n = List.replicate n none := by
  simp [reading, empty, List.map_const']

/-- A canonical value models what it says itself. -/
theorem Canonical.models_reading {v : TaintedValue} {n : Nat} (h : v.Canonical n) :
    v.Models (v.reading n) where
  canonical := by rwa [length_reading]
  reads i := by
    have hlabel : labelOf (v.reading n) i = labelAt v.ranges i := by
      by_cases hin : 0 ≤ i ∧ i < n
      · obtain ⟨k, rfl⟩ := Int.eq_ofNat_of_zero_le hin.1
        rw [label_of_natCast, reading, List.getElem?_map, List.getElem?_range (by omega)]
        rfl
      · rw [label_of_outside _ (by rw [length_reading]; omega),
          label_at_outside h.within (by omega)]
    rw [hlabel]
    exact .refl _ _

/-- Appending what is not tainted keeps a value that is in canonical form. -/
theorem concat_empty {v : TaintedValue} {n : Int} (h : v.Canonical n)
    (hv : v.isTainted = false → v = empty) (length : Int) : v.concat length empty = some v := by
  unfold TaintedValue.concat
  cases htainted : v.isTainted with
  | false => exact congrArg some (hv htainted).symm
  | true =>
      show some (normalize (v.ranges ++ []) (v.imprecise || false)) = some v
      rw [List.append_nil, Bool.or_false, normalize_of_canonical h]

end TaintedValue

/-! ## Pieces -/

/-- A piece of a concatenation: a literal character of the recipe, or what a tag asks for. -/
inductive Piece where
  | literal (character : JChar)
  | constant (value : Option Obj)
  | argument (value : Option Obj)
  deriving DecidableEq

namespace Piece

/-- The characters the piece contributes, if it has a text. -/
def text : Piece → Option JString
  | literal character => some [character]
  | constant value | argument value => valueOf value

/-- What the table says of the piece. Only arguments are looked up. -/
def taint (tracker : TaintTracker) : Piece → TaintedValue
  | literal _ | constant _ => .empty
  | argument value => tracker.taintOf (value.map Obj.id)

/-- What is recorded of each character of the piece. -/
def labels (tracker : TaintTracker) (piece : Piece) : List (Option Label) :=
  (piece.taint tracker).reading (piece.text.getD []).length

/-- The ranges recorded of the piece are in canonical form and lie in its text. -/
def Sound (tracker : TaintTracker) (piece : Piece) : Prop :=
  (piece.taint tracker).Canonical (piece.text.getD []).length

/-- One turn of the loop: the taint accumulated and the length reached. -/
def append (tracker : TaintTracker) (reached : TaintedValue × Int) :
    Piece → Option (TaintedValue × Int)
  | literal _ => some (reached.1, reached.2 + 1)
  | constant value => do
      let text ← valueOf value
      some (reached.1, reached.2 + text.length)
  | argument value => do
      let accumulated ← reached.1.concat reached.2 (tracker.taintOf (value.map Obj.id))
      let text ← valueOf value
      some (accumulated, reached.2 + text.length)

/-- One step of the binary concatenation, which treats every piece alike. -/
def concat (tracker : TaintTracker) (reached : TaintedValue × Int) (piece : Piece) :
    Option (TaintedValue × Int) := do
  let accumulated ← reached.1.concat reached.2 (piece.taint tracker)
  let text ← piece.text
  some (accumulated, reached.2 + text.length)

end Piece

/-- The pieces a recipe names, when there is an argument and a constant for every tag. -/
def readRecipe : JString → List (Option Obj) → List (Option Obj) → Option (List Piece)
  | [], _, _ => some []
  | marker :: recipe, arguments, constants =>
      if marker = RECIPE_ARGUMENT then
        match arguments with
        | [] => none
        | argument :: arguments =>
            (readRecipe recipe arguments constants).map (.argument argument :: ·)
      else if marker = RECIPE_CONSTANT then
        match constants with
        | [] => none
        | constant :: constants =>
            (readRecipe recipe arguments constants).map (.constant constant :: ·)
      else (readRecipe recipe arguments constants).map (.literal marker :: ·)

/-- A tag asks for one of the arguments. -/
theorem argument_mem {recipe : JString} {arguments constants : List (Option Obj)}
    {pieces : List Piece} (h : readRecipe recipe arguments constants = some pieces)
    {value : Option Obj} (hmem : .argument value ∈ pieces) : value ∈ arguments := by
  induction recipe generalizing arguments constants pieces with
  | nil =>
      obtain rfl := Option.some.inj h
      exact nomatch hmem
  | cons marker recipe ih =>
      unfold readRecipe at h
      split at h
      · cases arguments with
        | nil => exact nomatch h
        | cons argument arguments =>
            obtain ⟨rest, hrest, rfl⟩ := Option.map_eq_some_iff.mp h
            rcases List.mem_cons.mp hmem with heq | hmem
            · obtain rfl := Piece.argument.inj heq
              exact List.mem_cons_self ..
            · exact List.mem_cons_of_mem _ (ih hrest hmem)
      · split at h
        · cases constants with
          | nil => exact nomatch h
          | cons constant constants =>
              obtain ⟨rest, hrest, rfl⟩ := Option.map_eq_some_iff.mp h
              rcases List.mem_cons.mp hmem with heq | hmem
              · exact nomatch heq
              · exact ih hrest hmem
        · obtain ⟨rest, hrest, rfl⟩ := Option.map_eq_some_iff.mp h
          rcases List.mem_cons.mp hmem with heq | hmem
          · exact nomatch heq
          · exact ih hrest hmem

/-- What is recorded of each argument is in canonical form and lies in its text. -/
def SoundArguments (tracker : TaintTracker) (arguments : List (Option Obj)) : Prop :=
  ∀ argument ∈ arguments, (Piece.argument argument).Sound tracker

/-- The pieces of a recipe are sound when the arguments are. -/
theorem SoundArguments.pieces {tracker : TaintTracker} {recipe : JString}
    {arguments constants : List (Option Obj)} (h : SoundArguments tracker arguments)
    {pieces : List Piece} (hread : readRecipe recipe arguments constants = some pieces) :
    ∀ piece ∈ pieces, piece.Sound tracker := by
  intro piece hpiece
  cases piece with
  | literal character => exact canonical_nil _ _
  | constant value => exact canonical_nil _ _
  | argument value => exact h value (argument_mem hread hpiece)

/-! ## The loop is a fold -/

/-- The loop over a recipe touches nothing. It returns what the fold over the pieces returns, when
the recipe can be read and the fold raises nothing. -/
theorem concat_loop_spec (tracker : TaintTracker) (recipe : JString)
    (arguments constants : List (Option Obj)) (accumulated : TaintedValue) (offset : Int) :
    ∃ outcome, (∀ h faults,
      concatLoop tracker recipe arguments constants accumulated offset h faults =
        ⟨outcome, h, faults⟩) ∧
      ∀ reached, outcome = .ok (some reached) ↔
        ∃ pieces, readRecipe recipe arguments constants = some pieces ∧
          pieces.foldlM (Piece.append tracker) (accumulated, offset) = some reached := by
  induction recipe generalizing arguments constants accumulated offset with
  | nil =>
      refine ⟨_, fun _ _ ↦ rfl, fun reached ↦ ?_⟩
      simp [readRecipe, eq_comm]
  | cons marker recipe ih =>
      by_cases hargument : marker = RECIPE_ARGUMENT
      · subst hargument
        cases arguments with
        | nil => exact ⟨.ok none, fun _ _ ↦ rfl, fun _ ↦ by simp [readRecipe]⟩
        | cons argument arguments =>
            cases hconcat : accumulated.concat offset (tracker.taintOf (argument.map Obj.id)) with
            | none =>
                refine ⟨.error .internal, fun h faults ↦ ?_, fun _ ↦ ?_⟩
                · simp only [concatLoop, if_pos, hconcat]
                  rfl
                · simp [readRecipe, Piece.append, hconcat]
            | some next =>
                cases htext : valueOf argument with
                | none =>
                    refine ⟨.error .internal, fun h faults ↦ ?_, fun _ ↦ ?_⟩
                    · simp only [concatLoop, if_pos, hconcat, lengthOf, htext]
                      rfl
                    · simp [readRecipe, Piece.append, hconcat, htext]
                | some text =>
                    obtain ⟨outcome, hloop, hiff⟩ :=
                      ih arguments constants next (offset + text.length)
                    refine ⟨outcome, fun h faults ↦ ?_, fun reached ↦ ?_⟩
                    · rw [← hloop h faults]
                      simp only [concatLoop, if_pos, hconcat, lengthOf, htext]
                      rfl
                    · rw [hiff]
                      simp [readRecipe, Piece.append, hconcat, htext]
      by_cases hconstant : marker = RECIPE_CONSTANT
      · subst hconstant
        cases constants with
        | nil => exact ⟨.ok none, fun _ _ ↦ rfl, fun _ ↦ by simp [readRecipe, hargument]⟩
        | cons constant constants =>
            cases htext : valueOf constant with
            | none =>
                refine ⟨.error .internal, fun h faults ↦ ?_, fun _ ↦ ?_⟩
                · simp only [concatLoop, if_neg hargument, if_pos, lengthOf, htext]
                  rfl
                · simp [readRecipe, hargument, Piece.append, htext]
            | some text =>
                obtain ⟨outcome, hloop, hiff⟩ :=
                  ih arguments constants accumulated (offset + text.length)
                refine ⟨outcome, fun h faults ↦ ?_, fun reached ↦ ?_⟩
                · rw [← hloop h faults]
                  simp only [concatLoop, if_neg hargument, if_pos, lengthOf, htext]
                  rfl
                · rw [hiff]
                  simp [readRecipe, hargument, Piece.append, htext]
      · obtain ⟨outcome, hloop, hiff⟩ := ih arguments constants accumulated (offset + 1)
        refine ⟨outcome, fun h faults ↦ ?_, fun reached ↦ ?_⟩
        · rw [← hloop h faults]
          simp only [concatLoop, if_neg hargument, if_neg hconstant]
        · rw [hiff]
          simp [readRecipe, hargument, hconstant, Piece.append]

/-! ## What the fold computes -/

namespace TaintedValue

/-- Normalizing keeps a value tainted. -/
theorem is_tainted_normalize (input : List TaintRange) (imprecise : Bool) :
    (normalize input imprecise).isTainted = !input.isEmpty := by
  have hsorted := List.length_insertionSort sortsBefore input
  unfold normalize
  cases hs : input.insertionSort sortsBefore with
  | nil =>
      rw [hs] at hsorted
      rw [List.length_eq_zero_iff.mp hsorted.symm]
      rfl
  | cons current rest =>
      rw [hs] at hsorted
      have hsome : input.isEmpty = false := by
        rw [List.isEmpty_eq_false_iff]
        rintro rfl
        simp at hsorted
      have hcoalesced := coalesce_ne_nil TaintRange.mergeableWith TaintRange.mergeWith current rest
      dsimp only
      rw [hsome]
      split
      · simpa [isTainted] using hcoalesced
      · cases hmerged : coalesce TaintRange.mergeableWith TaintRange.mergeWith current rest with
        | nil => exact absurd hmerged hcoalesced
        | cons => rfl

/-- Mapping with possible failure keeps the length. -/
theorem length_of_mapM_some {α β : Type*} {f : α → Option β} {l : List α} {m : List β}
    (h : l.mapM f = some m) : m.length = l.length := by
  induction l generalizing m with
  | nil =>
      obtain rfl := Option.some.inj h
      rfl
  | cons a l ih =>
      rw [List.mapM_cons] at h
      obtain ⟨b, -, h⟩ := Option.bind_eq_some_iff.mp h
      obtain ⟨bs, hbs, h⟩ := Option.bind_eq_some_iff.mp h
      obtain rfl := Option.some.inj h
      rw [List.length_cons, List.length_cons, ih hbs]

/-- A concatenation is tainted as soon as an operand is, and otherwise it is the untainted
value. -/
theorem concat_cases {left right v : TaintedValue} {length : Int}
    (h : left.concat length right = some v) :
    v.isTainted = (left.isTainted || right.isTainted) ∧ (v.isTainted = false → v = empty) := by
  unfold TaintedValue.concat at h
  split at h
  · next huntainted =>
      obtain rfl := Option.some.inj h
      simp only [Bool.and_eq_true, Bool.not_eq_true'] at huntainted
      rw [huntainted.1, huntainted.2]
      exact ⟨rfl, fun _ ↦ rfl⟩
  · next htainted =>
      obtain ⟨shifted, hshifted, hv⟩ := Option.bind_eq_some_iff.mp h
      obtain rfl := Option.some.inj hv
      have hlength : shifted.length = right.ranges.length :=
        length_of_mapM_some hshifted
      have hsame : (left.ranges ++ shifted).isEmpty =
          (left.ranges.isEmpty && right.ranges.isEmpty) := by
        cases left.ranges with
        | nil => cases shifted <;> cases hright : right.ranges <;> simp_all
        | cons => rfl
      rw [is_tainted_normalize, hsame, Bool.not_and]
      refine ⟨rfl, fun hnot ↦ absurd hnot ?_⟩
      simpa [isTainted] using htainted

end TaintedValue

/-- The texts of the pieces, one after the other. -/
def textOf (pieces : List Piece) : JString :=
  pieces.flatMap fun piece ↦ piece.text.getD []

/-- What is recorded of each character of the pieces, one after the other. -/
def labelsOf (tracker : TaintTracker) (pieces : List Piece) : List (Option Label) :=
  pieces.flatMap (Piece.labels tracker)

/-- What the fold has reached: a model of what is true of the characters so far. -/
structure Reached (reached : TaintedValue × Int) (truth : List (Option Label)) : Prop where
  models : reached.1.Models truth
  offset : reached.2 = truth.length
  untainted : reached.1.isTainted = false → reached.1 = TaintedValue.empty

/-- The fold starts from the empty string. -/
theorem reached_nil : Reached (.empty, 0) [] where
  models := models_empty label_of_nil
  offset := rfl
  untainted _ := rfl

/-- A turn of the loop does what a binary concatenation does, and reaches the characters of the
piece. -/
theorem Reached.append {tracker : TaintTracker} {reached : TaintedValue × Int}
    {truth : List (Option Label)} (h : Reached reached truth) {piece : Piece}
    (hsound : piece.Sound tracker) {text : JString} (htext : piece.text = some text) :
    ∃ next, piece.append tracker reached = some next ∧ piece.concat tracker reached = some next ∧
      Reached next (truth ++ piece.labels tracker) := by
  obtain ⟨accumulated, offset⟩ := reached
  obtain rfl : offset = truth.length := h.offset
  have hlength : (piece.labels tracker).length = text.length := by
    rw [Piece.labels, htext, length_reading, Option.getD_some]
  obtain ⟨next, hconcat, hmodels⟩ := h.models.concat hsound.models_reading
  have hnext : Reached (next, (truth.length : Int) + text.length)
      (truth ++ piece.labels tracker) :=
    ⟨hmodels, by rw [List.length_append, hlength, Nat.cast_add], (concat_cases hconcat).2⟩
  refine ⟨(next, truth.length + text.length), ?_, ?_, hnext⟩
  · -- where the loop does not concatenate, there is nothing to concatenate
    have hplain : piece.taint tracker = .empty → next = accumulated := by
      intro hempty
      rw [hempty, concat_empty h.models.canonical h.untainted] at hconcat
      exact (Option.some.inj hconcat).symm
    cases piece with
    | literal character =>
        obtain rfl := Option.some.inj htext
        rw [hplain rfl]
        rfl
    | constant value =>
        rw [hplain rfl, Piece.append, show valueOf value = some text from htext]
        rfl
    | argument value =>
        show ((accumulated.concat truth.length (tracker.taintOf (value.map Obj.id))).bind fun v ↦
          (valueOf value).bind fun t ↦ some (v, (truth.length : Int) + t.length)) = _
        rw [show accumulated.concat _ (tracker.taintOf _) = some next from hconcat,
          show valueOf value = some text from htext]
        rfl
  · rw [Piece.concat, hconcat, htext]
    rfl

/-- The loop over sound pieces that have texts reaches all their characters, and does what the
binary concatenations do one after the other. -/
theorem fold_append {tracker : TaintTracker} {pieces : List Piece} {reached : TaintedValue × Int}
    {truth : List (Option Label)} (h : Reached reached truth)
    (hsound : ∀ piece ∈ pieces, piece.Sound tracker)
    (htexts : ∀ piece ∈ pieces, piece.text.isSome) :
    ∃ last, pieces.foldlM (Piece.append tracker) reached = some last ∧
      pieces.foldlM (Piece.concat tracker) reached = some last ∧
      Reached last (truth ++ labelsOf tracker pieces) := by
  induction pieces generalizing reached truth with
  | nil => exact ⟨reached, rfl, rfl, by simpa [labelsOf] using h⟩
  | cons piece pieces ih =>
      rw [List.forall_mem_cons] at hsound htexts
      obtain ⟨text, htext⟩ := Option.isSome_iff_exists.mp htexts.1
      obtain ⟨next, happend, hconcat, hnext⟩ := h.append hsound.1 htext
      obtain ⟨last, happends, hconcats, hlast⟩ := ih hnext hsound.2 htexts.2
      refine ⟨last, ?_, ?_, ?_⟩
      · rw [List.foldlM_cons, happend]
        exact happends
      · rw [List.foldlM_cons, hconcat]
        exact hconcats
      · rw [labelsOf, List.flatMap_cons, ← List.append_assoc]
        exact hlast

/-- A fold that returns has read a text from every piece and has reached the length of all. -/
theorem fold_append_length {tracker : TaintTracker} {pieces : List Piece}
    {reached last : TaintedValue × Int}
    (h : pieces.foldlM (Piece.append tracker) reached = some last) :
    (∀ piece ∈ pieces, piece.text.isSome) ∧ last.2 = reached.2 + (textOf pieces).length := by
  induction pieces generalizing reached with
  | nil =>
      obtain rfl := Option.some.inj h
      simp [textOf]
  | cons piece pieces ih =>
      rw [List.foldlM_cons] at h
      obtain ⟨next, happend, hrest⟩ := Option.bind_eq_some_iff.mp h
      obtain ⟨htexts, hlength⟩ := ih hrest
      have hpiece : ∃ text, piece.text = some text ∧ next.2 = reached.2 + text.length := by
        cases piece with
        | literal character =>
            obtain rfl := Option.some.inj happend
            exact ⟨[character], rfl, rfl⟩
        | constant value =>
            obtain ⟨text, htext, hnext⟩ := Option.bind_eq_some_iff.mp happend
            obtain rfl := Option.some.inj hnext
            exact ⟨text, htext, rfl⟩
        | argument value =>
            obtain ⟨accumulated, -, happend⟩ := Option.bind_eq_some_iff.mp happend
            obtain ⟨text, htext, hnext⟩ := Option.bind_eq_some_iff.mp happend
            obtain rfl := Option.some.inj hnext
            exact ⟨text, htext, rfl⟩
      obtain ⟨text, htext, hnext⟩ := hpiece
      refine ⟨List.forall_mem_cons.mpr ⟨by rw [htext]; rfl, htexts⟩, ?_⟩
      have htextOf : textOf (piece :: pieces) = text ++ textOf pieces := by
        rw [textOf, List.flatMap_cons, htext]
        rfl
      rw [hlength, hnext, htextOf, List.length_append, Nat.cast_add, add_assoc]

/-- A fold over pieces of which nothing is recorded reaches the untainted value. -/
theorem fold_append_untainted {tracker : TaintTracker} {pieces : List Piece}
    {reached last : TaintedValue × Int} (hreached : reached.1 = TaintedValue.empty)
    (hpieces : ∀ piece ∈ pieces, (piece.taint tracker).isTainted = false)
    (h : pieces.foldlM (Piece.append tracker) reached = some last) :
    last.1 = TaintedValue.empty := by
  induction pieces generalizing reached with
  | nil =>
      obtain rfl := Option.some.inj h
      exact hreached
  | cons piece pieces ih =>
      rw [List.foldlM_cons] at h
      obtain ⟨next, happend, hrest⟩ := Option.bind_eq_some_iff.mp h
      rw [List.forall_mem_cons] at hpieces
      refine ih ?_ hpieces.2 hrest
      cases piece with
      | literal character =>
          obtain rfl := Option.some.inj happend
          exact hreached
      | constant value =>
          obtain ⟨text, -, hnext⟩ := Option.bind_eq_some_iff.mp happend
          obtain rfl := Option.some.inj hnext
          exact hreached
      | argument value =>
          obtain ⟨accumulated, hconcat, happend⟩ := Option.bind_eq_some_iff.mp happend
          obtain ⟨text, -, hnext⟩ := Option.bind_eq_some_iff.mp happend
          obtain rfl := Option.some.inj hnext
          obtain ⟨htainted, hempty⟩ := concat_cases hconcat
          refine hempty (htainted.trans ?_)
          rw [hreached, show (tracker.taintOf _).isTainted = false from hpieces.1]
          rfl

/-! ## When the fold stays precise -/

/-- What is recorded of the pieces is precise, and there are few enough ranges. -/
structure Precise (tracker : TaintTracker) (pieces : List Piece) : Prop where
  exact : ∀ piece ∈ pieces, (piece.taint tracker).imprecise = false
  few : (pieces.map fun piece ↦ (piece.taint tracker).ranges.length).sum ≤ MAX_RANGES

/-- A concatenation of precise values with few ranges is precise, and its ranges are no more than
theirs. -/
theorem concat_precise {left right v : TaintedValue} {length : Int}
    (h : left.concat length right = some v) (hleft : left.imprecise = false)
    (hright : right.imprecise = false)
    (hfew : left.ranges.length + right.ranges.length ≤ MAX_RANGES) :
    v.imprecise = false ∧ v.ranges.length ≤ left.ranges.length + right.ranges.length := by
  unfold TaintedValue.concat at h
  split at h
  · obtain rfl := Option.some.inj h
    exact ⟨rfl, Nat.zero_le _⟩
  · obtain ⟨shifted, hshifted, hv⟩ := Option.bind_eq_some_iff.mp h
    obtain rfl := Option.some.inj hv
    have hlength : (left.ranges ++ shifted).length = left.ranges.length + right.ranges.length := by
      rw [List.length_append, length_of_mapM_some hshifted]
    have hnormalized := normalize_of_few (left.imprecise || right.imprecise)
      (hlength.trans_le hfew)
    rw [hlength] at hnormalized
    refine ⟨hnormalized.1.trans ?_, hnormalized.2⟩
    rw [hleft, hright]
    rfl

/-- The loop over precise pieces with few ranges returns a precise value. -/
theorem fold_append_precise {tracker : TaintTracker} {pieces : List Piece}
    {reached last : TaintedValue × Int} (hreached : reached.1.imprecise = false)
    (hexact : ∀ piece ∈ pieces, (piece.taint tracker).imprecise = false)
    (hfew : reached.1.ranges.length +
      (pieces.map fun piece ↦ (piece.taint tracker).ranges.length).sum ≤ MAX_RANGES)
    (h : pieces.foldlM (Piece.append tracker) reached = some last) :
    last.1.imprecise = false := by
  induction pieces generalizing reached with
  | nil =>
      obtain rfl := Option.some.inj h
      exact hreached
  | cons piece pieces ih =>
      rw [List.foldlM_cons] at h
      obtain ⟨next, happend, hrest⟩ := Option.bind_eq_some_iff.mp h
      rw [List.forall_mem_cons] at hexact
      rw [List.map_cons, List.sum_cons] at hfew
      have hnext : next.1.imprecise = false ∧
          next.1.ranges.length ≤ reached.1.ranges.length + (piece.taint tracker).ranges.length := by
        cases piece with
        | literal character =>
            obtain rfl := Option.some.inj happend
            exact ⟨hreached, Nat.le_add_right _ _⟩
        | constant value =>
            obtain ⟨text, -, hnext⟩ := Option.bind_eq_some_iff.mp happend
            obtain rfl := Option.some.inj hnext
            exact ⟨hreached, Nat.le_add_right _ _⟩
        | argument value =>
            obtain ⟨accumulated, hconcat, happend⟩ := Option.bind_eq_some_iff.mp happend
            obtain ⟨text, -, hnext⟩ := Option.bind_eq_some_iff.mp happend
            obtain rfl := Option.some.inj hnext
            exact concat_precise hconcat hreached hexact.1
              ((Nat.le_add_right _ _).trans ((Nat.add_assoc ..).trans_le hfew))
      exact ih hnext.1 hexact.2 (by omega) hrest

end Aegis.Agent
