import Mathlib.Data.List.Sort
import Mathlib.Order.Basic
import Mathlib.Data.List.Chain
import Mathlib.Tactic.Common

/-!
# Lists of labelled spans

A span is a nonempty half-open integer interval that carries a label. This library works over
any type of spans: an instance of `Span` says where a span starts and ends and what its label is.
A list of disjoint spans is read as a partial function from positions to labels, `labelAt`.
`label_at_flat_map` computes that function for a list whose spans have been moved, cut or split,
`sorted_ordered` says that sorting disjoint spans by start puts them in order, and the `coalesce`
section merges adjacent spans with equal labels without changing a single position.
-/

namespace Spans

universe u v

/-- A type of nonempty half-open integer intervals, each carrying a label. -/
class Span (R : Type u) (L : outParam (Type v)) where
  lo : R → Int
  hi : R → Int
  label : R → L
  lo_lt_hi : ∀ r, lo r < hi r

export Span (lo hi label lo_lt_hi)

variable {R R' : Type u} {L L' : Type v} [Span R L] [Span R' L']

/-- The position lies inside the span. -/
def Covers (r : R) (i : Int) : Prop :=
  lo r ≤ i ∧ i < hi r

/-- Covering is decided by two integer comparisons. -/
instance (r : R) (i : Int) : Decidable (Covers r i) :=
  inferInstanceAs (Decidable (_ ∧ _))

/-- No position lies in two spans of the list. -/
def Disjoint (l : List R) : Prop :=
  l.Pairwise fun a b ↦ ∀ i, Covers a i → ¬ Covers b i

/-- Every span ends before the next ones start. -/
def Ordered (l : List R) : Prop :=
  l.Pairwise fun a b ↦ hi a ≤ lo b

/-- Every span starts no later than the next ones. -/
def Rising (l : List R) : Prop :=
  l.Pairwise fun a b ↦ lo a ≤ lo b

/-- Every span lies in `[0, n)`. -/
def Within (n : Int) (l : List R) : Prop :=
  ∀ r ∈ l, 0 ≤ lo r ∧ hi r ≤ n

/-- The label of the first span that covers the position, if any does. -/
def labelAt (l : List R) (i : Int) : Option L :=
  (l.find? fun r ↦ decide (Covers r i)).map label

@[simp] theorem label_at_nil (i : Int) : labelAt ([] : List R) i = none := rfl

theorem label_at_cons (r : R) (l : List R) (i : Int) :
    labelAt (r :: l) i = if Covers r i then some (label r) else labelAt l i := by
  unfold labelAt
  by_cases h : Covers r i <;> simp [h]

theorem label_at_append (l m : List R) (i : Int) :
    labelAt (l ++ m) i = (labelAt l i).or (labelAt m i) := by
  induction l with
  | nil => simp
  | cons r l ih =>
      rw [List.cons_append, label_at_cons, label_at_cons, ih]
      split <;> simp

/-- A labelled position is covered by a span of the list with that label. -/
theorem exists_of_label_at {l : List R} {i : Int} {a : L} (h : labelAt l i = some a) :
    ∃ r ∈ l, Covers r i ∧ label r = a := by
  induction l with
  | nil => simp at h
  | cons r l ih =>
      rw [label_at_cons] at h
      split at h
      · exact ⟨r, by simp, by assumption, by simpa using h⟩
      · obtain ⟨s, hs, hcovers, hlabel⟩ := ih h
        exact ⟨s, by simp [hs], hcovers, hlabel⟩

theorem label_at_eq_none_iff {l : List R} {i : Int} :
    labelAt l i = none ↔ ∀ r ∈ l, ¬ Covers r i := by
  simp [labelAt]

/-- In a disjoint list a covered position has the label of its one span. -/
theorem label_at_of_covers {l : List R} (hd : Disjoint l) {r : R} (hr : r ∈ l) {i : Int}
    (hi : Covers r i) : labelAt l i = some (label r) := by
  induction l with
  | nil => simp at hr
  | cons s l ih =>
      obtain ⟨hs, hl⟩ := List.pairwise_cons.mp hd
      rw [label_at_cons]
      rcases List.mem_cons.mp hr with rfl | hr
      · simp [hi]
      · have hns : ¬ Covers s i := fun hc ↦ hs r hr i hc hi
        simp [hns, ih hl hr]

/-- Rearranging a disjoint list does not change what it reads. -/
theorem label_at_perm {l m : List R} (hp : l.Perm m) (hd : Disjoint l) (i : Int) :
    labelAt m i = labelAt l i := by
  cases h : labelAt l i with
  | none =>
      rw [label_at_eq_none_iff] at h ⊢
      exact fun r hr ↦ h r (hp.mem_iff.mpr hr)
  | some a =>
      obtain ⟨r, hr, hcovers, rfl⟩ := exists_of_label_at h
      have hm : Disjoint m := hp.pairwise hd fun h i hy hx ↦ h i hx hy
      exact label_at_of_covers hm (hp.mem_iff.mp hr) hcovers

/-- A list lies within bounds that contain every position it covers. -/
theorem within_of_covers {l : List R} {n : Int}
    (h : ∀ r ∈ l, ∀ i, Covers r i → 0 ≤ i ∧ i < n) : Within n l := by
  intro r hr
  have hlt := lo_lt_hi r
  have hfirst := h r hr (lo r) ⟨le_rfl, hlt⟩
  have hlast := h r hr (hi r - 1) ⟨by omega, by omega⟩
  omega

/-- Nothing is read outside the bounds of the list. -/
theorem label_at_outside {l : List R} {n : Int} (hw : Within n l) {i : Int}
    (hi : i < 0 ∨ n ≤ i) : labelAt l i = none := by
  rw [label_at_eq_none_iff]
  intro r hr hc
  have := hw r hr
  simp only [Covers] at hc
  omega

/-! ## Moving, cutting and splitting spans

`f` sends a span to its pieces. `origin` sends a position of the result to the position it came
from, if it came from the list at all. -/

/-- At every position the pieces of a span carry what the span carried at the origin of that
position, relabelled by `g`. -/
def Traces (f : R → List R') (g : L → L') (origin : Int → Option Int) (l : List R) : Prop :=
  ∀ r ∈ l, Disjoint (f r) ∧ ∀ i, labelAt (f r) i =
    (origin i).bind fun j ↦ if Covers r j then some (g (label r)) else none

/-- Pieces trace their span when they are disjoint, keep its label, and cover the positions whose
origin it covers. -/
theorem traces_of_covers {f : R → List R'} {g : L → L'} {origin : Int → Option Int} {l : List R}
    (hd : ∀ r ∈ l, Disjoint (f r)) (hlabel : ∀ r ∈ l, ∀ p ∈ f r, label p = g (label r))
    (hcovers : ∀ r ∈ l, ∀ i, (∃ p ∈ f r, Covers p i) ↔ ∃ j, origin i = some j ∧ Covers r j) :
    Traces f g origin l := by
  refine fun r hr ↦ ⟨hd r hr, fun i ↦ ?_⟩
  by_cases h : ∃ p ∈ f r, Covers p i
  · obtain ⟨j, hj, hcj⟩ := (hcovers r hr i).mp h
    obtain ⟨p, hp, hcp⟩ := h
    rw [label_at_of_covers (hd r hr) hp hcp, hlabel r hr p hp, hj]
    simp [hcj]
  · have hnone : labelAt (f r) i = none :=
      label_at_eq_none_iff.mpr fun p hp hcp ↦ h ⟨p, hp, hcp⟩
    rw [hnone]
    cases ho : origin i with
    | none => rfl
    | some j =>
        have hcj : ¬ Covers r j := fun hcj ↦ h ((hcovers r hr i).mpr ⟨j, ho, hcj⟩)
        simp [hcj]

/-- A position of the result reads the label its origin had. -/
theorem label_at_flat_map {f : R → List R'} {g : L → L'} {origin : Int → Option Int}
    {l : List R} (h : Traces f g origin l) (i : Int) :
    labelAt (l.flatMap f) i = ((origin i).bind (labelAt l)).map g := by
  induction l with
  | nil => cases origin i <;> rfl
  | cons r l ih =>
      rw [List.flatMap_cons, label_at_append, (h r (by simp)).2 i,
        ih fun s hs ↦ h s (by simp [hs])]
      cases origin i with
      | none => rfl
      | some j =>
          simp only [Option.bind_some, label_at_cons]
          split <;> simp

/-- A piece covers only positions whose origin its span covered. -/
theorem Traces.covers_origin {f : R → List R'} {g : L → L'} {origin : Int → Option Int}
    {l : List R} (h : Traces f g origin l) {r : R} (hr : r ∈ l) {p : R'} (hp : p ∈ f r)
    {i : Int} (hi : Covers p i) : ∃ j, origin i = some j ∧ Covers r j := by
  obtain ⟨hd, hread⟩ := h r hr
  have hlabel := hread i
  rw [label_at_of_covers hd hp hi] at hlabel
  cases ho : origin i with
  | none => simp [ho] at hlabel
  | some j =>
      refine ⟨j, rfl, ?_⟩
      by_contra hc
      simp [ho, hc] at hlabel

/-- The pieces of disjoint spans are disjoint. -/
theorem disjoint_flat_map {f : R → List R'} {g : L → L'} {origin : Int → Option Int}
    {l : List R} (h : Traces f g origin l) (hd : Disjoint l) : Disjoint (l.flatMap f) := by
  unfold Disjoint
  rw [List.pairwise_flatMap]
  refine ⟨fun r hr ↦ (h r hr).1, hd.imp_of_mem ?_⟩
  intro a b ha hb hab p hp q hq i hpi hqi
  obtain ⟨j, hj, haj⟩ := h.covers_origin ha hp hpi
  obtain ⟨k, hk, hbk⟩ := h.covers_origin hb hq hqi
  obtain rfl : j = k := Option.some.inj (hj.symm.trans hk)
  exact hab j haj hbk

/-- Two disjoint lists that share no position form a disjoint list. -/
theorem disjoint_append {l m : List R} (hl : Disjoint l) (hm : Disjoint m)
    (h : ∀ a ∈ l, ∀ b ∈ m, ∀ i, Covers a i → ¬ Covers b i) : Disjoint (l ++ m) :=
  List.pairwise_append.mpr ⟨hl, hm, h⟩

/-- An ordered list is disjoint. -/
theorem Ordered.disjoint {l : List R} (h : Ordered l) : Disjoint l := by
  refine h.imp ?_
  intro a b hab i ha hb
  simp only [Covers] at ha hb
  omega

/-! ## Sorting -/

/-- Disjoint spans sorted by a comparison that respects their starts are in order. -/
theorem sorted_ordered {le : R → R → Prop} [DecidableRel le] [Std.Total le] [IsTrans R le]
    (hle : ∀ a b, le a b → lo a ≤ lo b) {l : List R} (hd : Disjoint l) :
    Ordered (l.insertionSort le) := by
  have hperm : Disjoint (l.insertionSort le) :=
    (List.perm_insertionSort le l).symm.pairwise hd fun h i hy hx ↦ h i hx hy
  have hsorted := List.pairwise_insertionSort le l
  refine (hperm.and hsorted).imp ?_
  rintro a b ⟨hab, hcmp⟩
  -- were they to overlap, the start of the later one would lie in both
  by_contra hover
  have hstart := hle a b hcmp
  have hb := lo_lt_hi b
  exact hab (lo b) ⟨by omega, by omega⟩ ⟨by omega, by omega⟩

/-! ## Coalescing -/

/-- Merge the current span with the next one for as long as the two are mergeable. -/
def coalesce (mergeable : R → R → Bool) (merge : R → R → R) : R → List R → List R
  | current, [] => [current]
  | current, next :: rest =>
      if mergeable current next then coalesce mergeable merge (merge current next) rest
      else current :: coalesce mergeable merge next rest

/-- Mergeable spans touch and agree on the label; merging two of them spans both. -/
structure MergeLaws (mergeable : R → R → Bool) (merge : R → R → R) : Prop where
  mergeable_iff : ∀ a b, mergeable a b = true ↔ label a = label b ∧ lo a ≤ hi b ∧ lo b ≤ hi a
  lo_merge : ∀ a b, lo (merge a b) = min (lo a) (lo b)
  hi_merge : ∀ a b, hi (merge a b) = max (hi a) (hi b)
  label_merge : ∀ a b, label (merge a b) = label a

variable {mergeable : R → R → Bool} {merge : R → R → R}

/-- Merging the first two spans of an ordered list leaves an ordered list. -/
theorem ordered_merge (laws : MergeLaws mergeable merge) {current next : R} {rest : List R}
    (h : Ordered (current :: next :: rest)) : Ordered (merge current next :: rest) := by
  rw [Ordered, List.pairwise_cons] at h ⊢
  refine ⟨fun r hr ↦ ?_, (List.pairwise_cons.mp h.2).2⟩
  have hcurrent := h.1 r (by simp [hr])
  have hnext := (List.pairwise_cons.mp h.2).1 r hr
  rw [laws.hi_merge]
  omega

/-- An ordered list is in the order of the starts. -/
theorem Ordered.rising {l : List R} (h : Ordered l) : Rising l :=
  h.imp fun hab ↦ (lo_lt_hi _).le.trans hab

/-- In a rising list the merge of the first two spans starts where the first one did. -/
theorem lo_merge_of_rising (laws : MergeLaws mergeable merge) {current next : R} {rest : List R}
    (h : Rising (current :: next :: rest)) : lo (merge current next) = lo current := by
  rw [laws.lo_merge]
  exact min_eq_left ((List.pairwise_cons.mp h).1 next List.mem_cons_self)

/-- Merging the first two spans of a rising list leaves a rising list. -/
theorem rising_merge (laws : MergeLaws mergeable merge) {current next : R} {rest : List R}
    (h : Rising (current :: next :: rest)) : Rising (merge current next :: rest) := by
  obtain ⟨hfirst, hrest⟩ := List.pairwise_cons.mp h
  refine List.pairwise_cons.mpr ⟨fun r hr ↦ ?_, (List.pairwise_cons.mp hrest).2⟩
  rw [lo_merge_of_rising laws h]
  exact hfirst r (List.mem_cons_of_mem _ hr)

/-- Coalescing keeps the start and the label of the first span. -/
theorem head_coalesce (laws : MergeLaws mergeable merge) {current : R} {rest : List R}
    (h : Rising (current :: rest)) :
    ∃ first tail, coalesce mergeable merge current rest = first :: tail ∧
      lo first = lo current ∧ label first = label current := by
  induction rest generalizing current with
  | nil => exact ⟨current, [], rfl, rfl, rfl⟩
  | cons next rest ih =>
      simp only [coalesce]
      split
      · obtain ⟨first, tail, heq, hlo, hlabel⟩ := ih (rising_merge laws h)
        exact ⟨first, tail, heq, hlo.trans (lo_merge_of_rising laws h),
          hlabel.trans (laws.label_merge _ _)⟩
      · exact ⟨current, _, rfl, rfl, rfl⟩

/-- Coalescing changes the label of no position. -/
theorem label_at_coalesce (laws : MergeLaws mergeable merge) {current : R} {rest : List R}
    (h : Ordered (current :: rest)) (i : Int) :
    labelAt (coalesce mergeable merge current rest) i = labelAt (current :: rest) i := by
  induction rest generalizing current with
  | nil => rfl
  | cons next rest ih =>
      simp only [coalesce]
      split
      · next hm =>
          obtain ⟨hlabel, -, htouch⟩ := (laws.mergeable_iff _ _).mp hm
          have hstart : hi current ≤ lo next := (List.pairwise_cons.mp h).1 next (by simp)
          have hnext := lo_lt_hi next
          have hcurrent := lo_lt_hi current
          rw [ih (ordered_merge laws h), label_at_cons, label_at_cons, label_at_cons,
            laws.label_merge, ← hlabel]
          -- the two spans touch, so together they cover what their merge covers
          have hcovers : Covers (merge current next) i ↔ Covers current i ∨ Covers next i := by
            simp only [Covers, laws.lo_merge, laws.hi_merge]
            omega
          by_cases hc : Covers current i <;> simp [hcovers, hc]
      · rw [label_at_cons, ih (List.pairwise_cons.mp h).2, label_at_cons current]

/-- What holds of every span and survives merging holds of every coalesced span. -/
theorem forall_mem_coalesce {P : R → Prop} (hmerge : ∀ a b, P a → P b → P (merge a b))
    {current : R} {rest : List R} (h : ∀ r ∈ current :: rest, P r) :
    ∀ r ∈ coalesce mergeable merge current rest, P r := by
  induction rest generalizing current with
  | nil => exact h
  | cons next rest ih =>
      have hcurrent := h current (by simp)
      have hnext := h next (by simp)
      have hrest : ∀ r ∈ rest, P r := fun r hr ↦ h r (by simp [hr])
      simp only [coalesce]
      split
      · exact ih (List.forall_mem_cons.mpr ⟨hmerge _ _ hcurrent hnext, hrest⟩)
      · exact List.forall_mem_cons.mpr ⟨hcurrent, ih (List.forall_mem_cons.mpr ⟨hnext, hrest⟩)⟩

/-- Coalescing a list in which no neighbours can be merged changes nothing. -/
theorem coalesce_of_chain {current : R} {rest : List R}
    (h : (current :: rest).IsChain fun a b ↦ mergeable a b = false) :
    coalesce mergeable merge current rest = current :: rest := by
  induction rest generalizing current with
  | nil => rfl
  | cons next rest ih =>
      obtain ⟨hfirst, hrest⟩ := List.isChain_cons_cons.mp h
      rw [coalesce, hfirst, if_neg Bool.false_ne_true, ih hrest]

/-- Coalescing leaves a span. -/
theorem coalesce_ne_nil (mergeable : R → R → Bool) (merge : R → R → R) (current : R)
    (rest : List R) : coalesce mergeable merge current rest ≠ [] := by
  induction rest generalizing current with
  | nil => exact List.cons_ne_nil _ _
  | cons next rest ih =>
      simp only [coalesce]
      split
      · exact ih _
      · exact List.cons_ne_nil _ _

/-- Coalescing adds no span. -/
theorem length_coalesce_le (mergeable : R → R → Bool) (merge : R → R → R) (current : R)
    (rest : List R) : (coalesce mergeable merge current rest).length ≤ rest.length + 1 := by
  induction rest generalizing current with
  | nil => exact le_rfl
  | cons next rest ih =>
      have hmerged := ih (merge current next)
      have hkept := ih next
      simp only [coalesce]
      split
      · simp only [List.length_cons]
        omega
      · simp only [List.length_cons]
        omega

/-- Every span lies in a coalesced span with its label. -/
theorem exists_coalesce_covering (laws : MergeLaws mergeable merge) {current : R}
    {rest : List R} {r : R} (hr : r ∈ current :: rest) :
    ∃ s ∈ coalesce mergeable merge current rest, lo s ≤ lo r ∧ hi r ≤ hi s ∧ label s = label r := by
  induction rest generalizing current r with
  | nil =>
      obtain rfl := List.mem_singleton.mp hr
      exact ⟨r, List.mem_singleton_self r, le_rfl, le_rfl, rfl⟩
  | cons next rest ih =>
      simp only [coalesce]
      split
      · next hm =>
          obtain ⟨hlabel, -, -⟩ := (laws.mergeable_iff _ _).mp hm
          obtain ⟨s, hs, hlo, hhi, hsame⟩ := ih (List.mem_cons_self (a := merge current next))
          rw [laws.lo_merge] at hlo
          rw [laws.hi_merge] at hhi
          rw [laws.label_merge] at hsame
          rcases List.mem_cons.mp hr with rfl | hr
          · exact ⟨s, hs, by omega, by omega, hsame⟩
          rcases List.mem_cons.mp hr with rfl | hr
          · exact ⟨s, hs, by omega, by omega, hsame.trans hlabel⟩
          · exact ih (List.mem_cons_of_mem _ hr)
      · rcases List.mem_cons.mp hr with rfl | hr
        · exact ⟨r, List.mem_cons_self .., le_rfl, le_rfl, rfl⟩
        · obtain ⟨s, hs, hcovering⟩ := ih hr
          exact ⟨s, List.mem_cons_of_mem _ hs, hcovering⟩

/-- Coalescing stays within the bounds of the list. -/
theorem within_coalesce (laws : MergeLaws mergeable merge) {n : Int} {current : R}
    {rest : List R} (h : Within n (current :: rest)) :
    Within n (coalesce mergeable merge current rest) := by
  refine forall_mem_coalesce (fun a b ha hb ↦ ?_) h
  rw [laws.lo_merge, laws.hi_merge]
  omega

/-- Coalescing an ordered list leaves an ordered list. -/
theorem ordered_coalesce (laws : MergeLaws mergeable merge) {current : R} {rest : List R}
    (h : Ordered (current :: rest)) : Ordered (coalesce mergeable merge current rest) := by
  induction rest generalizing current with
  | nil => exact h
  | cons next rest ih =>
      simp only [coalesce]
      split
      · exact ih (ordered_merge laws h)
      · obtain ⟨hfirst, hrest⟩ := List.pairwise_cons.mp h
        have hlater : ∀ r ∈ coalesce mergeable merge next rest, hi current ≤ lo r := by
          refine forall_mem_coalesce (fun a b ha hb ↦ ?_) hfirst
          rw [laws.lo_merge]
          exact le_min ha hb
        exact List.pairwise_cons.mpr ⟨hlater, ih hrest⟩

/-- Coalescing a rising list leaves no two neighbours that could be merged. -/
theorem chain_coalesce (laws : MergeLaws mergeable merge) {current : R} {rest : List R}
    (h : Rising (current :: rest)) :
    (coalesce mergeable merge current rest).IsChain fun a b ↦ mergeable a b = false := by
  induction rest generalizing current with
  | nil => simp [coalesce]
  | cons next rest ih =>
      simp only [coalesce]
      split
      · exact ih (rising_merge laws h)
      · next hm =>
          obtain ⟨hfirst, hrest⟩ := List.pairwise_cons.mp h
          obtain ⟨first, tail, heq, hlo, hlabel⟩ := head_coalesce laws hrest
          have hchain := ih hrest
          rw [heq] at hchain ⊢
          refine List.isChain_cons_cons.mpr ⟨?_, hchain⟩
          -- the span after `current` still starts where `next` does, with its label
          rw [Bool.eq_false_iff]
          intro hmerge
          rw [laws.mergeable_iff, hlo, hlabel] at hmerge
          refine hm ((laws.mergeable_iff _ _).mpr ⟨hmerge.1, ?_, hmerge.2.2⟩)
          have hstart := hfirst next List.mem_cons_self
          have hnext := lo_lt_hi next
          omega

/-! ## What stands between

A coalesced list is canonical where no span of another label stands between two that could be
merged. -/

/-- Every position of a coalesced span lies in one of the spans, with its label. -/
theorem exists_of_covers_coalesce (laws : MergeLaws mergeable merge) {current : R} {rest : List R}
    {s : R} (hs : s ∈ coalesce mergeable merge current rest) {i : Int} (hi : Covers s i) :
    ∃ r ∈ current :: rest, Covers r i ∧ label r = label s := by
  induction rest generalizing current with
  | nil =>
      obtain rfl := List.mem_singleton.mp hs
      exact ⟨s, List.mem_singleton_self s, hi, rfl⟩
  | cons next rest ih =>
      simp only [coalesce] at hs
      split at hs
      · next hm =>
          obtain ⟨hlabel, hleft, hright⟩ := (laws.mergeable_iff _ _).mp hm
          obtain ⟨r, hr, hcovers, hsame⟩ := ih hs
          rcases List.mem_cons.mp hr with rfl | hr
          · -- the two spans touch, so a position of their merge is in one of them
            rw [laws.label_merge] at hsame
            have hone : Covers current i ∨ Covers next i := by
              simp only [Covers, laws.lo_merge, laws.hi_merge] at hcovers ⊢
              omega
            rcases hone with hcurrent | hnext
            · exact ⟨current, List.mem_cons_self, hcurrent, hsame⟩
            · exact ⟨next, List.mem_cons_of_mem _ List.mem_cons_self, hnext,
                hlabel.symm.trans hsame⟩
          · exact ⟨r, List.mem_cons_of_mem _ (List.mem_cons_of_mem _ hr), hcovers, hsame⟩
      · rcases List.mem_cons.mp hs with rfl | hs
        · exact ⟨s, List.mem_cons_self, hi, rfl⟩
        · obtain ⟨r, hr, hcovers⟩ := ih hs
          exact ⟨r, List.mem_cons_of_mem _ hr, hcovers⟩

/-- A span lies in another, with the same label. -/
def Inside (r s : R) : Prop :=
  lo s ≤ lo r ∧ hi r ≤ hi s ∧ label s = label r

theorem inside_refl (r : R) : Inside r r :=
  ⟨le_rfl, le_rfl, rfl⟩

theorem Inside.trans {r s t : R} (h : Inside r s) (h' : Inside s t) : Inside r t :=
  ⟨h'.1.trans h.1, h.2.1.trans h'.2.1, h'.2.2.trans h.2.2⟩

/-- Spans that can be merged lie in their merge. -/
theorem inside_merge (laws : MergeLaws mergeable merge) {a b : R} (h : mergeable a b = true) :
    Inside a (merge a b) ∧ Inside b (merge a b) := by
  obtain ⟨hlabel, -, -⟩ := (laws.mergeable_iff _ _).mp h
  refine ⟨⟨?_, ?_, laws.label_merge a b⟩, ?_, ?_, (laws.label_merge a b).trans hlabel⟩
  · exact (laws.lo_merge a b).trans_le (min_le_left _ _)
  · exact (le_max_left _ _).trans_eq (laws.hi_merge a b).symm
  · exact (laws.lo_merge a b).trans_le (min_le_right _ _)
  · exact (le_max_right _ _).trans_eq (laws.hi_merge a b).symm

/-- Coalescing the first part of a list leaves spans, the last of which goes on with the rest. It
has the last span of the part in it. -/
theorem coalesce_append (laws : MergeLaws mergeable merge) (current : R) (part : List R) (r : R)
    (rest : List R) :
    ∃ front last, coalesce mergeable merge current (part ++ r :: rest) =
        front ++ coalesce mergeable merge last rest ∧ Inside r last ∧
      ∀ a ∈ current :: part, ∃ s ∈ front ++ [last], Inside a s := by
  induction part generalizing current with
  | nil =>
      rw [List.nil_append, coalesce]
      split
      · next hm =>
          obtain ⟨hcurrent, hr⟩ := inside_merge laws hm
          refine ⟨[], merge current r, rfl, hr, List.forall_mem_singleton.mpr ?_⟩
          exact ⟨_, List.mem_singleton_self _, hcurrent⟩
      · refine ⟨[current], r, rfl, inside_refl r, List.forall_mem_singleton.mpr ?_⟩
        exact ⟨current, List.mem_cons_self, inside_refl current⟩
  | cons next part ih =>
      rw [List.cons_append, coalesce]
      split
      · next hm =>
          obtain ⟨hcurrent, hnext⟩ := inside_merge laws hm
          obtain ⟨front, last, heq, hlast, hinside⟩ := ih (merge current next)
          obtain ⟨hmerged, hpart⟩ := List.forall_mem_cons.mp hinside
          obtain ⟨s, hs, hmerge⟩ := hmerged
          exact ⟨front, last, heq, hlast, List.forall_mem_cons.mpr ⟨⟨s, hs, hcurrent.trans hmerge⟩,
            List.forall_mem_cons.mpr ⟨⟨s, hs, hnext.trans hmerge⟩, hpart⟩⟩⟩
      · obtain ⟨front, last, heq, hlast, hinside⟩ := ih next
        refine ⟨current :: front, last, congrArg (current :: ·) heq, hlast,
          List.forall_mem_cons.mpr ⟨⟨current, List.mem_cons_self, inside_refl current⟩, ?_⟩⟩
        intro a ha
        obtain ⟨s, hs, hsa⟩ := hinside a ha
        exact ⟨s, List.mem_cons_of_mem _ hs, hsa⟩

/-- Spans of different labels stay in their order. -/
theorem exists_pair_coalesce (laws : MergeLaws mergeable merge) {current : R} {rest : List R}
    {a b : R} (hab : [a, b].Sublist (current :: rest)) (hne : label a ≠ label b) :
    ∃ s t, [s, t].Sublist (coalesce mergeable merge current rest) ∧ Inside a s ∧ Inside b t := by
  obtain ⟨before, after, hsplit, ha, hb⟩ := List.cons_sublist_iff.mp hab
  obtain ⟨between, behind, rfl⟩ := List.append_of_mem (List.singleton_sublist.mp hb)
  obtain ⟨first, part, rfl⟩ := List.exists_cons_of_ne_nil (List.ne_nil_of_mem ha)
  rw [List.cons_append] at hsplit
  obtain ⟨rfl, hrest⟩ := List.cons.inj hsplit
  rw [hrest, ← List.append_assoc]
  obtain ⟨front, last, heq, hlast, hinside⟩ :=
    coalesce_append laws current (part ++ between) b behind
  obtain ⟨s, hs, hsa⟩ := hinside a (List.mem_append_left between ha)
  obtain ⟨t, ht, htlast⟩ :=
    exists_coalesce_covering laws (List.mem_cons_self (a := last) (l := behind))
  have hfront : s ∈ front := by
    rcases List.mem_append.mp hs with hs | hs
    · exact hs
    · obtain rfl := List.mem_singleton.mp hs
      exact absurd (hsa.2.2.symm.trans hlast.2.2) hne
  refine ⟨s, t, ?_, hsa, hlast.trans htlast⟩
  rw [heq]
  exact (List.singleton_sublist.mpr hfront).append (List.singleton_sublist.mpr ht)

/-- Where no span of another label stands between two that could be merged, no two coalesced spans
could be merged. -/
theorem pairwise_coalesce (laws : MergeLaws mergeable merge) {le : R → R → Prop}
    (hle : ∀ a b, le a b → lo a ≤ lo b) {current : R} {rest : List R}
    (hsorted : rest.Pairwise le) (hfirst : ∀ r ∈ rest, lo current ≤ lo r)
    (hcurrent : rest.Pairwise fun b c ↦
      label c = label current → lo c ≤ hi current → label b = label current)
    (hbetween : ∀ a ∈ rest, ∀ b ∈ rest, ∀ c ∈ rest, mergeable a c = true → le a b → le b c →
      label b = label a) :
    (coalesce mergeable merge current rest).Pairwise fun a b ↦ mergeable a b = false := by
  induction rest generalizing current with
  | nil => exact List.pairwise_singleton _ _
  | cons next rest ih =>
      obtain ⟨hnext, hsorted⟩ := List.pairwise_cons.mp hsorted
      obtain ⟨hhead, hcurrent⟩ := List.pairwise_cons.mp hcurrent
      have hstart := hfirst next List.mem_cons_self
      have hinner : ∀ a ∈ rest, ∀ b ∈ rest, ∀ c ∈ rest, mergeable a c = true → le a b → le b c →
          label b = label a := fun a ha b hb c hc ↦
        hbetween a (List.mem_cons_of_mem _ ha) b (List.mem_cons_of_mem _ hb) c
          (List.mem_cons_of_mem _ hc)
      -- what stands between `next` and a span it could be merged with
      have hshelter : rest.Pairwise fun b c ↦
          label c = label next → lo c ≤ hi next → label b = label next := by
        refine hsorted.imp_of_mem fun {b c} hb hc hbc hlabel hreach ↦ ?_
        have hend := (hle _ _ (hnext c hc)).trans (lo_lt_hi c).le
        exact hbetween next List.mem_cons_self b (List.mem_cons_of_mem _ hb) c
          (List.mem_cons_of_mem _ hc)
          ((laws.mergeable_iff _ _).mpr ⟨hlabel.symm, hend, hreach⟩) (hnext b hb) hbc
      rw [coalesce]
      split
      · next hm =>
          obtain ⟨hlabel, -, -⟩ := (laws.mergeable_iff _ _).mp hm
          refine ih hsorted (fun r hr ↦ ?_) ?_ hinner
          · rw [laws.lo_merge]
            exact (min_le_left _ _).trans (hfirst r (List.mem_cons_of_mem _ hr))
          · refine (hcurrent.and hshelter).imp fun {b c} hboth hsame hreach ↦ ?_
            rw [laws.label_merge] at hsame ⊢
            rw [laws.hi_merge] at hreach
            have hone : lo c ≤ hi current ∨ lo c ≤ hi next := by omega
            rcases hone with hreach | hreach
            · exact hboth.1 hsame hreach
            · exact (hboth.2 (hsame.trans hlabel) hreach).trans hlabel.symm
      · next hm =>
          refine List.pairwise_cons.mpr ⟨fun s hs ↦ ?_,
            ih hsorted (fun r hr ↦ hle _ _ (hnext r hr)) hshelter hinner⟩
          rw [Bool.eq_false_iff]
          intro hmerge
          obtain ⟨hlabel, -, hreach⟩ := (laws.mergeable_iff _ _).mp hmerge
          obtain ⟨r, hr, hcovers, hsame⟩ :=
            exists_of_covers_coalesce laws hs (i := lo s) ⟨le_rfl, lo_lt_hi s⟩
          have hearlier : lo r ≤ hi current := hcovers.1.trans hreach
          -- then `next` could be merged as well
          have hlabels : label next = label current ∧ lo next ≤ hi current := by
            rcases List.mem_cons.mp hr with rfl | hr
            · exact ⟨hsame.trans hlabel.symm, hearlier⟩
            · exact ⟨hhead r hr (hsame.trans hlabel.symm) hearlier,
                (hle _ _ (hnext r hr)).trans hearlier⟩
          exact hm ((laws.mergeable_iff _ _).mpr
            ⟨hlabels.1.symm, hstart.trans (lo_lt_hi next).le, hlabels.2⟩)

/-- The number of coalesced spans of a list: one more whenever a span is out of reach of the run of
equal labels before it. -/
def runs [DecidableEq L] : R → Int → List R → Nat
  | _, _, [] => 1
  | last, reach, next :: rest =>
      if label last = label next ∧ lo next ≤ reach then runs next (max reach (hi next)) rest
      else 1 + runs next (hi next) rest

/-- Coalescing leaves as many spans. -/
theorem length_coalesce [DecidableEq L] (laws : MergeLaws mergeable merge) {current last : R}
    {rest : List R} (h : Rising (current :: rest)) (hlabel : label current = label last) :
    (coalesce mergeable merge current rest).length = runs last (hi current) rest := by
  induction rest generalizing current last with
  | nil => rfl
  | cons next rest ih =>
      have hstart := (List.pairwise_cons.mp h).1 next List.mem_cons_self
      have hmergeable : mergeable current next = true ↔
          label last = label next ∧ lo next ≤ hi current := by
        rw [laws.mergeable_iff, hlabel]
        exact and_congr_right' (and_iff_right (hstart.trans (lo_lt_hi next).le))
      rw [coalesce, runs]
      by_cases hm : mergeable current next = true
      · have hsame : label (merge current next) = label next :=
          (laws.label_merge _ _).trans (hlabel.trans (hmergeable.mp hm).1)
        rw [if_pos hm, if_pos (hmergeable.mp hm), ih (rising_merge laws h) hsame, laws.hi_merge]
      · rw [if_neg hm, if_neg fun hrun ↦ hm (hmergeable.mpr hrun), List.length_cons,
          ih (List.pairwise_cons.mp h).2 rfl, Nat.add_comm]

end Spans
