import Mathlib.Data.List.Perm.Basic
import Mathlib.Data.List.MinMax
import Aegis.Api.Grouping

/-!
# The history of a finding

What a finding tells of its past: how bad and how sure it is, how often the defect was seen, and
when first and last. A run folds the hits of an identity into it, one after another.
-/

namespace Aegis.Api

open Server

/-! ## Folding hits -/

/-- What a finding tells of its past. -/
structure History where
  severity : Severity
  confidence : Confidence
  count : Nat
  firstSeenAt : Option Instant
  lastSeenAt : Option Instant
  deriving DecidableEq

attribute [ext] History

/-- What a hit tells. -/
structure Sighting where
  severity : Severity
  confidence : Confidence
  observedAt : Instant

namespace History

/-- One more hit of a finding. -/
def sight (history : History) (sighting : Sighting) : History :=
  { severity := history.severity
    confidence :=
      if sighting.confidence.order > history.confidence.order then sighting.confidence
      else history.confidence
    count := history.count + 1
    firstSeenAt := some (history.firstSeenAt.getD sighting.observedAt)
    lastSeenAt := some sighting.observedAt }

/-- The history before the first hit. -/
def blank (severity : Severity) : History :=
  ⟨severity, .SUSPECTED, 0, none, none⟩

/-- The history of a finding that there may be or not, after some hits. -/
def recount : Option History → List Sighting → Option History
  | none, [] => none
  | none, sighting :: sightings =>
      some ((sighting :: sightings).foldl sight (blank sighting.severity))
  | some history, sightings => some (sightings.foldl sight history)

theorem recount_nil (history : Option History) : recount history [] = history := by
  cases history <;> rfl

theorem recount_append (history : Option History) (before after : List Sighting) :
    recount history (before ++ after) = recount (recount history before) after := by
  cases history with
  | some history => exact congrArg some List.foldl_append
  | none =>
      cases before with
      | nil => rfl
      | cons sighting before =>
          exact congrArg some (List.foldl_append (l := sighting :: before))

/-! ### What each part comes to -/

theorem severity_foldl (history : History) (sightings : List Sighting) :
    (sightings.foldl sight history).severity = history.severity := by
  induction sightings generalizing history with
  | nil => rfl
  | cons sighting sightings ih => exact ih (history.sight sighting)

theorem count_foldl (history : History) (sightings : List Sighting) :
    (sightings.foldl sight history).count = history.count + sightings.length := by
  induction sightings generalizing history with
  | nil => rfl
  | cons sighting sightings ih =>
      rw [List.foldl_cons, ih, List.length_cons]
      show history.count + 1 + sightings.length = _
      omega

/-- The confidence is the greatest. -/
theorem confidence_foldl (history : History) (sightings : List Sighting) :
    (sightings.foldl sight history).confidence.order =
      (sightings.map fun sighting ↦ sighting.confidence.order).foldl max
        history.confidence.order := by
  induction sightings generalizing history with
  | nil => rfl
  | cons sighting sightings ih =>
      rw [List.foldl_cons, ih, List.map_cons, List.foldl_cons]
      congr 1
      unfold sight
      dsimp only
      split <;> omega

/-- The first time is that of the first hit, unless there was one before. -/
theorem first_foldl (history : History) (sightings : List Sighting) :
    (sightings.foldl sight history).firstSeenAt =
      history.firstSeenAt.or (sightings.head?.map Sighting.observedAt) := by
  induction sightings generalizing history with
  | nil => exact (Option.or_none).symm
  | cons sighting sightings ih =>
      rw [List.foldl_cons, ih]
      cases history with
      | mk _ _ _ first _ => cases first <;> rfl

/-- The last time is that of the last hit. -/
theorem last_foldl (history : History) (sightings : List Sighting) :
    (sightings.foldl sight history).lastSeenAt =
      (sightings.getLast?.map Sighting.observedAt).or history.lastSeenAt := by
  induction sightings using List.reverseRecOn with
  | nil => rfl
  | append_singleton sightings sighting _ =>
      rw [List.foldl_append, List.getLast?_concat]
      rfl

/-- The confidences are in the order of their ranks. -/
theorem order_injective {a b : Confidence} (h : a.order = b.order) : a = b := by
  cases a <;> cases b <;> first | rfl | cases h

/-- Two hits at one time may change places. -/
theorem sight_comm (history : History) {a b : Sighting} (h : a.observedAt = b.observedAt) :
    (history.sight a).sight b = (history.sight b).sight a := by
  have hconfidence : ((history.sight a).sight b).confidence =
      ((history.sight b).sight a).confidence := by
    refine order_injective ?_
    rw [show (history.sight a).sight b = [a, b].foldl sight history from rfl, confidence_foldl,
      show (history.sight b).sight a = [b, a].foldl sight history from rfl, confidence_foldl]
    exact max_right_comm _ _ _
  refine History.ext rfl hconfidence rfl ?_ ?_
  · show some (history.firstSeenAt.getD a.observedAt) = some (history.firstSeenAt.getD b.observedAt)
    rw [h]
  · exact congrArg some h.symm

end History

/-! ## Hits in any order -/

/-- The history is what it was before and the hits together, in whatever order: their number, the
greatest confidence, the least and the greatest time. -/
structure History.Exact (before : Option History) (hits : List Sighting) (after : History) :
    Prop where
  count : after.count = (before.map History.count).getD 0 + hits.length
  confidence : some after.confidence.order = ((before.toList.map fun history ↦
    history.confidence.order) ++ hits.map fun hit ↦ hit.confidence.order).max?
  first : after.firstSeenAt =
    ((before.bind History.firstSeenAt).toList ++ hits.map Sighting.observedAt).min?
  last : after.lastSeenAt =
    ((before.bind History.lastSeenAt).toList ++ hits.map Sighting.observedAt).max?

/-- Two ways to fold the hits agree, on what the hits are together. -/
structure History.Agree (before : Option History) (hits : List Sighting)
    (after after' : Option History) : Prop where
  same : after = after'
  exact : ∀ history, after = some history → history.Exact before hits

/-- The hits are at one time, which is not before the finding was seen; those that make a new
finding are as bad as each other. -/
structure History.Steady (before : Option History) (hits : List Sighting) : Prop where
  time : ∀ hit ∈ hits, ∀ hit' ∈ hits, hit.observedAt = hit'.observedAt
  severity : before = none → ∀ hit ∈ hits, ∀ hit' ∈ hits, hit.severity = hit'.severity
  since : ∀ history, before = some history → ∀ hit ∈ hits,
    (∀ time, history.firstSeenAt = some time → time ≤ hit.observedAt) ∧
      ∀ time, history.lastSeenAt = some time → time ≤ hit.observedAt

namespace History

variable {before : Option History} {hits : List Sighting}

/-- Hits at one time come to the same in any order. -/
theorem recount_perm (h : Steady before hits) {sightings : List Sighting}
    (hperm : sightings.Perm hits) : recount before sightings = recount before hits := by
  have hcomm : ∀ history : History, sightings.foldl sight history = hits.foldl sight history := by
    refine fun history ↦ hperm.foldl_eq' (fun a ha b hb z ↦ sight_comm z ?_) history
    exact h.time a (hperm.subset ha) b (hperm.subset hb)
  cases before with
  | some history => exact congrArg some (hcomm history)
  | none =>
      cases sightings with
      | nil => rw [hperm.nil_eq]
      | cons a sightings =>
          cases hits with
          | nil => cases hperm.eq_nil
          | cons b hits =>
              have hseverity := h.severity rfl a (hperm.subset List.mem_cons_self) b
                List.mem_cons_self
              rw [recount, recount, hseverity, hcomm]

/-- The first of such times is the least. -/
theorem first_eq_min (htime : ∀ hit ∈ hits, ∀ hit' ∈ hits, hit.observedAt = hit'.observedAt)
    {first : Option Instant}
    (hfirst : ∀ hit ∈ hits, ∀ time, first = some time → time ≤ hit.observedAt) :
    first.or (hits.head?.map Sighting.observedAt) =
      (first.toList ++ hits.map Sighting.observedAt).min? := by
  symm
  cases first with
  | some first =>
      refine List.min?_eq_some_iff.mpr ⟨List.mem_cons_self, fun time htime ↦ ?_⟩
      obtain rfl | hmem := List.mem_cons.mp htime
      · exact le_rfl
      · obtain ⟨hit, hhit, rfl⟩ := List.mem_map.mp hmem
        exact hfirst hit hhit first rfl
  | none =>
      cases hits with
      | nil => rfl
      | cons hit hits =>
          refine List.min?_eq_some_iff.mpr ⟨List.mem_cons_self, fun time hmem ↦ ?_⟩
          obtain ⟨hit', hhit', rfl⟩ := List.mem_map.mp hmem
          exact (htime hit List.mem_cons_self hit' hhit').le

/-- The last is the greatest. -/
theorem last_eq_max (htime : ∀ hit ∈ hits, ∀ hit' ∈ hits, hit.observedAt = hit'.observedAt)
    {last : Option Instant}
    (hlast : ∀ hit ∈ hits, ∀ time, last = some time → time ≤ hit.observedAt) :
    (hits.getLast?.map Sighting.observedAt).or last =
      (last.toList ++ hits.map Sighting.observedAt).max? := by
  symm
  cases hits using List.reverseRecOn with
  | nil => cases last <;> rfl
  | append_singleton hits hit =>
      have hmem : hit ∈ hits ++ [hit] := List.mem_append_right _ List.mem_cons_self
      rw [List.getLast?_concat]
      refine List.max?_eq_some_iff.mpr ⟨?_, fun time htimes ↦ ?_⟩
      · exact List.mem_append_right _ (List.mem_map_of_mem hmem)
      · obtain hold | hnew := List.mem_append.mp htimes
        · exact hlast hit hmem time (Option.mem_toList.mp hold)
        · obtain ⟨hit', hhit', rfl⟩ := List.mem_map.mp hnew
          exact (htime hit' hhit' hit hmem).le

/-- Hits at one time are folded exactly. -/
theorem exact_recount (h : Steady before hits) {history : History}
    (hrecount : recount before hits = some history) : history.Exact before hits := by
  cases before with
  | some old =>
      obtain rfl := Option.some.inj hrecount
      have hsince := h.since old rfl
      refine ⟨count_foldl old hits, ?_, ?_, ?_⟩
      · rw [confidence_foldl]
        rfl
      · rw [first_foldl]
        exact first_eq_min h.time fun hit hhit ↦ (hsince hit hhit).1
      · rw [last_foldl]
        exact last_eq_max h.time fun hit hhit ↦ (hsince hit hhit).2
  | none =>
      cases hits with
      | nil => cases hrecount
      | cons hit hits =>
          obtain rfl := Option.some.inj hrecount
          refine ⟨count_foldl _ _, ?_, ?_, ?_⟩
          · rw [confidence_foldl, List.map_cons, List.foldl_cons]
            exact congrArg (fun order ↦ some (List.foldl max order _)) (Nat.zero_max _)
          · rw [first_foldl]
            exact first_eq_min h.time fun _ _ _ hnone ↦ (by cases hnone)
          · rw [last_foldl]
            exact last_eq_max h.time fun _ _ _ hnone ↦ (by cases hnone)

/-- The hit that comes last is the one that was seen last. -/
theorem last_recount (before : Option History) (sightings : List Sighting) (hit : Sighting) :
    ∃ history, recount before (sightings ++ [hit]) = some history ∧
      history.lastSeenAt = some hit.observedAt := by
  rw [recount_append]
  cases recount before sightings <;> exact ⟨_, rfl, rfl⟩

/-- A hit of the list may come last, and it may come first. -/
theorem exists_perm_of_mem {hit : Sighting} (h : hit ∈ hits) :
    ∃ others, (others ++ [hit]).Perm hits ∧ (hit :: others).Perm hits := by
  obtain ⟨front, back, rfl⟩ := List.append_of_mem h
  have hfirst : (hit :: (front ++ back)).Perm (front ++ hit :: back) := List.perm_middle.symm
  exact ⟨front ++ back, (List.perm_append_singleton _ _).trans hfirst, hfirst⟩

/-- An order of what is selected from a list is that of an order of the list. -/
theorem exists_perm_filter_map {α β : Type} {f : α → Option β} {items : List α} {selected : List β}
    (h : selected.Perm (items.filterMap f)) :
    ∃ order : List α, order.Perm items ∧ order.filterMap f = selected := by
  induction items generalizing selected with
  | nil => exact ⟨[], .nil, h.eq_nil.symm⟩
  | cons item items ih =>
      cases hitem : f item with
      | none =>
          rw [List.filterMap_cons_none hitem] at h
          obtain ⟨order, hperm, rfl⟩ := ih h
          exact ⟨item :: order, hperm.cons item, List.filterMap_cons_none hitem⟩
      | some value =>
          rw [List.filterMap_cons_some hitem] at h
          obtain ⟨front, back, rfl⟩ := List.append_of_mem (h.symm.subset List.mem_cons_self)
          obtain ⟨order, hperm, horder⟩ := ih (List.perm_middle.symm.trans h).cons_inv
          obtain ⟨before, after, rfl, rfl, rfl⟩ := List.filterMap_eq_append_iff.mp horder
          refine ⟨before ++ item :: after, List.perm_middle.trans (hperm.cons item), ?_⟩
          rw [List.filterMap_append, List.filterMap_cons_some hitem]

/-- Hits agree in all orders exactly when they are steady. -/
theorem agree_iff_steady : (∀ sightings sightings', sightings.Perm hits → sightings'.Perm hits →
    Agree before hits (recount before sightings) (recount before sightings')) ↔
      Steady before hits := by
  constructor
  · intro h
    refine ⟨fun hit hhit hit' hhit' ↦ ?_, ?_, ?_⟩
    · obtain ⟨others, hperm, -⟩ := exists_perm_of_mem hhit
      obtain ⟨others', hperm', -⟩ := exists_perm_of_mem hhit'
      obtain ⟨history, hrecount, hlast⟩ := last_recount before others hit
      obtain ⟨history', hrecount', hlast'⟩ := last_recount before others' hit'
      have hsame := (h _ _ hperm hperm').same
      rw [hrecount, hrecount', Option.some.injEq] at hsame
      rw [hsame, hlast'] at hlast
      exact (Option.some.inj hlast).symm
    · rintro rfl hit hhit hit' hhit'
      obtain ⟨others, -, hperm⟩ := exists_perm_of_mem hhit
      obtain ⟨others', -, hperm'⟩ := exists_perm_of_mem hhit'
      have hsame := Option.some.inj (h _ _ hperm hperm').same
      have hseverity := congrArg History.severity hsame
      rwa [severity_foldl, severity_foldl] at hseverity
    · rintro history rfl hit hhit
      obtain ⟨others, hperm, -⟩ := exists_perm_of_mem hhit
      obtain ⟨after, hrecount, hlast⟩ := last_recount (some history) others hit
      have hexact := (h _ _ hperm hperm).exact after hrecount
      refine ⟨fun time htime ↦ ?_, fun time htime ↦ ?_⟩
      · have hfirst := hexact.first
        rw [← Option.some.inj hrecount, first_foldl, htime] at hfirst
        exact (List.min?_eq_some_iff.mp hfirst.symm).2 _
          (List.mem_append_right _ (List.mem_map_of_mem hhit))
      · have hgreatest := hexact.last
        rw [hlast] at hgreatest
        exact (List.max?_eq_some_iff.mp hgreatest.symm).2 _
          (List.mem_append_left _ (Option.mem_toList.mpr htime))
  · intro h sightings sightings' hperm hperm'
    rw [recount_perm h hperm, recount_perm h hperm']
    exact ⟨rfl, fun _ ↦ exact_recount h⟩

end History

end Aegis.Api
