import Aegis.Agent.AtWork
import Aegis.Lib.Machine
import Mathlib.Data.Finset.Card
import Mathlib.Data.Finset.Dedup

/-!
# What the taint table holds

`TaintTracker` under any sequence of calls. The table is compared with the record of every attempt
to track a value since the last clear, of which the full table refuses some (`tracker_exact`).
-/

namespace Aegis.Agent

open Machine

/-- A call of the tracker. -/
inductive TrackerCall where
  | track (value : Option Nat) (taint : Option TaintedValue)
  | trackSource (value : Option StringRef) (kind : SourceKind) (name : Option JString)
  | taintOf (value : Option Nat)
  | clear

/-- A call, with the answer of a lookup. -/
def TaintTracker.step (t : TaintTracker) : TrackerCall → Option TaintedValue × TaintTracker
  | .track value taint => (none, t.track value taint)
  | .trackSource value kind name => (none, t.trackSource value kind name)
  | .taintOf value => (some (t.taintOf value), t)
  | .clear => (none, t.clear)

/-- No call changes the capacity. -/
theorem TaintTracker.capacity_step (t : TaintTracker) (call : TrackerCall) :
    (t.step call).2.capacity = t.capacity := by
  have htrack : ∀ value taint, (t.track (some value) (some taint)).capacity = t.capacity :=
    fun value taint ↦ (t.size_track value taint).2
  cases call with
  | track value taint =>
      cases value with
      | none => rfl
      | some value =>
          cases taint with
          | none => rfl
          | some taint => exact htrack value taint
  | trackSource value kind name =>
      cases value with
      | none => rfl
      | some ref =>
          show (if ref.value.isEmpty then t else _).capacity = _
          split
          · rfl
          · exact htrack ref.id _
  | taintOf value => rfl
  | clear => rfl

/-! ## The record -/

/-- An attempt to track a value for an object, and whether it was refused. -/
structure Attempt where
  object : Nat
  taint : TaintedValue
  refused : Bool

/-- The attempts since the last clear, the latest first. -/
structure TrackingRecord where
  capacity : Nat
  attempts : List Attempt

namespace TrackingRecord

variable {r : TrackingRecord} {object other : Nat} {taint : TaintedValue}

/-- The last value that was tracked for an object. Tracking an untainted one ends its tracking. -/
def last (r : TrackingRecord) (object : Nat) : TaintedValue :=
  match r.attempts.find? fun a ↦ a.object == object && !a.refused with
  | some a => if a.taint.isTainted then a.taint else .empty
  | none => .empty

/-- The objects that are tracked. -/
def objects (r : TrackingRecord) : Finset Nat :=
  (r.attempts.map (·.object)).toFinset.filter fun object ↦ (r.last object).isTainted

/-- As many objects are tracked as there can be, and this one is not among them. -/
def Refuses (r : TrackingRecord) (object : Nat) : Prop :=
  r.capacity ≤ r.objects.card ∧ object ∉ r.objects

instance (r : TrackingRecord) (object : Nat) : Decidable (r.Refuses object) :=
  inferInstanceAs (Decidable (_ ∧ _))

/-- An attempt is refused if its value is tainted and there is no room for the object. -/
def attempt (r : TrackingRecord) (object : Nat) (taint : TaintedValue) : TrackingRecord :=
  { r with attempts := ⟨object, taint, taint.isTainted && r.Refuses object⟩ :: r.attempts }

/-- A call, with the answer of a lookup. -/
def step (r : TrackingRecord) : TrackerCall → Option TaintedValue × TrackingRecord
  | .track none _ => (none, r)
  | .track (some value) taint => (none, r.attempt value (taint.getD .empty))
  | .trackSource none _ _ => (none, r)
  | .trackSource (some ref) kind name =>
      if ref.value.isEmpty then (none, r)
      else (none, r.attempt ref.id (.fullyTainted ref.value.length kind name))
  | .taintOf none => (some .empty, r)
  | .taintOf (some value) => (some (r.last value), r)
  | .clear => (none, { r with attempts := [] })

/-- What is tracked for an object is the value of an attempt, if it is tainted. -/
theorem mem_objects : object ∈ r.objects ↔ (r.last object).isTainted = true := by
  rw [objects, Finset.mem_filter, and_iff_right_iff_imp, List.mem_toFinset]
  intro htainted
  rw [last] at htainted
  split at htainted
  · next a hfound =>
      have hfits := List.find?_some hfound
      simp only [Bool.and_eq_true, beq_iff_eq] at hfits
      exact List.mem_map.mpr ⟨a, List.mem_of_find?_eq_some hfound, hfits.1⟩
  · cases htainted

/-- Of an object that is not tracked nothing is read. -/
theorem last_eq_empty (h : ¬ (r.last object).isTainted = true) : r.last object = .empty := by
  unfold last at h ⊢
  split at h
  · split at h
    · next htainted => exact absurd htainted h
    · next huntainted => exact if_neg huntainted
  · rfl

/-- An attempt leaves what is tracked for the others. -/
theorem last_attempt_of_ne (h : other ≠ object) :
    (r.attempt object taint).last other = r.last other := by
  have hne : (object == other) = false := beq_eq_false_iff_ne.mpr h.symm
  rw [last, last, attempt, List.find?_cons_of_neg (by simp [hne])]

/-- A refused attempt leaves what is tracked. -/
theorem last_attempt_of_refused (hrefused : (taint.isTainted && r.Refuses object) = true) :
    (r.attempt object taint).last other = r.last other := by
  rw [last, last, attempt, List.find?_cons_of_neg (by simp [hrefused])]

/-- Any other attempt is the last value that is tracked for its object. -/
theorem last_attempt (htaken : (taint.isTainted && r.Refuses object) = false) :
    (r.attempt object taint).last object = if taint.isTainted then taint else .empty := by
  rw [last, attempt, List.find?_cons_of_pos (by simp [htaken])]

end TrackingRecord

/-! ## The table and the record -/

/-- The table has an entry for each object that is tracked, and no others. -/
structure Tracks (t : TaintTracker) (r : TrackingRecord) : Prop where
  capacity_eq : t.capacity = r.capacity
  nodup : (t.table.map Prod.fst).Nodup
  entry_eq : ∀ object, t.entry object =
    if (r.last object).isTainted then some (r.last object) else none
  overflowed_eq : t.overflowed = r.attempts.any (·.refused)
  tainted : ∀ e ∈ t.table, e.2.isTainted = true
  bounded : t.table.length ≤ t.capacity

namespace Tracks

variable {t : TaintTracker} {r : TrackingRecord}

/-- The objects with an entry are those that are tracked. -/
theorem mem_iff (h : Tracks t r) (object : Nat) :
    object ∈ t.table.map Prod.fst ↔ object ∈ r.objects := by
  have hentry : object ∈ t.table.map Prod.fst ↔ (t.entry object).isSome = true := by
    rw [TaintTracker.entry, List.lookup_isSome_iff, List.mem_map]
    simp only [beq_iff_eq, @eq_comm _ object]
  rw [hentry, h.entry_eq, TrackingRecord.mem_objects]
  simp

theorem length_eq (h : Tracks t r) : t.table.length = r.objects.card := by
  rw [← List.length_map Prod.fst, ← List.toFinset_card_of_nodup h.nodup]
  congr 1
  ext object
  rw [List.mem_toFinset, h.mem_iff]

/-- What is read of an object is the last value that was tracked for it. -/
theorem taintOf_eq (h : Tracks t r) (object : Nat) : t.taintOf (some object) = r.last object := by
  show (t.entry object).getD .empty = _
  rw [h.entry_eq]
  split
  · rfl
  · next huntainted => exact (TrackingRecord.last_eq_empty huntainted).symm

/-- The table refuses an object just when the record does. -/
theorem refuses_eq (h : Tracks t r) (object : Nat) :
    (decide (t.table.length ≥ t.capacity) && (t.entry object).isNone) =
      decide (r.Refuses object) := by
  have hentry : (t.entry object).isNone = decide (object ∉ r.objects) := by
    rw [h.entry_eq, Bool.eq_iff_iff, decide_eq_true_iff, TrackingRecord.mem_objects]
    simp
  rw [hentry, ← Bool.decide_and, h.length_eq, h.capacity_eq]
  rfl

/-- The flag is set when an attempt is refused. -/
theorem overflowed_attempt (h : Tracks t r) (object : Nat) (taint : TaintedValue) :
    (r.attempt object taint).attempts.any (·.refused) =
      ((taint.isTainted && r.Refuses object) || t.overflowed) := by
  rw [h.overflowed_eq]
  rfl

/-- An attempt keeps the table and the record together. -/
theorem attempt (h : Tracks t r) (object : Nat) (taint : TaintedValue) :
    Tracks (t.track (some object) (some taint)) (r.attempt object taint) := by
  have hremoved : ((t.table.filter fun e ↦ e.1 != object).map Prod.fst).Nodup :=
    h.nodup.sublist (List.filter_sublist.map _)
  have hkept : ∀ e ∈ t.table.filter fun e ↦ e.1 != object, e.2.isTainted = true :=
    fun e he ↦ h.tainted e (List.mem_of_mem_filter he)
  have hother : ∀ other, other ≠ object → (t.track (some object) (some taint)).entry other =
      if ((r.attempt object taint).last other).isTainted then
        some ((r.attempt object taint).last other) else none := by
    intro other hne
    rw [TaintTracker.entry_track_of_ne hne, TrackingRecord.last_attempt_of_ne hne, h.entry_eq]
  have hflag := h.overflowed_attempt object taint
  cases htainted : taint.isTainted with
  | false =>
      have htrack : t.track (some object) (some taint) = t.remove object := by
        simp [TaintTracker.track, htainted]
      rw [htrack] at hother ⊢
      rw [htainted, Bool.false_and, Bool.false_or] at hflag
      refine ⟨h.capacity_eq, hremoved, fun other ↦ ?_, hflag.symm, hkept,
        (List.length_filter_le _ _).trans h.bounded⟩
      by_cases hne : other = object
      · rw [hne, TrackingRecord.last_attempt (by rw [htainted, Bool.false_and]), htainted]
        exact TaintTracker.lookup_filter_self
      · exact hother other hne
  | true =>
      have hrefuses := h.refuses_eq object
      rw [htainted, Bool.true_and] at hflag
      cases hfull : decide (r.Refuses object) with
      | true =>
          have htrack : t.track (some object) (some taint) = { t with overflowed := true } := by
            simp only [TaintTracker.track, htainted, hrefuses, hfull]
            rfl
          rw [hfull, Bool.true_or] at hflag
          rw [htrack]
          refine ⟨h.capacity_eq, h.nodup, fun other ↦ ?_, hflag.symm, h.tainted, h.bounded⟩
          rw [TrackingRecord.last_attempt_of_refused (by rw [htainted, hfull]; rfl)]
          exact h.entry_eq other
      | false =>
          have htrack : t.track (some object) (some taint) = t.put object taint := by
            simp only [TaintTracker.track, htainted, hrefuses, hfull]
            rfl
          rw [hfull, Bool.false_or] at hflag
          rw [htrack] at hother ⊢
          refine ⟨h.capacity_eq, ?_, fun other ↦ ?_, hflag.symm, ?_, ?_⟩
          · refine List.nodup_cons.mpr ⟨fun hmem ↦ ?_, hremoved⟩
            obtain ⟨e, he, hkey⟩ := List.mem_map.mp hmem
            exact bne_iff_ne.mp (List.mem_filter.mp he).2 hkey
          · by_cases hne : other = object
            · rw [hne, TrackingRecord.last_attempt (by rw [htainted, hfull]; rfl), if_pos htainted,
                if_pos htainted]
              exact List.lookup_cons_self
            · exact hother other hne
          · exact List.forall_mem_cons.mpr ⟨htainted, hkept⟩
          · -- there was room, or the object had an entry, which is gone
            rw [hfull, Bool.and_eq_false_iff, decide_eq_false_iff_not] at hrefuses
            show (t.table.filter fun e ↦ e.1 != object).length + 1 ≤ t.capacity
            rcases hrefuses with hroom | hentry
            · have := List.length_filter_le (fun e : Nat × TaintedValue ↦ e.1 != object) t.table
              omega
            · rw [Option.isNone_eq_false_iff, TaintTracker.entry, List.lookup_isSome_iff] at hentry
              obtain ⟨e, he, hkey⟩ := hentry
              have hshorter : (t.table.filter fun e ↦ e.1 != object).length < t.table.length :=
                List.length_filter_lt_length_iff_exists.mpr ⟨e, he, by simp [beq_iff_eq.mp hkey]⟩
              exact (Nat.succ_le_of_lt hshorter).trans h.bounded

/-- A call is answered from the record, and keeps the table and the record together. -/
theorem step (h : Tracks t r) (call : TrackerCall) :
    (t.step call).1 = (r.step call).1 ∧ Tracks (t.step call).2 (r.step call).2 := by
  cases call with
  | track value taint =>
      cases value with
      | none => exact ⟨rfl, h⟩
      | some value =>
          refine ⟨rfl, ?_⟩
          cases taint with
          | none => exact h.attempt value .empty
          | some taint => exact h.attempt value taint
  | trackSource value kind name =>
      cases value with
      | none => exact ⟨rfl, h⟩
      | some ref =>
          show none = (if ref.value.isEmpty then _ else _ : _ × _).1 ∧
            Tracks (if ref.value.isEmpty then _ else _) (if ref.value.isEmpty then _ else _ : _ × _).2
          split
          · exact ⟨rfl, h⟩
          · exact ⟨rfl, h.attempt ref.id _⟩
  | taintOf value =>
      cases value with
      | none => exact ⟨rfl, h⟩
      | some value => exact ⟨congrArg some (h.taintOf_eq value), h⟩
  | clear =>
      exact ⟨rfl, h.capacity_eq, List.nodup_nil, fun _ ↦ rfl, rfl, List.forall_mem_nil _,
        Nat.zero_le _⟩

end Tracks

/-- For every capacity and every sequence of calls: the table answers every lookup with the last
value that was tracked for the object, has no more entries than its capacity, one for each object
that is tracked, each with a tainted value, and is flagged when an attempt was refused. -/
theorem tracker_exact (capacity : Nat) (calls : List TrackerCall) :
    let t := final TaintTracker.step (.create capacity) calls
    let r := final TrackingRecord.step ⟨capacity, []⟩ calls
    (visited TaintTracker.step (.create capacity) calls).map Prod.fst =
        (visited TrackingRecord.step ⟨capacity, []⟩ calls).map Prod.fst ∧
      (∀ object, t.taintOf (some object) = r.last object) ∧
      t.table.length = r.objects.card ∧ t.table.length ≤ capacity ∧
      (∀ e ∈ t.table, e.2.isTainted = true) ∧
      (t.overflowed = true ↔ ∃ a ∈ r.attempts, a.refused = true) := by
  intro t r
  have hcreate : Tracks (.create capacity) ⟨capacity, []⟩ :=
    ⟨rfl, List.nodup_nil, fun _ ↦ rfl, rfl, List.forall_mem_nil _, Nat.zero_le _⟩
  obtain ⟨hanswers, htracks⟩ := @simulation _ _ _ TaintTracker.step _ TrackingRecord.step Tracks
    (fun _ _ call h ↦ h.step call) _ _ hcreate calls
  have hcapacity : t.capacity = capacity :=
    @invariant_final _ _ _ TaintTracker.step (·.capacity = capacity)
      (fun before call h ↦ (before.capacity_step call).trans h) (.create capacity) rfl calls
  refine ⟨hanswers, htracks.taintOf_eq, htracks.length_eq, ?_, htracks.tainted, ?_⟩
  · rw [← hcapacity]
    exact htracks.bounded
  · rw [htracks.overflowed_eq, List.any_eq_true]

end Aegis.Agent
