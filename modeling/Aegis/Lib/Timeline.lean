import Mathlib.Data.List.Basic
import Mathlib.Order.Lattice
import Mathlib.Tactic.ByContra

/-!
# Values over time

A timeline records the values something takes, each with the time it begins, the last one first.
`Throughout` says of a whole period what holds of the values in it, and `since` finds the same in
one time: when the last unbroken stretch began. `entered` is that time for a stretch that began
after something else.
-/

namespace Timeline

universe u v

variable {T : Type u} {V : Type v} (p : V → Bool)

/-- When the stretch that lasts until now began, if there is one. -/
def since : List (T × V) → Option T
  | [] => none
  | (t, v) :: rest => if p v then some ((since rest).getD t) else none

/-- When a stretch last began after a value that is not of it. -/
def entered : List (T × V) → Option T
  | [] => none
  | [_] => none
  | (t, v) :: (s, w) :: rest =>
      if p v && !p w then some t else entered ((s, w) :: rest)

variable {p}

/-- A stretch begins with one of the values. -/
theorem mem_of_since {h : List (T × V)} {t : T} (hsince : since p h = some t) :
    ∃ v, (t, v) ∈ h := by
  induction h with
  | nil => cases hsince
  | cons entry rest ih =>
      obtain ⟨s, w⟩ := entry
      rw [since] at hsince
      split at hsince
      · cases hrest : since p rest with
        | none =>
            rw [hrest] at hsince
            cases hsince
            exact ⟨w, List.mem_cons_self⟩
        | some r =>
            rw [hrest] at hsince
            cases hsince
            obtain ⟨v, hv⟩ := ih hrest
            exact ⟨v, List.mem_cons_of_mem _ hv⟩
      · cases hsince

/-- The stretch that lasts began when it was entered, or with the first value. -/
theorem since_eq {h : List (T × V)} {t first : T} {v w : V} {rest : List (T × V)}
    (hcons : h = (t, v) :: rest) (hfirst : h.getLast? = some (first, w)) :
    since p h = if p v then some ((entered p h).getD first) else none := by
  induction rest generalizing h t v with
  | nil =>
      subst hcons
      cases hfirst
      simp [since, entered]
  | cons entry rest ih =>
      subst hcons
      obtain ⟨s, u⟩ := entry
      have hrest := ih rfl (by rwa [List.getLast?_cons_cons] at hfirst)
      rw [since, hrest, entered]
      cases hv : p v <;> cases hu : p u <;> simp

/-! ## Periods -/

section
variable [LinearOrder T]

/-- The values are recorded in the order of their times. -/
def Ordered (h : List (T × V)) : Prop :=
  h.Pairwise fun later earlier ↦ earlier.1 ≤ later.1

/-- The value in force at a time: the last one that begins no later. -/
def inForce (h : List (T × V)) (t : T) : Option V :=
  (h.find? fun entry ↦ decide (entry.1 ≤ t)).map Prod.snd

variable (p) in
/-- In force at the start of a period, and of every value that begins in it. -/
def Throughout (h : List (T × V)) (start finish : T) : Prop :=
  (inForce h start).any p = true ∧
    ∀ entry ∈ h, start < entry.1 → entry.1 ≤ finish → p entry.2 = true

variable (p) in
instance (h : List (T × V)) (start finish : T) : Decidable (Throughout p h start finish) :=
  @instDecidableAnd _ _ _ (List.decidableBAll _ h)

/-- What holds throughout a period until now is a stretch that began before it. -/
theorem throughout_iff {h : List (T × V)} (hordered : Ordered h) {start finish : T}
    (hfinish : ∀ entry ∈ h, entry.1 ≤ finish) :
    Throughout p h start finish ↔ ∃ t, since p h = some t ∧ t ≤ start := by
  induction h with
  | nil => simp [Throughout, inForce, since]
  | cons entry rest ih =>
      obtain ⟨t, v⟩ := entry
      obtain ⟨hearlier, hrest⟩ := List.pairwise_cons.mp hordered
      obtain ⟨ht, hfinish⟩ := List.forall_mem_cons.mp hfinish
      rw [since]
      by_cases hstart : t ≤ start
      · -- The last value begins before the period, and so do all the others.
        have hold : ∀ entry ∈ (t, v) :: rest, ¬start < entry.1 := by
          intro entry hentry
          rcases List.mem_cons.mp hentry with rfl | hentry
          · exact not_lt.mpr hstart
          · exact not_lt.mpr ((hearlier entry hentry).trans hstart)
        have hforce : inForce ((t, v) :: rest) start = some v := by simp [inForce, hstart]
        have hbegan : (since p rest).getD t ≤ start := by
          cases hsince : since p rest with
          | none => exact hstart
          | some s =>
              obtain ⟨w, hw⟩ := mem_of_since hsince
              exact (hearlier (s, w) hw).trans hstart
        rw [Throughout, hforce, and_iff_left fun entry hentry hlt ↦ absurd hlt (hold entry hentry)]
        cases hv : p v <;> simp [hv, hbegan]
      · -- The last value begins in the period, so it was the one before that was in force.
        have hforce : inForce ((t, v) :: rest) start = inForce rest start := by
          simp [inForce, hstart]
        have hsplit : Throughout p ((t, v) :: rest) start finish ↔
            p v = true ∧ Throughout p rest start finish := by
          rw [Throughout, Throughout, hforce, List.forall_mem_cons]
          have hlast : (start < t → t ≤ finish → p v = true) ↔ p v = true :=
            ⟨fun h ↦ h (not_le.mp hstart) ht, fun h _ _ ↦ h⟩
          rw [hlast]
          exact and_left_comm
        rw [hsplit, ih hrest hfinish]
        cases hv : p v with
        | false => simp
        | true =>
            rw [if_pos rfl, and_iff_right rfl]
            cases hsince : since p rest with
            | none => simp [hstart]
            | some s => simp

end

end Timeline
