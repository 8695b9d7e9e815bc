import Aegis.Lib.Machine
import Aegis.Server.Builtins
import Mathlib.Data.List.Chain
import Mathlib.Data.Nat.Bitwise
import Mathlib.Order.Fin.Basic

/-!
# Identifiers

`new_id` of `domain/value_objects.py`: identifiers whose order is that of the calls, made of the
millisecond, a counter within it and random bits. The counter borrows from the next millisecond when
it runs over.
-/

namespace Aegis.Server

/-! ## The order of texts -/

/-- Texts whose first parts are of one length are in the order of these, and then of the rest. -/
theorem append_lt_append_iff {α : Type*} [LinearOrder α] {s t s' t' : List α}
    (hlength : s.length = t.length) : s ++ s' < t ++ t' ↔ s < t ∨ s = t ∧ s' < t' := by
  induction s generalizing t with
  | nil =>
      rw [List.length_nil, eq_comm, List.length_eq_zero_iff] at hlength
      simp [hlength]
  | cons a s ih =>
      cases t with
      | nil => cases hlength
      | cons b t =>
          have hrest := @ih t (by simpa using hlength)
          rw [List.cons_append, List.cons_append, List.cons_lt_cons_iff, List.cons_lt_cons_iff,
            hrest, List.cons.injEq]
          tauto

/-- The smaller of two numbers of one width comes first as text. -/
theorem PyStr.hex_lt_hex {width a b : Nat} (ha : a < 16 ^ width) (hb : b < 16 ^ width)
    (h : a < b) : PyStr.hex width a < PyStr.hex width b := by
  induction width generalizing a b with
  | zero => omega
  | succ width ih =>
      have hdigit : ∀ n < 16, ∀ m < n, [PyStr.hexDigit m] < [PyStr.hexDigit n] := by decide
      rw [PyStr.hex, PyStr.hex, append_lt_append_iff (by simp only [PyStr.length_hex])]
      rcases (Nat.div_le_div_right h.le : a / 16 ≤ b / 16).lt_or_eq with hlt | heq
      · exact .inl (ih (by omega) (by omega) hlt)
      · exact .inr ⟨by rw [heq], hdigit _ (Nat.mod_lt _ (by decide)) _ (by omega)⟩

/-- Text with a hyphen after each of some parts. -/
def hyphened : List Nat → PyStr → PyStr
  | [], s => s
  | n :: parts, s => s.take n ++ (py "-" ++ hyphened parts (s.drop n))

/-- Hyphens at the same places leave the order of texts of one length. -/
theorem hyphened_lt {parts : List Nat} {s t : PyStr} (hlength : s.length = t.length)
    (h : s < t) : hyphened parts s < hyphened parts t := by
  induction parts generalizing s t with
  | nil => exact h
  | cons n parts ih =>
      rw [← List.take_append_drop n s, ← List.take_append_drop n t,
        append_lt_append_iff (by simp [hlength])] at h
      rw [hyphened, hyphened, append_lt_append_iff (by simp [hlength])]
      refine h.imp_right fun hrest ↦ ⟨hrest.1, ?_⟩
      rw [append_lt_append_iff rfl]
      exact .inr ⟨rfl, ih (by simp [hlength]) hrest.2⟩

theorem Uuid.to_str_eq_hyphened (id : Uuid) :
    id.toStr = hyphened [8, 4, 4, 4] (PyStr.hex 32 id.toNat) := by
  simp [Uuid.toStr, hyphened, List.drop_drop]

/-- Identifiers are in the order of their texts. -/
theorem Uuid.to_str_lt_iff {a b : Uuid} : a.toStr < b.toStr ↔ a < b := by
  have hmono : ∀ {a b : Uuid}, a < b → a.toStr < b.toStr := by
    intro a b h
    rw [Uuid.to_str_eq_hyphened, Uuid.to_str_eq_hyphened]
    exact hyphened_lt (by simp only [PyStr.length_hex]) (PyStr.hex_lt_hex a.isLt b.isLt h)
  refine ⟨fun h ↦ ?_, hmono⟩
  rcases lt_trichotomy a.toNat b.toNat with hlt | heq | hgt
  · exact hlt
  · exact absurd h (BitVec.eq_of_toNat_eq heq ▸ lt_irrefl _)
  · exact absurd h (hmono hgt).not_gt

/-! ## The generator -/

/-- `_LAST_UUID7_MS` and `_UUID7_COUNTER`. -/
structure IdClock where
  lastMs : Nat
  counter : Nat
  deriving DecidableEq, Repr

/-- The module as it is loaded. -/
def IdClock.initial : IdClock := ⟨0, 0⟩

/-- What a call finds: the clock in milliseconds, and what `secrets.randbelow` and `os.urandom`
return. -/
structure IdDraw where
  nowMs : Nat
  start : Fin 0x100
  urandom : BitVec 64

/-- The bits of an identifier. -/
def layout (ms counter : Nat) (urandom : BitVec 64) : Uuid :=
  let randB := urandom.toNat &&& ((1 <<< 62) - 1)
  BitVec.ofNat 128 ((ms &&& ((1 <<< 48) - 1)) <<< 80 ||| 0x7 <<< 76 |||
    (counter &&& 0xFFF) <<< 64 ||| 0b10 <<< 62 ||| randB)

/-- `new_id`. -/
def newId (clock : IdClock) (draw : IdDraw) : Uuid × IdClock :=
  if draw.nowMs = clock.lastMs then
    let counter := (clock.counter + 1) &&& 0xFFF
    if counter = 0 then
      let nowMs := draw.nowMs + 1
      (layout nowMs counter draw.urandom, ⟨nowMs, counter⟩)
    else (layout draw.nowMs counter draw.urandom, ⟨clock.lastMs, counter⟩)
  else (layout draw.nowMs draw.start draw.urandom, ⟨draw.nowMs, draw.start⟩)

/-- A UUID of version 7 and the variant of the standard. -/
def IsVersion7 (id : Uuid) : Prop :=
  id.toNat / 2 ^ 76 % 2 ^ 4 = 7 ∧ id.toNat / 2 ^ 62 % 2 ^ 2 = 0b10

/-- The bits of an identifier as a number. -/
theorem to_nat_layout (ms counter : Nat) (urandom : BitVec 64) :
    (layout ms counter urandom).toNat =
      (ms % 2 ^ 48) * 2 ^ 80 + (7 * 2 ^ 76 + (counter % 2 ^ 12 * 2 ^ 64 +
        (2 * 2 ^ 62 + urandom.toNat % 2 ^ 62))) := by
  have hrandom : urandom.toNat &&& ((1 <<< 62) - 1) = urandom.toNat % 2 ^ 62 :=
    Nat.and_two_pow_sub_one_eq_mod _ 62
  have hms : ms &&& ((1 <<< 48) - 1) = ms % 2 ^ 48 := Nat.and_two_pow_sub_one_eq_mod _ 48
  have hcounter : counter &&& 0xFFF = counter % 2 ^ 12 := Nat.and_two_pow_sub_one_eq_mod _ 12
  have hrandom' : urandom.toNat % 2 ^ 62 < 2 ^ 62 := Nat.mod_lt _ (by decide)
  have hms' : ms % 2 ^ 48 < 2 ^ 48 := Nat.mod_lt _ (by decide)
  have hcounter' : counter % 2 ^ 12 < 2 ^ 12 := Nat.mod_lt _ (by decide)
  have htail : 2 <<< 62 ||| urandom.toNat % 2 ^ 62 = 2 * 2 ^ 62 + urandom.toNat % 2 ^ 62 := by
    rw [← Nat.shiftLeft_add_eq_or_of_lt hrandom', Nat.shiftLeft_eq]
  have hcounted : (counter % 2 ^ 12) <<< 64 ||| (2 * 2 ^ 62 + urandom.toNat % 2 ^ 62) =
      counter % 2 ^ 12 * 2 ^ 64 + (2 * 2 ^ 62 + urandom.toNat % 2 ^ 62) := by
    rw [← Nat.shiftLeft_add_eq_or_of_lt (by omega), Nat.shiftLeft_eq]
  have hversion : 7 <<< 76 ||| (counter % 2 ^ 12 * 2 ^ 64 +
      (2 * 2 ^ 62 + urandom.toNat % 2 ^ 62)) =
      7 * 2 ^ 76 + (counter % 2 ^ 12 * 2 ^ 64 + (2 * 2 ^ 62 + urandom.toNat % 2 ^ 62)) := by
    rw [← Nat.shiftLeft_add_eq_or_of_lt (by omega), Nat.shiftLeft_eq]
  unfold layout
  dsimp only
  rw [hrandom, hms, hcounter]
  simp only [Nat.or_assoc]
  rw [htail, hcounted, hversion, ← Nat.shiftLeft_add_eq_or_of_lt (by omega), Nat.shiftLeft_eq,
    BitVec.toNat_ofNat]
  omega

/-- Whatever the millisecond, the counter and the random bits, the identifier is well formed. -/
theorem is_version7_layout (ms counter : Nat) (urandom : BitVec 64) :
    IsVersion7 (layout ms counter urandom) := by
  unfold IsVersion7
  rw [to_nat_layout]
  omega

/-- The millisecond and the counter fit into their bits. -/
structure IdClock.InRange (clock : IdClock) : Prop where
  lastMs_lt : clock.lastMs < 2 ^ 48
  counter_lt : clock.counter < 2 ^ 12

/-- Identifiers are in the order of their milliseconds, and then of their counters. -/
theorem layout_lt_iff {clock next : IdClock} (hclock : clock.InRange) (hnext : next.InRange)
    (hne : clock ≠ next) (urandom urandom' : BitVec 64) :
    layout clock.lastMs clock.counter urandom < layout next.lastMs next.counter urandom' ↔
      clock.lastMs < next.lastMs ∨
        clock.lastMs = next.lastMs ∧ clock.counter < next.counter := by
  have hdiffer : clock.lastMs ≠ next.lastMs ∨ clock.counter ≠ next.counter := by
    by_contra hsame
    push Not at hsame
    exact hne (by cases clock; cases next; simp_all)
  obtain ⟨hms, hcounter⟩ := hclock
  obtain ⟨hms', hcounter'⟩ := hnext
  rw [BitVec.lt_def, to_nat_layout, to_nat_layout, Nat.mod_eq_of_lt hms, Nat.mod_eq_of_lt hms',
    Nat.mod_eq_of_lt hcounter, Nat.mod_eq_of_lt hcounter']
  omega

/-! ## One call -/

variable {clock : IdClock} {draw : IdDraw}

/-- The clock has reached the millisecond of the last identifier, which may have been borrowed. -/
def CaughtUp (clock : IdClock) (draw : IdDraw) : Prop :=
  clock.lastMs ≤ draw.nowMs

instance (clock : IdClock) (draw : IdDraw) : Decidable (CaughtUp clock draw) :=
  inferInstanceAs (Decidable (_ ≤ _))

/-- An identifier is made of the millisecond and the counter the call leaves. -/
theorem new_id_fst (clock : IdClock) (draw : IdDraw) :
    (newId clock draw).1 =
      layout (newId clock draw).2.lastMs (newId clock draw).2.counter draw.urandom := by
  unfold newId
  dsimp only
  split_ifs with hsame hover
  · rfl
  · rw [hsame]
  · rfl

/-- A call moves on just when the clock has caught up, and goes back otherwise. -/
theorem new_id_cases (hclock : clock.InRange) (draw : IdDraw) :
    let next := (newId clock draw).2
    (CaughtUp clock draw ∧ (clock.lastMs < next.lastMs ∨
        clock.lastMs = next.lastMs ∧ clock.counter < next.counter) ∨
      draw.nowMs < clock.lastMs ∧ next.lastMs < clock.lastMs) ∧
        next.counter < 2 ^ 12 ∧ next.lastMs ≤ draw.nowMs + 1 := by
  have hcounted : (clock.counter + 1) &&& 0xFFF = (clock.counter + 1) % 2 ^ 12 :=
    Nat.and_two_pow_sub_one_eq_mod _ 12
  have hcounter := hclock.counter_lt
  have hstart := draw.start.isLt
  unfold newId CaughtUp
  dsimp only
  rw [hcounted]
  split_ifs with hsame hover <;> dsimp only <;> omega

/-- The identifier of a call is greater than that of the call before just when the clock has caught
up. -/
theorem lt_new_id_iff (hclock : clock.InRange) (hnow : draw.nowMs + 1 < 2 ^ 48)
    (urandom : BitVec 64) :
    (layout clock.lastMs clock.counter urandom < (newId clock draw).1 ↔ CaughtUp clock draw) ∧
      (newId clock draw).2.InRange := by
  obtain ⟨hcases, hcounter, hms⟩ := new_id_cases hclock draw
  have hnext : (newId clock draw).2.InRange := ⟨hms.trans_lt hnow, hcounter⟩
  refine ⟨?_, hnext⟩
  have hne : clock ≠ (newId clock draw).2 := by
    intro heq
    rw [← heq] at hcases
    omega
  rw [new_id_fst, layout_lt_iff hclock hnext hne]
  unfold CaughtUp at hcases ⊢
  omega

/-! ## A run -/

/-- What the calls of a process return. -/
def identifiers (clock : IdClock) (draws : List IdDraw) : List Uuid :=
  (Machine.visited newId clock draws).map (·.1)

/-- The identifiers of a run grow from one on just when the clock has caught up at each call. -/
theorem is_chain_identifiers_iff (hclock : clock.InRange) {draws : List IdDraw}
    (hdraws : ∀ draw ∈ draws, draw.nowMs + 1 < 2 ^ 48) (urandom : BitVec 64) :
    (layout clock.lastMs clock.counter urandom :: identifiers clock draws).IsChain (· < ·) ↔
      Machine.Meets newId CaughtUp clock draws := by
  induction draws generalizing clock urandom with
  | nil => exact iff_of_true (List.isChain_singleton _) trivial
  | cons draw draws ih =>
      obtain ⟨hnow, hrest⟩ := List.forall_mem_cons.mp hdraws
      obtain ⟨hlt, hnext⟩ := lt_new_id_iff hclock hnow urandom
      have htail := ih hnext hrest draw.urandom
      rw [← new_id_fst] at htail
      exact List.isChain_cons_cons.trans (and_congr hlt htail)

/-- Every identifier is well formed. -/
theorem is_version7_of_mem_identifiers {draws : List IdDraw} :
    ∀ id ∈ identifiers clock draws, IsVersion7 id := by
  induction draws generalizing clock with
  | nil => exact List.forall_mem_nil _
  | cons draw draws ih =>
      have hformed : IsVersion7 (newId clock draw).1 := by
        rw [new_id_fst]
        exact is_version7_layout _ _ _
      exact List.forall_mem_cons.mpr ⟨hformed, ih⟩

/-- Before the first call, the clock has caught up with nothing. -/
theorem in_range_initial : IdClock.initial.InRange :=
  ⟨by decide, by decide⟩

/-- The identifiers of a process grow just when the clock has caught up at each call. -/
theorem is_chain_initial_iff {draws : List IdDraw}
    (hdraws : ∀ draw ∈ draws, draw.nowMs + 1 < 2 ^ 48) :
    (identifiers .initial draws).IsChain (· < ·) ↔
      Machine.Meets newId CaughtUp .initial draws := by
  cases draws with
  | nil => exact iff_of_true List.isChain_nil trivial
  | cons draw draws =>
      obtain ⟨hnow, hrest⟩ := List.forall_mem_cons.mp hdraws
      have hnext := (lt_new_id_iff in_range_initial hnow 0).2
      have htail := is_chain_identifiers_iff hnext hrest draw.urandom
      rw [← new_id_fst] at htail
      exact htail.trans (and_iff_right (Nat.zero_le _)).symm

/-- Identifiers grow as text when they grow as numbers. -/
theorem is_chain_to_str_iff {ids : List Uuid} :
    (ids.map Uuid.toStr).IsChain (· < ·) ↔ ids.IsChain (· < ·) := by
  rw [List.isChain_map]
  simp only [Uuid.to_str_lt_iff]

/-- What is promised of the identifiers of a process. -/
structure Increasing (ids : List Uuid) : Prop where
  as_numbers : ids.IsChain (· < ·)
  as_text : (ids.map Uuid.toStr).IsChain (· < ·)
  well_formed : ∀ id ∈ ids, IsVersion7 id

/-- The identifiers of a process are strictly increasing just when no call is made while the clock
is behind a millisecond that was borrowed. -/
theorem new_id_increasing_iff {draws : List IdDraw}
    (hdraws : ∀ draw ∈ draws, draw.nowMs + 1 < 2 ^ 48) :
    Increasing (identifiers .initial draws) ↔ Machine.Meets newId CaughtUp .initial draws := by
  rw [← is_chain_initial_iff hdraws]
  exact ⟨fun h ↦ h.as_numbers, fun h ↦
    ⟨h, is_chain_to_str_iff.mpr h, is_version7_of_mem_identifiers⟩⟩

/-- Two calls in one millisecond and one in the next. -/
theorem new_id_increasing_of_three :
    Increasing (identifiers .initial [⟨5, 3, 9⟩, ⟨5, 7, 1⟩, ⟨6, 0, 0⟩]) :=
  (new_id_increasing_iff (by decide)).mpr (by decide)

/-- Calls within a millisecond count up. -/
theorem final_replicate (hms : draw.nowMs = clock.lastMs) {n : Nat}
    (hcounter : clock.counter + n < 2 ^ 12) :
    Machine.final newId clock (List.replicate n draw) = ⟨clock.lastMs, clock.counter + n⟩ := by
  induction n generalizing clock with
  | zero => rfl
  | succ n ih =>
      have hcounted : (clock.counter + 1) &&& 0xFFF = clock.counter + 1 :=
        (Nat.and_two_pow_sub_one_eq_mod _ 12).trans (Nat.mod_eq_of_lt (by omega))
      have hnext : (newId clock draw).2 = ⟨clock.lastMs, clock.counter + 1⟩ := by
        unfold newId
        dsimp only
        rw [if_pos hms, hcounted, if_neg (Nat.succ_ne_zero _)]
      have hrest := @ih ⟨clock.lastMs, clock.counter + 1⟩ hms
        (by rwa [Nat.add_assoc, Nat.add_comm 1])
      rw [List.replicate_succ, Machine.final_cons, hnext, hrest, Nat.add_assoc, Nat.add_comm 1]

/-- A call at a fixed millisecond. -/
def fixedDraw : IdDraw := ⟨1700000000000, 0, 0⟩

/-- A millisecond with more calls than the counter has numbers. -/
def crowded : List IdDraw :=
  List.replicate 4098 fixedDraw

/-- The identifier after one that was borrowed from the next millisecond is smaller. -/
theorem new_id_steps_back :
    (crowded.map (·.nowMs)).Pairwise (· ≤ ·) ∧ ¬ Increasing (identifiers .initial crowded) := by
  have hclock : ∀ draw ∈ crowded, draw.nowMs + 1 < 2 ^ 48 := fun draw hmem ↦ by
    rw [List.eq_of_mem_replicate hmem]
    decide
  refine ⟨?_, fun h ↦ ?_⟩
  · rw [crowded, List.map_replicate]
    exact List.pairwise_replicate_of_refl
  · -- the counter runs over at the call before the last, and the last finds the clock behind
    have hsplit : crowded = List.replicate 1 fixedDraw ++
        (List.replicate 4095 fixedDraw ++ List.replicate 2 fixedDraw) := by
      rw [List.replicate_append_replicate, List.replicate_append_replicate]
      rfl
    have hmeets := (is_chain_initial_iff hclock).mp h.as_numbers
    rw [hsplit] at hmeets
    have hlast := (Machine.meets_append.mp (Machine.meets_append.mp hmeets).2).2
    have hfull : Machine.final newId .initial (List.replicate 1 fixedDraw) = ⟨1700000000000, 0⟩ := rfl
    rw [hfull, final_replicate rfl (by decide)] at hlast
    exact absurd hlast (by decide)

end Aegis.Server
