import Mathlib.Data.Int.Log
import Mathlib.Algebra.Order.Field.Power
import Mathlib.Tactic.Linarith
import Mathlib.Algebra.Order.Ring.Abs
import Aegis.Server.Decimal

/-!
# Floating-point numbers

What `float` makes of an exact number, and what `repr` shows of it: the shortest decimal that the
number is read back from. A double has 53 bits, of which none stands below `2 ^ -1074`.
-/

namespace Aegis.Server

/-! ## Doubles -/

/-- The exponent of the last bit of a double of this size. -/
def lastPlace (value : ℚ) : Int :=
  max (Int.log 2 |value| - 52) (-1074)

/-- The nearest double, that with an even last bit of two. -/
def nearestDouble (value : ℚ) : ℚ :=
  roundHalfEven (value / 2 ^ lastPlace value) * 2 ^ lastPlace value

/-- `float(text)` of a text that stands for an exact number. -/
def PyFloat.ofRat (value : ℚ) : PyFloat :=
  if |nearestDouble value| < 2 ^ 1024 then .finite (nearestDouble value)
  else .infinity (value < 0)

/-- The numbers that are doubles. -/
structure IsDouble (value : ℚ) : Prop where
  /-- They are written with 53 bits. -/
  places : ∃ mantissa exponent : Int,
    |mantissa| < 2 ^ 53 ∧ -1074 ≤ exponent ∧ value = mantissa * 2 ^ exponent
  /-- They are not too large. -/
  bounded : |value| < 2 ^ 1024

theorem is_double_zero : IsDouble 0 where
  places := ⟨0, 0, by norm_num, by norm_num, by norm_num⟩
  bounded := by norm_num

/-- Rounding gives one of the two integers around a number. -/
theorem round_half_even_cases (q : ℚ) : roundHalfEven q = ⌊q⌋ ∨ roundHalfEven q = ⌊q⌋ + 1 := by
  unfold roundHalfEven
  simp only
  split_ifs
  · exact .inl rfl
  · exact .inr rfl
  · exact .inl rfl
  · exact .inr rfl

/-- Rounding moves a number by less than one. -/
theorem abs_round_half_even_sub_le (q : ℚ) : |roundHalfEven q - q| ≤ 1 := by
  have hlow := Int.floor_le q
  have hhigh := Int.lt_floor_add_one q
  rcases round_half_even_cases q with h | h
  · rw [h, abs_le]
    constructor <;> linarith
  · rw [h, abs_le]
    push_cast
    constructor <;> linarith

/-- A number is near its double. -/
theorem abs_nearest_double_sub_le (value : ℚ) :
    |nearestDouble value - value| ≤ 2 ^ lastPlace value := by
  have hpos : (0 : ℚ) < 2 ^ lastPlace value := zpow_pos (by norm_num) _
  have hscale : nearestDouble value - value =
      (roundHalfEven (value / 2 ^ lastPlace value) - value / 2 ^ lastPlace value) *
        2 ^ lastPlace value := by
    rw [nearestDouble, sub_mul, div_mul_cancel₀ _ hpos.ne']
  rw [hscale, abs_mul, abs_of_pos hpos]
  exact mul_le_of_le_one_left hpos.le (abs_round_half_even_sub_le _)

/-- An integer is rounded to itself. -/
@[simp] theorem round_half_even_int (n : Int) : roundHalfEven n = n := by
  rw [roundHalfEven, Int.floor_intCast, sub_self, if_pos (by norm_num)]

/-- A number is below the bit above the first one of its double. -/
theorem abs_lt_two_zpow (value : ℚ) : |value| < 2 ^ (lastPlace value + 53) := by
  refine (Int.lt_zpow_succ_log_self (b := 2) (by decide) |value|).trans_le ?_
  have hplace : Int.log 2 |value| - 52 ≤ lastPlace value := le_max_left _ _
  exact zpow_le_zpow_right₀ (by norm_num) (by omega)

/-- The double nearest to a number has 53 bits. -/
theorem places_nearest_double (value : ℚ) : ∃ mantissa exponent : Int,
    |mantissa| < 2 ^ 53 ∧ -1074 ≤ exponent ∧ nearestDouble value = mantissa * 2 ^ exponent := by
  have hpos : (0 : ℚ) < 2 ^ lastPlace value := zpow_pos (by norm_num) _
  have hsmall : |value / 2 ^ lastPlace value| < 2 ^ 53 := by
    rw [abs_div, abs_of_pos hpos, div_lt_iff₀ hpos, ← zpow_natCast, ← zpow_add₀ (by norm_num)]
    exact (abs_lt_two_zpow value).trans_eq (by rw [add_comm]; rfl)
  have hbound : |roundHalfEven (value / 2 ^ lastPlace value)| ≤ 2 ^ 53 := by
    obtain ⟨hlow, hhigh⟩ := abs_lt.mp hsmall
    have hfloor : ⌊value / 2 ^ lastPlace value⌋ < 2 ^ 53 :=
      Int.floor_lt.mpr (by exact_mod_cast hhigh)
    have hfloor' : -2 ^ 53 ≤ ⌊value / 2 ^ lastPlace value⌋ :=
      Int.le_floor.mpr (by exact_mod_cast hlow.le)
    rw [abs_le]
    rcases round_half_even_cases (value / 2 ^ lastPlace value) with h | h <;> rw [h] <;>
      constructor <;> omega
  have hplace : -1074 ≤ lastPlace value := le_max_right _ _
  rcases hbound.lt_or_eq with hlt | heq
  · exact ⟨_, _, hlt, hplace, rfl⟩
  · -- The number was rounded up to one bit more, and the last of them is zero.
    obtain ⟨half, hhalf⟩ : ∃ half : Int,
        roundHalfEven (value / 2 ^ lastPlace value) = half * 2 ∧ |half| < 2 ^ 53 := by
      rcases abs_eq (by norm_num) |>.mp heq with h | h
      · exact ⟨2 ^ 52, h, by norm_num⟩
      · exact ⟨-2 ^ 52, h, by norm_num⟩
    refine ⟨half, lastPlace value + 1, hhalf.2, by omega, ?_⟩
    rw [nearestDouble, hhalf.1, zpow_add_one₀ (by norm_num)]
    push_cast
    ring

/-- What `float` returns is a double. -/
theorem is_double_of_rat {value double : ℚ} (h : PyFloat.ofRat value = .finite double) :
    IsDouble double := by
  unfold PyFloat.ofRat at h
  split_ifs at h with hbound
  obtain rfl := PyFloat.finite.inj h
  exact ⟨places_nearest_double value, hbound⟩

/-- The places of a double are no further down than those it is written with. -/
theorem last_place_le {mantissa exponent : Int} (hmantissa : |mantissa| < 2 ^ 53)
    (hexponent : -1074 ≤ exponent) (hne : (mantissa : ℚ) * 2 ^ exponent ≠ 0) :
    lastPlace (mantissa * 2 ^ exponent) ≤ exponent := by
  have hpos : (0 : ℚ) < 2 ^ exponent := zpow_pos (by norm_num) _
  have hlt : |(mantissa : ℚ) * 2 ^ exponent| < (2 : ℕ) ^ (exponent + 53) := by
    rw [abs_mul, abs_of_pos hpos, mul_comm, Nat.cast_ofNat, zpow_add₀ (by norm_num)]
    refine mul_lt_mul_of_pos_left ?_ hpos
    exact_mod_cast hmantissa
  have hlog := (Int.lt_zpow_iff_log_lt (by decide) (abs_pos.mpr hne)).mp hlt
  exact max_le (by omega) hexponent

/-- A number of 53 bits is the nearest to itself, also beyond the largest double. -/
theorem nearest_double_of_places {value : ℚ} (h : ∃ mantissa exponent : Int,
    |mantissa| < 2 ^ 53 ∧ -1074 ≤ exponent ∧ value = mantissa * 2 ^ exponent) :
    nearestDouble value = value := by
  obtain ⟨mantissa, exponent, hmantissa, hexponent, rfl⟩ := h
  by_cases hzero : (mantissa : ℚ) * 2 ^ exponent = 0
  · rw [hzero, nearestDouble, zero_div]
    exact mul_eq_zero_of_left (by exact_mod_cast round_half_even_int 0) _
  · have hplace := last_place_le hmantissa hexponent hzero
    have hscaled : (mantissa * 2 ^ exponent : ℚ) / 2 ^ lastPlace (mantissa * 2 ^ exponent) =
        (mantissa * 2 ^ (exponent - lastPlace (mantissa * 2 ^ exponent)).toNat : Int) := by
      rw [mul_div_assoc, ← zpow_sub₀ (by norm_num)]
      push_cast
      rw [← zpow_natCast, Int.toNat_of_nonneg (by omega)]
    rw [nearestDouble, hscaled, round_half_even_int, ← hscaled]
    exact div_mul_cancel₀ _ (zpow_ne_zero _ (by norm_num))

/-- A double is the nearest to itself. -/
theorem nearest_double_of_is_double {value : ℚ} (h : IsDouble value) :
    nearestDouble value = value :=
  nearest_double_of_places h.places

/-- `float` returns a double as it is. -/
theorem of_rat_of_is_double {value : ℚ} (h : IsDouble value) :
    PyFloat.ofRat value = .finite value := by
  rw [PyFloat.ofRat, nearest_double_of_is_double h, if_pos h.bounded]

/-! ## Decimals -/

/-- A number with its sign. -/
def signed (negative : Bool) (value : ℚ) : ℚ :=
  if negative then -value else value

/-- The digits down to a place of the decimal system that the number is read back from: the
nearest, or those on one of its sides. -/
def digitsAt (value : ℚ) (place : Int) : Option Nat :=
  let scaled := |value| / 10 ^ place
  [(roundHalfEven scaled).toNat, ⌊scaled⌋₊, ⌊scaled⌋₊ + 1].find? fun digits ↦
    PyFloat.ofRat (signed (value < 0) (digits * 10 ^ place)) = .finite value

/-- The first digits that the number is read back from, from a place downwards. -/
def shortestFrom (value : ℚ) : Nat → Int → Nat × Int
  | 0, place => (0, place)
  | fuel + 1, place =>
      (digitsAt value place).elim (shortestFrom value fuel (place - 1)) fun digits ↦ (digits, place)

/-- The shortest decimal that a double is read back from: its digits and the place of the last.
No double has a place below `10 ^ -1074`. -/
def shortest (value : ℚ) : Nat × Int :=
  let place := Int.log 10 |value| + 1
  shortestFrom value ((place + 1074).toNat + 1) place

/-- At the lowest place, a double is read back from all of its digits. -/
theorem exists_digits_at {value : ℚ} (h : IsDouble value) {place : Int} (hplace : place ≤ -1074) :
    ∃ digits, digitsAt value place = some digits := by
  obtain ⟨mantissa, exponent, -, hexponent, hvalue⟩ := h.places
  have hten : (10 : ℚ) ^ place ≠ 0 := zpow_ne_zero _ (by norm_num)
  have hscaled : |value| / 10 ^ place =
      (mantissa.natAbs * 2 ^ (exponent - place).toNat * 5 ^ (-place).toNat : Nat) := by
    rw [div_eq_iff hten, hvalue, abs_mul, abs_of_pos (zpow_pos (by norm_num : (0 : ℚ) < 2) exponent)]
    push_cast
    rw [← zpow_natCast, ← zpow_natCast, Int.toNat_of_nonneg (by omega),
      Int.toNat_of_nonneg (by omega), Nat.cast_natAbs, Int.cast_abs,
      show (10 : ℚ) = 2 * 5 by norm_num, mul_zpow, zpow_sub₀ (by norm_num), zpow_neg]
    have h2 : (2 : ℚ) ^ place ≠ 0 := zpow_ne_zero _ (by norm_num)
    have h5 : (5 : ℚ) ^ place ≠ 0 := zpow_ne_zero _ (by norm_num)
    field_simp
  refine Option.isSome_iff_exists.mp (List.find?_isSome.mpr ⟨⌊|value| / 10 ^ place⌋₊, by simp, ?_⟩)
  have habs : ((⌊|value| / 10 ^ place⌋₊ : Nat) : ℚ) * 10 ^ place = |value| := by
    rw [hscaled, Nat.floor_natCast, ← hscaled]
    exact div_mul_cancel₀ _ hten
  rw [habs, signed, decide_eq_true_eq]
  by_cases hneg : value < 0
  · rw [if_pos (by simpa using hneg), abs_of_neg hneg, neg_neg, of_rat_of_is_double h]
  · rw [if_neg (by simpa using hneg), abs_of_nonneg (not_lt.mp hneg), of_rat_of_is_double h]

/-- Digits at a place are read back as the number. -/
theorem of_rat_digits_at {value : ℚ} {place : Int} {digits : Nat}
    (h : digitsAt value place = some digits) :
    PyFloat.ofRat (signed (value < 0) (digits * 10 ^ place)) = .finite value := by
  have hread := List.find?_some h
  rwa [decide_eq_true_eq] at hread

/-- Digits that a double is read back from are found, when the search goes down far enough. -/
theorem of_rat_shortest_from {value : ℚ} (h : IsDouble value) {fuel : Nat} {place : Int}
    (hfuel : place - fuel ≤ -1074) :
    PyFloat.ofRat (signed (value < 0) ((shortestFrom value (fuel + 1) place).1 *
      10 ^ (shortestFrom value (fuel + 1) place).2)) = .finite value := by
  induction fuel generalizing place with
  | zero =>
      obtain ⟨digits, hdigits⟩ := exists_digits_at h (show place ≤ -1074 by simpa using hfuel)
      have hfound : shortestFrom value (0 + 1) place = (digits, place) := by
        simp only [shortestFrom, hdigits, Option.elim_some]
      rw [hfound]
      exact of_rat_digits_at hdigits
  | succ fuel ih =>
      cases hdigits : digitsAt value place with
      | some digits =>
          have hfound : shortestFrom value (fuel + 1 + 1) place = (digits, place) := by
            simp only [shortestFrom, hdigits, Option.elim_some]
          rw [hfound]
          exact of_rat_digits_at hdigits
      | none =>
          have hnext : shortestFrom value (fuel + 1 + 1) place =
              shortestFrom value (fuel + 1) (place - 1) := by
            simp only [shortestFrom, hdigits, Option.elim_none]
          rw [hnext]
          exact ih (by push_cast at hfuel; omega)

/-- The shortest decimal of a double is read back as the double. -/
theorem of_rat_shortest {value : ℚ} (h : IsDouble value) :
    PyFloat.ofRat (signed (value < 0) ((shortest value).1 * 10 ^ (shortest value).2)) =
      .finite value :=
  of_rat_shortest_from h (by omega)

end Aegis.Server
