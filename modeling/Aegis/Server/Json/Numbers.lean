import Mathlib.Tactic.Ring
import Aegis.Server.Json.Dumps

/-!
# Numbers are read back

The scanner takes a number as far as it goes, and what follows a value in a text of JSON is no
part of a number. An integer is read back from its digits, and a double from its shortest decimal.
-/

namespace Aegis.Server.Json

/-! ## Digits -/

/-- What may follow a value within a text. -/
def Delimited (rest : PyStr) : Prop :=
  ∀ c ∈ rest.head?, c = pyChar ',' ∨ c = pyChar ']' ∨ c = pyChar '\x7d'

/-- What may follow a number: nothing that goes on with it. -/
def Apart (rest : PyStr) : Prop :=
  ∀ c ∈ rest.head?, isDigit c = false ∧ c ≠ pyChar '.' ∧ c ≠ pyChar 'e' ∧ c ≠ pyChar 'E'

/-- What may follow digits. -/
def EndsDigits (rest : PyStr) : Prop :=
  ∀ c ∈ rest.head?, isDigit c = false

/-- Digits, of which there are some. -/
structure Digits (text : PyStr) : Prop where
  ne_nil : text ≠ []
  digit : ∀ c ∈ text, isDigit c = true

/-- Digits that begin with a zero only where it is the only one. -/
def Whole (digits : PyStr) : Prop :=
  digits = [pyChar '0'] ∨ Digits digits ∧ digits.head? ≠ some (pyChar '0')

theorem Delimited.apart {rest : PyStr} (h : Delimited rest) : Apart rest := by
  intro c hc
  rcases h c hc with rfl | rfl | rfl <;> decide

theorem Apart.endsDigits {rest : PyStr} (h : Apart rest) : EndsDigits rest :=
  fun c hc ↦ (h c hc).1

/-- Digits are taken as far as they go. -/
theorem take_while_digits {digits rest : PyStr} (h : ∀ c ∈ digits, isDigit c = true)
    (hrest : EndsDigits rest) :
    (digits ++ rest).takeWhile isDigit = digits ∧ (digits ++ rest).dropWhile isDigit = rest := by
  induction digits with
  | nil =>
      cases rest with
      | nil => exact ⟨rfl, rfl⟩
      | cons c rest =>
          have hc := hrest c rfl
          simp [hc]
  | cons c digits ih =>
      obtain ⟨hc, hdigits⟩ := List.forall_mem_cons.mp h
      obtain ⟨htake, hdrop⟩ := ih hdigits
      simp [hc, htake, hdrop]

/-- The digits before the point are read. -/
theorem scan_whole_append {digits rest : PyStr} (h : Whole digits) (hrest : EndsDigits rest) :
    scanWhole (digits ++ rest) = some (digits, rest) := by
  rcases h with rfl | ⟨h, hzero⟩
  · rfl
  · cases digits with
    | nil => exact absurd rfl h.ne_nil
    | cons c digits =>
        have hc : c ≠ pyChar '0' := fun hc ↦ hzero (congrArg some hc)
        obtain ⟨hdigit, hdigits⟩ := List.forall_mem_cons.mp h.digit
        obtain ⟨htake, hdrop⟩ := take_while_digits hdigits hrest
        rw [List.cons_append, scanWhole, if_neg hc, if_pos hdigit, htake, hdrop]

/-! ## Numbers -/

/-- The parts a number is written in. -/
structure NumberParts where
  negative : Bool
  whole : PyStr
  fraction : Option PyStr
  exponent : Option (Bool × PyStr)

namespace NumberParts

/-- The fraction with its point. -/
def fractionText (n : NumberParts) : PyStr :=
  n.fraction.elim [] fun digits ↦ pyChar '.' :: digits

/-- The exponent with its sign. -/
def exponentText (n : NumberParts) : PyStr :=
  n.exponent.elim [] fun exponent ↦
    pyChar 'e' :: (if exponent.1 then pyChar '-' else pyChar '+') :: exponent.2

/-- The number as it is written. -/
def text (n : NumberParts) : PyStr :=
  (if n.negative then [pyChar '-'] else []) ++ (n.whole ++ (n.fractionText ++ n.exponentText))

/-- The exponent as a number. -/
def exponentValue (n : NumberParts) : Option Int :=
  n.exponent.map fun exponent ↦
    if exponent.1 then -digitsValue exponent.2 else digitsValue exponent.2

/-- The parts are those of a number. -/
structure Valid (n : NumberParts) : Prop where
  whole : Whole n.whole
  fraction : ∀ digits ∈ n.fraction, Digits digits
  exponent : ∀ exponent ∈ n.exponent, Digits exponent.2

variable {n : NumberParts}

/-- The fraction is read. -/
theorem scan_fraction_append (h : n.Valid) {rest : PyStr} (hdigits : EndsDigits rest)
    (hpoint : ∀ c ∈ rest.head?, c ≠ pyChar '.') :
    scanFraction (n.fractionText ++ rest) = (n.fraction, rest) := by
  unfold fractionText
  cases hfraction : n.fraction with
  | none =>
      cases rest with
      | nil => rfl
      | cons c rest =>
          have hc := hpoint c rfl
          cases rest with
          | nil => rfl
          | cons d rest => exact if_neg fun hif ↦ hc hif.1
  | some digits =>
      have hfraction := h.fraction digits hfraction
      cases digits with
      | nil => exact absurd rfl hfraction.ne_nil
      | cons d digits =>
          obtain ⟨hd, hmore⟩ := List.forall_mem_cons.mp hfraction.digit
          obtain ⟨htake, hdrop⟩ := take_while_digits hmore hdigits
          show (if pyChar '.' = pyChar '.' ∧ isDigit d = true then _ else _) = _
          rw [if_pos ⟨rfl, hd⟩, List.append_eq, htake, hdrop]

/-- The exponent is read. -/
theorem scan_exponent_append (h : n.Valid) {rest : PyStr} (hrest : Apart rest) :
    scanExponent (n.exponentText ++ rest) = (n.exponentValue, rest) := by
  unfold exponentText exponentValue
  cases hexponent : n.exponent with
  | none =>
      cases rest with
      | nil => rfl
      | cons c rest =>
          obtain ⟨-, -, hlower, hupper⟩ := hrest c rfl
          exact if_neg fun hif ↦ hif.1.elim hlower hupper
  | some exponent =>
      obtain ⟨negative, digits⟩ := exponent
      have hexponent := h.exponent _ hexponent
      obtain ⟨htake, hdrop⟩ := take_while_digits hexponent.digit hrest.endsDigits
      have hsign : scanSign ((if negative then pyChar '-' else pyChar '+') :: (digits ++ rest)) =
          (negative, digits ++ rest) := by
        cases negative <;> rfl
      have hdigits : digits ≠ [] := hexponent.ne_nil
      simp only [Option.elim_some, List.cons_append, scanExponent, hsign, htake, hdrop, true_or,
        true_and, ne_eq, hdigits, not_false_eq_true, if_true, Option.map_some]

/-- The sign is read. -/
theorem scan_number_sign {whole : PyStr} (h : Whole whole) {negative : Bool} {rest : PyStr} :
    scanNumber ((if negative then [pyChar '-'] else []) ++ (whole ++ rest)) =
      (scanWhole (whole ++ rest)).map fun (whole, rest) ↦
        (numberValue negative whole (scanFraction rest).1 (scanExponent (scanFraction rest).2).1,
          (scanExponent (scanFraction rest).2).2) := by
  cases negative with
  | true => rfl
  | false =>
      have hhead : (whole ++ rest).head? ≠ some (pyChar '-') := by
        rcases h with rfl | ⟨h, -⟩
        · exact ne_of_beq_false rfl
        · cases whole with
          | nil => exact absurd rfl h.ne_nil
          | cons c whole =>
              rintro hc
              have hdigit := h.digit c List.mem_cons_self
              rw [Option.some.inj hc] at hdigit
              cases hdigit
      rw [if_neg Bool.false_ne_true, List.nil_append, scanNumber]
      simp only [hhead, decide_false, if_false]

/-- A number is read as far as it goes. -/
theorem reads_number (h : n.Valid) :
    Reads scanNumber Apart n.text
      (numberValue n.negative n.whole n.fraction n.exponentValue) := by
  intro rest hrest
  have hexponent := scan_exponent_append h hrest
  have hheads : EndsDigits (n.exponentText ++ rest) ∧
      ∀ c ∈ (n.exponentText ++ rest).head?, c ≠ pyChar '.' := by
    unfold exponentText
    cases n.exponent with
    | none => exact ⟨hrest.endsDigits, fun c hc ↦ (hrest c hc).2.1⟩
    | some exponent =>
        exact ⟨fun c hc ↦ Option.some.inj hc ▸ rfl, fun c hc ↦ Option.some.inj hc ▸ by decide⟩
  have hfraction := scan_fraction_append h hheads.1 hheads.2
  have hends : EndsDigits (n.fractionText ++ (n.exponentText ++ rest)) := by
    unfold fractionText
    cases n.fraction with
    | none => exact hheads.1
    | some digits => exact fun c hc ↦ Option.some.inj hc ▸ rfl
  have hwhole := scan_whole_append h.whole hends
  have htext : n.text ++ rest = (if n.negative then [pyChar '-'] else []) ++
      (n.whole ++ (n.fractionText ++ (n.exponentText ++ rest))) := by
    simp [text]
  rw [htext, scan_number_sign h.whole, hwhole]
  simp only [Option.map_some, hfraction, hexponent]

/-- So is one with a fraction or an exponent, as the double nearest to what it stands for. -/
theorem reads_number_float (h : n.Valid) (hfloat : n.fraction.isSome ∨ n.exponent.isSome)
    {text : PyStr} (htext : n.whole ++ (n.fractionText ++ n.exponentText) = text) {value : ℚ}
    (hvalue : (digitsValue (n.whole ++ n.fraction.getD []) : ℚ) *
      10 ^ (n.exponentValue.getD 0 - (n.fraction.getD []).length) = value) :
    Reads scanNumber Apart ((if n.negative then [pyChar '-'] else []) ++ text)
      (.float (PyFloat.ofRat (signed n.negative value))) := by
  have hread := reads_number h
  have hnone : ¬(n.fraction = none ∧ n.exponentValue = none) := by
    rintro ⟨hfraction, hexponent⟩
    rw [exponentValue, Option.map_eq_none_iff] at hexponent
    rw [hfraction, hexponent] at hfloat
    exact hfloat.elim Bool.false_ne_true Bool.false_ne_true
  rwa [numberValue, if_neg hnone, hvalue, NumberParts.text, htext] at hread

end NumberParts

/-! ## Integers -/

/-- A number beyond nine is written as its tens and its last digit. -/
theorem decimal_of_ten_le {n : Nat} (h : 10 ≤ n) :
    PyStr.decimal n = PyStr.decimal (n / 10) ++ PyStr.decimal (n % 10) := by
  rw [decimal_eq, decimal_eq, decimal_eq, ← List.map_append,
    Nat.toDigits_append_toDigits (by decide) (by omega) (Nat.mod_lt _ (by decide)),
    Nat.div_add_mod]

/-- The digits of a number begin with a zero only when it is zero. -/
theorem head_decimal {n : Nat} (h : n ≠ 0) : (PyStr.decimal n).head? ≠ some (pyChar '0') := by
  induction n using Nat.strong_induction_on with
  | _ n ih =>
      by_cases hten : 10 ≤ n
      · rw [decimal_of_ten_le hten, List.head?_append_of_ne_nil _ (decimal_ne_nil _)]
        exact ih (n / 10) (by omega) (by omega)
      · have hsmall : ∀ n : Fin 10, n.val ≠ 0 →
            (PyStr.decimal n).head? ≠ some (pyChar '0') := by decide
        exact hsmall ⟨n, by omega⟩ h

theorem digits_decimal (n : Nat) : Digits (PyStr.decimal n) := by
  refine ⟨decimal_ne_nil n, fun c hc ↦ ?_⟩
  have := val_of_mem_decimal hc
  simpa [isDigit] using this

theorem whole_decimal (n : Nat) : Whole (PyStr.decimal n) := by
  by_cases h : n = 0
  · exact .inl (h ▸ rfl)
  · exact .inr ⟨digits_decimal n, head_decimal h⟩

@[simp] theorem digits_value_decimal (n : Nat) : digitsValue (PyStr.decimal n) = n :=
  of_digits_decimal n

/-- An integer is read back. -/
theorem reads_int (n : Int) : Reads scanNumber Apart (intText n) (.int n) := by
  have hread := NumberParts.reads_number (n := ⟨n < 0, PyStr.decimal n.natAbs, none, none⟩)
    ⟨whole_decimal _, fun _ h ↦ (by cases h), fun _ h ↦ (by cases h)⟩
  have hvalue : numberValue (n < 0) (PyStr.decimal n.natAbs) none none = .int n := by
    rw [numberValue, if_pos ⟨rfl, rfl⟩, digits_value_decimal]
    by_cases h : n < 0
    · rw [if_pos (by simpa using h)]
      congr 1
      omega
    · rw [if_neg (by simpa using h)]
      congr 1
      omega
  have htext : NumberParts.text ⟨n < 0, PyStr.decimal n.natAbs, none, none⟩ = intText n := by
    unfold NumberParts.text intText
    by_cases h : n < 0 <;> simp [h, NumberParts.fractionText, NumberParts.exponentText]
  rw [htext] at hread
  exact hvalue ▸ hread

/-! ## Doubles -/

/-- What digits stand for that more digits follow. -/
theorem digits_value_append (digits more : PyStr) :
    digitsValue (digits ++ more) = digitsValue digits * 10 ^ more.length + digitsValue more := by
  induction more using List.reverseRecOn with
  | nil => simp [digitsValue, ofDigits]
  | append_singleton more c ih =>
      have hlast : ∀ text : PyStr, digitsValue (text ++ [c]) =
          10 * digitsValue text + (c.val - 48) := by
        intro text
        simp [digitsValue, ofDigits]
      rw [← List.append_assoc, hlast, ih, hlast, List.length_append, List.length_singleton,
        Nat.pow_succ]
      ring

/-- Zeros stand for nothing. -/
@[simp] theorem digits_value_zeros (count : Nat) :
    digitsValue (List.replicate count (pyChar '0')) = 0 := by
  induction count with
  | zero => rfl
  | succ count ih =>
      rw [List.replicate_succ', digits_value_append, ih]
      rfl

theorem digit_of_zeros (count : Nat) :
    ∀ c ∈ List.replicate count (pyChar '0'), isDigit c = true := by
  intro c hc
  rw [(List.mem_replicate.mp hc).2]
  rfl

/-- Two numbers of one value and one exponent are one. -/
theorem scaled_congr {n m : Nat} {k l : Int} (hn : n = m) (hk : k = l) :
    (n : ℚ) * 10 ^ k = m * 10 ^ l := by
  rw [hn, hk]

/-- Digits with a point are read as what they stand for. -/
theorem reads_pointed (negative : Bool) {n : Nat} (hn : n ≠ 0) (decpt : Int) :
    Reads scanNumber Apart
      ((if negative then [pyChar '-'] else []) ++ pointed (PyStr.decimal n) decpt)
      (.float (PyFloat.ofRat (signed negative (n * 10 ^ (decpt - (PyStr.decimal n).length))))) := by
  have hdigits := digits_decimal n
  have hzeroDigit : digitsValue [pyChar '0'] = 0 := rfl
  by_cases hzero : decpt ≤ 0
  · -- All digits stand after the point.
    let zeros := List.replicate (-decpt).toNat (pyChar '0')
    refine NumberParts.reads_number_float
      (n := ⟨negative, [pyChar '0'], some (zeros ++ PyStr.decimal n), none⟩)
      ⟨.inl rfl, ?_, fun _ h ↦ (by cases h)⟩ (.inl rfl) ?_ (scaled_congr ?_ ?_)
    · rintro _ ⟨⟩
      exact ⟨List.append_ne_nil_of_right_ne_nil _ hdigits.ne_nil,
        List.forall_mem_append.mpr ⟨digit_of_zeros _, hdigits.digit⟩⟩
    · rw [pointed, if_pos hzero]
      simp [NumberParts.fractionText, NumberParts.exponentText, zeros]
    · show digitsValue ([pyChar '0'] ++ (zeros ++ PyStr.decimal n)) = n
      rw [digits_value_append, hzeroDigit, digits_value_append, digits_value_zeros]
      simp
    · simp [NumberParts.exponentValue, zeros]
      omega
  by_cases hinside : decpt < (PyStr.decimal n).length
  · -- The point stands among the digits.
    refine NumberParts.reads_number_float
      (n := ⟨negative, (PyStr.decimal n).take decpt.toNat,
        some ((PyStr.decimal n).drop decpt.toNat), none⟩)
      ⟨.inr ⟨⟨?_, ?_⟩, ?_⟩, ?_, fun _ h ↦ (by cases h)⟩ (.inl rfl) ?_ (scaled_congr ?_ ?_)
    · exact fun h ↦ (List.take_eq_nil_iff.mp h).elim (by omega) hdigits.ne_nil
    · exact fun c hc ↦ hdigits.digit c (List.mem_of_mem_take hc)
    · rw [List.head?_take, if_neg (by omega)]
      exact head_decimal hn
    · rintro _ ⟨⟩
      refine ⟨fun h ↦ ?_, fun c hc ↦ hdigits.digit c (List.mem_of_mem_drop hc)⟩
      have := List.drop_eq_nil_iff.mp h
      omega
    · rw [pointed, if_neg hzero, if_pos hinside]
      simp [NumberParts.fractionText, NumberParts.exponentText]
    · simp
    · simp [NumberParts.exponentValue]
      omega
  · -- Zeros stand between the digits and the point.
    let zeros := List.replicate (decpt - (PyStr.decimal n).length).toNat (pyChar '0')
    have hvalue : (n : ℚ) * 10 ^ (decpt - (PyStr.decimal n).length) =
        (n * 10 ^ (zeros.length + 1) : Nat) * 10 ^ (-1 : Int) := by
      have hlength : ((zeros.length : Nat) : Int) = decpt - (PyStr.decimal n).length := by
        simp [zeros]
        omega
      push_cast
      rw [mul_assoc, ← zpow_natCast, ← zpow_add₀ (by norm_num), ← hlength]
      congr 2
      push_cast
      ring
    rw [hvalue]
    refine NumberParts.reads_number_float
      (n := ⟨negative, PyStr.decimal n ++ zeros, some [pyChar '0'], none⟩)
      ⟨.inr ⟨⟨?_, ?_⟩, ?_⟩, ?_, fun _ h ↦ (by cases h)⟩ (.inl rfl) ?_ (scaled_congr ?_ rfl)
    · exact List.append_ne_nil_of_left_ne_nil hdigits.ne_nil _
    · exact List.forall_mem_append.mpr ⟨hdigits.digit, digit_of_zeros _⟩
    · rw [List.head?_append_of_ne_nil _ hdigits.ne_nil]
      exact head_decimal hn
    · rintro _ ⟨⟩
      exact ⟨List.cons_ne_nil _ _, List.forall_mem_singleton.mpr rfl⟩
    · rw [pointed, if_neg hzero, if_neg hinside]
      simp [NumberParts.fractionText, NumberParts.exponentText, zeros]
    · simp [digits_value_append, hzeroDigit, zeros]

/-- Digits with an exponent are read as what they stand for. -/
theorem reads_scientific (negative : Bool) (n : Nat) (decpt : Int) :
    Reads scanNumber Apart
      ((if negative then [pyChar '-'] else []) ++ scientific (PyStr.decimal n) decpt)
      (.float (PyFloat.ofRat (signed negative (n * 10 ^ (decpt - (PyStr.decimal n).length))))) := by
  have hdigits := digits_decimal n
  have hlength : 0 < (PyStr.decimal n).length := List.length_pos_iff.mpr hdigits.ne_nil
  let fraction := if (PyStr.decimal n).length ≤ 1 then none else some ((PyStr.decimal n).drop 1)
  let digits := (if (decpt - 1).natAbs < 10 then [pyChar '0'] else []) ++
    PyStr.decimal (decpt - 1).natAbs
  have hfraction : fraction.getD [] = (PyStr.decimal n).drop 1 := by
    by_cases h : (PyStr.decimal n).length ≤ 1
    · rw [List.drop_eq_nil_iff.mpr h, show fraction = none from if_pos h, Option.getD_none]
    · rw [show fraction = some _ from if_neg h, Option.getD_some]
  have hexponent : digitsValue digits = (decpt - 1).natAbs := by
    by_cases h : (decpt - 1).natAbs < 10
    · rw [show digits = [pyChar '0'] ++ _ from congrArg (· ++ _) (if_pos h), digits_value_append,
        digits_value_decimal, show digitsValue [pyChar '0'] = 0 from rfl, zero_mul, zero_add]
    · rw [show digits = [] ++ _ from congrArg (· ++ _) (if_neg h), List.nil_append,
        digits_value_decimal]
  refine NumberParts.reads_number_float
    (n := ⟨negative, (PyStr.decimal n).take 1, fraction, some (decpt - 1 < 0, digits)⟩)
    ⟨?_, ?_, ?_⟩ (.inr rfl) ?_ (scaled_congr ?_ ?_)
  · -- The first digit is a zero only in the number zero.
    cases hcons : PyStr.decimal n with
    | nil => exact absurd hcons hdigits.ne_nil
    | cons c more =>
        have hc := hdigits.digit c (hcons ▸ List.mem_cons_self)
        by_cases hzero : c = pyChar '0'
        · exact .inl (congrArg (fun c ↦ [c]) hzero)
        · exact .inr ⟨⟨List.cons_ne_nil _ _, List.forall_mem_singleton.mpr hc⟩,
            fun h ↦ hzero (Option.some.inj h)⟩
  · intro more hmore
    have hlong : ¬(PyStr.decimal n).length ≤ 1 := by
      intro h
      rw [show fraction = none from if_pos h] at hmore
      cases hmore
    rw [show fraction = some _ from if_neg hlong] at hmore
    obtain rfl := Option.some.inj hmore
    refine ⟨fun h ↦ hlong (List.drop_eq_nil_iff.mp h), fun c hc ↦ ?_⟩
    exact hdigits.digit c (List.mem_of_mem_drop hc)
  · rintro _ ⟨⟩
    refine ⟨List.append_ne_nil_of_right_ne_nil _ (decimal_ne_nil _),
      List.forall_mem_append.mpr ⟨?_, (digits_decimal _).digit⟩⟩
    split_ifs
    · exact List.forall_mem_singleton.mpr rfl
    · exact fun _ h ↦ (by cases h)
  · unfold scientific exponentText NumberParts.fractionText NumberParts.exponentText
    by_cases h : (PyStr.decimal n).length ≤ 1 <;> simp [fraction, digits, h]
  · show digitsValue ((PyStr.decimal n).take 1 ++ fraction.getD []) = n
    rw [hfraction, List.take_append_drop, digits_value_decimal]
  · show (if decide (decpt - 1 < 0) then -(digitsValue digits : Int) else digitsValue digits) -
      ((fraction.getD []).length : Int) = _
    rw [hexponent, hfraction, List.length_drop]
    by_cases h : decpt - 1 < 0
    · rw [if_pos (by simpa using h)]
      omega
    · rw [if_neg (by simpa using h)]
      omega

theorem signed_zero (negative : Bool) : signed negative 0 = 0 := by
  cases negative
  · rfl
  · exact neg_zero

/-- A double is read back from the text it is shown by. -/
theorem reads_float {value : ℚ} (h : IsDouble value) :
    Reads scanNumber Apart (floatText value) (.float (.finite value)) := by
  have hzeroDouble : PyFloat.ofRat 0 = .finite 0 := of_rat_of_is_double is_double_zero
  unfold floatText
  by_cases hzero : value = 0
  · have hread := NumberParts.reads_number_float
      (n := ⟨false, [pyChar '0'], some [pyChar '0'], none⟩)
      ⟨.inl rfl, by rintro _ ⟨⟩; exact ⟨List.cons_ne_nil _ _, List.forall_mem_singleton.mpr rfl⟩,
        fun _ h ↦ (by cases h)⟩ (.inl rfl) rfl (zero_mul _)
    rw [signed_zero, hzeroDouble] at hread
    rw [if_pos hzero, hzero]
    exact hread
  · have hread := of_rat_shortest h
    have hne : (shortest value).1 ≠ 0 := by
      intro hdigits
      rw [hdigits, Nat.cast_zero, zero_mul, signed_zero, hzeroDouble] at hread
      exact hzero (PyFloat.finite.inj hread).symm
    have hpointed := reads_pointed (value < 0) hne
      ((PyStr.decimal (shortest value).1).length + (shortest value).2)
    have hscientific := reads_scientific (value < 0) (shortest value).1
      ((PyStr.decimal (shortest value).1).length + (shortest value).2)
    rw [add_sub_cancel_left, hread] at hpointed hscientific
    simp only [decide_eq_true_eq] at hpointed hscientific
    rw [if_neg hzero]
    dsimp only
    by_cases hpoint : -4 < ((PyStr.decimal (shortest value).1).length : Int) + (shortest value).2 ∧
        ((PyStr.decimal (shortest value).1).length : Int) + (shortest value).2 ≤ 16
    · rw [if_pos hpoint]
      exact hpointed
    · rw [if_neg hpoint]
      exact hscientific

/-! ## The characters of numbers -/

/-- The characters that numbers are written with. -/
def isNumberChar (c : PyChar) : Bool :=
  (43 ≤ c.val && c.val ≤ 57) || c == pyChar 'e'

theorem number_chars_decimal (n : Nat) : ∀ c ∈ PyStr.decimal n, isNumberChar c := by
  intro c hc
  have hval := val_of_mem_decimal hc
  simp only [isNumberChar, Bool.or_eq_true, Bool.and_eq_true, decide_eq_true_eq]
  exact .inl ⟨by omega, by omega⟩

/-- An integer is written with them. -/
theorem number_chars_int (n : Int) : ∀ c ∈ intText n, isNumberChar c := by
  unfold intText
  split_ifs
  · exact List.forall_mem_cons.mpr ⟨by decide, number_chars_decimal _⟩
  · exact number_chars_decimal _

theorem number_chars_exponent (n : Int) : ∀ c ∈ exponentText n, isNumberChar c := by
  refine List.forall_mem_cons.mpr ⟨by decide, List.forall_mem_cons.mpr ⟨?_, ?_⟩⟩
  · split <;> decide
  · refine List.forall_mem_append.mpr ⟨?_, number_chars_decimal _⟩
    split_ifs
    · exact List.forall_mem_singleton.mpr (by decide)
    · exact fun _ h ↦ absurd h List.not_mem_nil

theorem number_chars_pointed {digits : PyStr} (h : ∀ c ∈ digits, isNumberChar c) (decpt : Int) :
    ∀ c ∈ pointed digits decpt, isNumberChar c := by
  have hzeros : ∀ count, ∀ c ∈ List.replicate count (pyChar '0'), isNumberChar c :=
    fun count c hc ↦ by
      rw [(List.mem_replicate.mp hc).2]
      decide
  have hpoint : isNumberChar (pyChar '.') := by decide
  unfold pointed
  split_ifs
  · exact List.forall_mem_cons.mpr ⟨by decide, List.forall_mem_cons.mpr
      ⟨hpoint, List.forall_mem_append.mpr ⟨hzeros _, h⟩⟩⟩
  · exact List.forall_mem_append.mpr ⟨fun c hc ↦ h c (List.mem_of_mem_take hc),
      List.forall_mem_cons.mpr ⟨hpoint, fun c hc ↦ h c (List.mem_of_mem_drop hc)⟩⟩
  · refine List.forall_mem_append.mpr ⟨List.forall_mem_append.mpr ⟨h, hzeros _⟩, ?_⟩
    exact List.forall_mem_cons.mpr ⟨hpoint, List.forall_mem_singleton.mpr (by decide)⟩

theorem number_chars_scientific {digits : PyStr} (h : ∀ c ∈ digits, isNumberChar c)
    (decpt : Int) : ∀ c ∈ scientific digits decpt, isNumberChar c := by
  refine List.forall_mem_append.mpr ⟨List.forall_mem_append.mpr
    ⟨fun c hc ↦ h c (List.mem_of_mem_take hc), ?_⟩, number_chars_exponent _⟩
  split_ifs
  · exact fun _ h ↦ absurd h List.not_mem_nil
  · exact List.forall_mem_cons.mpr ⟨by decide, fun c hc ↦ h c (List.mem_of_mem_drop hc)⟩

/-- So is a number in floating point. -/
theorem number_chars_float (value : ℚ) : ∀ c ∈ floatText value, isNumberChar c := by
  rw [floatText]
  split
  · exact List.forall_mem_cons.mpr ⟨by decide, List.forall_mem_cons.mpr
      ⟨by decide, List.forall_mem_singleton.mpr (by decide)⟩⟩
  · refine List.forall_mem_append.mpr ⟨?_, ?_⟩
    · split_ifs
      · exact List.forall_mem_singleton.mpr (by decide)
      · exact fun _ h ↦ absurd h List.not_mem_nil
    · split_ifs
      · exact number_chars_pointed (number_chars_decimal _) _
      · exact number_chars_scientific (number_chars_decimal _) _

end Aegis.Server.Json
