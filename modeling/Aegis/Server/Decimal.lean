import Aegis.Server.Builtins

/-!
# Decimal numbers

What `str` writes of an integer that is not negative: digits, from which the integer can be read.
-/

namespace Aegis.Server

/-- The digits of a number, as characters. -/
theorem decimal_eq (n : Nat) :
    PyStr.decimal n = (Nat.toDigits 10 n).map fun c ↦ Fin.ofNat _ c.toNat := by
  show (toString n).toList.map _ = _
  rw [Nat.toString_eq_repr, Nat.toList_repr]

theorem decimal_ne_nil (n : Nat) : PyStr.decimal n ≠ [] := by
  rw [decimal_eq, ne_eq, List.map_eq_nil_iff]
  exact Nat.toDigits_ne_nil

/-- A character of Lean is a code point. -/
theorem val_of_nat_to_nat (c : Char) : (Fin.ofNat 0x110000 c.toNat : PyChar).val = c.toNat := by
  have hvalid : c.toNat < 0xD800 ∨ 0xDFFF < c.toNat ∧ c.toNat < 0x110000 := c.valid
  exact Nat.mod_eq_of_lt (by omega)

/-- They are digits. -/
theorem val_of_mem_decimal {n : Nat} {c : PyChar} (h : c ∈ PyStr.decimal n) :
    48 ≤ c.val ∧ c.val ≤ 57 := by
  rw [decimal_eq] at h
  obtain ⟨d, hd, rfl⟩ := List.mem_map.mp h
  have hdigit := Nat.isDigit_of_mem_toDigits (by decide) (by decide) hd
  rw [Char.isDigit, Bool.and_eq_true, decide_eq_true_eq, decide_eq_true_eq, ge_iff_le,
    UInt32.le_iff_toNat_le, UInt32.le_iff_toNat_le] at hdigit
  rw [val_of_nat_to_nat]
  exact hdigit

/-- The number is read from them. -/
theorem of_digits_decimal (n : Nat) :
    ofDigits 10 ((PyStr.decimal n).map fun c ↦ c.val - 48) = n := by
  have hdigits : (PyStr.decimal n).map (fun c ↦ c.val - 48) =
      (Nat.toDigits 10 n).map fun c ↦ c.toNat - 48 := by
    rw [decimal_eq, List.map_map]
    refine List.map_congr_left fun c _ ↦ ?_
    show (Fin.ofNat 0x110000 c.toNat : PyChar).val - 48 = _
    rw [val_of_nat_to_nat]
  rw [hdigits, ofDigits, List.foldl_map]
  exact Nat.ofDigitChars_ten_toDigits

/-- There is nothing to strip. -/
theorem strip_decimal (n : Nat) : (PyStr.decimal n).strip = PyStr.decimal n := by
  have hspace : ∀ c ∈ PyStr.decimal n, PyStr.isSpace c = false := by
    intro c hc
    have := val_of_mem_decimal hc
    simp only [PyStr.isSpace, Bool.or_eq_false_iff, Bool.and_eq_false_iff, decide_eq_false_iff_not,
      beq_eq_false_iff_ne]
    omega
  show ((PyStr.decimal n).dropWhile PyStr.isSpace).rdropWhile PyStr.isSpace = _
  rw [List.dropWhile_eq_self_iff.mpr fun h ↦ by simpa using hspace _ (List.getElem_mem h),
    List.rdropWhile_eq_self_iff.mpr fun h ↦ by simpa using hspace _ (List.getLast_mem h)]

/-- The plain library reads the number, as Python's does. -/
theorem parse_int_decimal (n : Nat) : plainLibrary.parseInt (PyStr.decimal n) = some (n : Int) := by
  have hvalue : ∀ text : PyStr, (∀ c ∈ text, 48 ≤ c.val ∧ c.val ≤ 57) →
      text.mapM hexValue = some (text.map fun c ↦ c.val - 48) := by
    intro text h
    induction text with
    | nil => rfl
    | cons c text ih =>
        obtain ⟨hc, htext⟩ := List.forall_mem_cons.mp h
        rw [List.mapM_cons, hexValue, if_pos hc, ih htext]
        rfl
  have hdigits := hvalue _ fun c hc ↦ @val_of_mem_decimal n c hc
  have hsmall : ((PyStr.decimal n).map fun c ↦ c.val - 48).all (· < 10) = true := by
    rw [List.all_map, List.all_eq_true]
    intro c hc
    have := val_of_mem_decimal hc
    simp only [Function.comp, decide_eq_true_eq]
    omega
  have hnumber := of_digits_decimal n
  have hsome : (PyStr.decimal n).map (fun c ↦ c.val - 48) ≠ [] :=
    List.map_eq_nil_iff.not.mpr (decimal_ne_nil n)
  unfold plainLibrary
  dsimp only
  rw [hdigits]
  generalize (PyStr.decimal n).map (fun c ↦ c.val - 48) = digits at *
  cases digits with
  | nil => exact absurd rfl hsome
  | cons d digits =>
      show (if (d :: digits).all (· < 10) then some _ else none) = _
      rw [if_pos hsmall, hnumber]

end Aegis.Server
