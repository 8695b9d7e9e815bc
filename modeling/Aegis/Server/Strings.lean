import Aegis.Server.Json.Strings

/-!
# More of Python's strings

`str.replace` and slices, and the text of a UUID read by `UUID`.
-/

namespace Aegis.Server

namespace PyStr

/-- The text after the next `skip` characters, each occurrence of `old` in it replaced. -/
def replaceFrom (old new : PyStr) : Nat → PyStr → PyStr
  | _, [] => []
  | skip + 1, _ :: rest => replaceFrom old new skip rest
  | 0, c :: rest =>
      if old.isPrefixOf (c :: rest) then new ++ replaceFrom old new (old.length - 1) rest
      else c :: replaceFrom old new 0 rest

/-- `str.replace(old, new)`, of an `old` that is not empty. -/
def replace (s old new : PyStr) : PyStr :=
  replaceFrom old new 0 s

/-- `text[:stop]`, where a negative `stop` counts from the end. -/
def sliceTo (s : PyStr) (stop : Int) : PyStr :=
  s.take (if stop < 0 then (s.length + stop).toNat else stop.toNat)

/-! ## What is replaced -/

/-- One character is replaced wherever it stands. -/
theorem replace_char (s : PyStr) (c : PyChar) (new : PyStr) :
    replace s [c] new = s.flatMap fun d ↦ if d = c then new else [d] := by
  induction s with
  | nil => rfl
  | cons d s ih =>
      rw [List.flatMap_cons, ← ih]
      show (if ([c].isPrefixOf (d :: s)) = true then new ++ replace s [c] new
        else d :: replace s [c] new) = _
      by_cases h : d = c
      · rw [h, if_pos (by simp), if_pos rfl]
      · rw [if_neg (by simpa using fun h' ↦ h h'.symm), if_neg h]
        rfl

/-- Two characters are replaced where they stand together. -/
theorem replace_pair (a b : PyChar) (s new : PyStr) :
    replace (a :: b :: s) [a, b] new = new ++ replace s [a, b] new := by
  show (if ([a, b].isPrefixOf (a :: b :: s)) = true then new ++ replace s [a, b] new else _) = _
  rw [if_pos (by simp)]

/-- They are left where the first stands alone. -/
theorem replace_pair_cons {a b c : PyChar} {s new : PyStr} (h : c = a → s.head? ≠ some b) :
    replace (c :: s) [a, b] new = c :: replace s [a, b] new := by
  show (if ([a, b].isPrefixOf (c :: s)) = true then _ else c :: replace s [a, b] new) = _
  refine if_neg fun hleads ↦ ?_
  cases s with
  | nil => simp at hleads
  | cons d s =>
      simp only [List.isPrefixOf, Bool.and_true, Bool.and_eq_true, beq_iff_eq] at hleads
      exact h hleads.1.symm (by rw [hleads.2]; rfl)

/-- Text that lacks a character of `old` is left as it is. -/
theorem replace_of_not_mem {s old new : PyStr} {c : PyChar} (hold : c ∈ old) (hs : c ∉ s) :
    replace s old new = s := by
  induction s with
  | nil => rfl
  | cons d s ih =>
      show (if old.isPrefixOf (d :: s) = true then _ else d :: replace s old new) = _
      rw [if_neg, ih fun h ↦ hs (List.mem_cons_of_mem _ h)]
      exact fun hleads ↦ hs ((List.isPrefixOf_iff_prefix.mp hleads).subset hold)

/-- `str.strip("{}")`. -/
def stripBraces (s : PyStr) : PyStr :=
  (s.dropWhile fun c ↦ c = 0x7B ∨ c = 0x7D).rdropWhile fun c ↦ c = 0x7B ∨ c = 0x7D

/-- Text without braces has none to strip. -/
theorem strip_braces_of_not_mem {s : PyStr} (h : ∀ c ∈ s, ¬ (c = 0x7B ∨ c = 0x7D)) :
    stripBraces s = s := by
  have hdrop : s.dropWhile (fun c ↦ c = 0x7B ∨ c = 0x7D) = s := by
    cases s with
    | nil => rfl
    | cons c s =>
        exact List.dropWhile_cons_of_neg (by simpa using h c List.mem_cons_self)
  rw [stripBraces, hdrop, List.rdropWhile_eq_self_iff]
  exact fun hne ↦ by simpa using h _ (List.getLast_mem hne)

/-- The digits of a number in hexadecimal are its own. -/
theorem map_hex_value_hex {width n : Nat} (h : n < 16 ^ width) :
    ∃ digits, (hex width n).mapM hexValue = some digits ∧ ofDigits 16 digits = n := by
  induction width generalizing n with
  | zero => exact ⟨[], rfl, (Nat.lt_one_iff.mp h).symm⟩
  | succ width ih =>
      obtain ⟨digits, hdigits, hvalue⟩ := @ih (n / 16) (by omega)
      refine ⟨digits ++ [n % 16], ?_, ?_⟩
      · rw [hex, List.mapM_append, hdigits]
        simp [Json.hex_value_hex_digit (Nat.mod_lt n (show 16 > 0 by decide))]
      · rw [ofDigits, List.foldl_append]
        rw [ofDigits] at hvalue
        rw [hvalue]
        show 16 * (n / 16) + n % 16 = n
        omega

end PyStr

/-- `UUID(text)`, or nothing for the `ValueError`. -/
def Uuid.parse (text : PyStr) : Option Uuid :=
  let hex := ((text.replace (py "urn:") []).replace (py "uuid:") []).stripBraces.filter (· ≠ 45)
  if hex.length = 32 then
    (hex.mapM hexValue).map fun digits ↦ BitVec.ofNat 128 (ofDigits 16 digits)
  else none

/-- The text of a UUID without its hyphens. -/
theorem Uuid.filter_to_str (id : Uuid) :
    (Uuid.toStr id).filter (· ≠ 45) = PyStr.hex 32 id.toNat := by
  have hdigits : ∀ digits : PyStr, (∀ c ∈ digits, c ∈ PyStr.hex 32 id.toNat) →
      digits.filter (· ≠ 45) = digits := by
    intro digits hmem
    refine List.filter_eq_self.mpr fun c hc ↦ ?_
    obtain ⟨digit, hdigit, rfl⟩ := PyStr.mem_hex (hmem c hc)
    have hne : ∀ digit < 16, decide (PyStr.hexDigit digit ≠ 45) = true := by decide
    exact hne digit hdigit
  have hhyphen : (py "-").filter (· ≠ 45) = [] := by decide
  have htake : ∀ n, ((PyStr.hex 32 id.toNat).take n).filter (· ≠ 45) =
      (PyStr.hex 32 id.toNat).take n :=
    fun n ↦ hdigits _ fun c hc ↦ List.mem_of_mem_take hc
  have hslice : ∀ m n, (((PyStr.hex 32 id.toNat).drop m).take n).filter (· ≠ 45) =
      ((PyStr.hex 32 id.toNat).drop m).take n :=
    fun m n ↦ hdigits _ fun c hc ↦ List.mem_of_mem_drop (List.mem_of_mem_take hc)
  have hdrop : ∀ n, ((PyStr.hex 32 id.toNat).drop n).filter (· ≠ 45) =
      (PyStr.hex 32 id.toNat).drop n :=
    fun n ↦ hdigits _ fun c hc ↦ List.mem_of_mem_drop hc
  have hjoin : ∀ (m n : Nat) (s : PyStr), (s.drop m).take n ++ s.drop (m + n) = s.drop m :=
    fun m n s ↦ by rw [← List.drop_drop, List.take_append_drop]
  simp only [Uuid.toStr, List.filter_append, hhyphen, htake, hslice, hdrop, List.nil_append,
    List.append_assoc]
  have h16 := hjoin 16 4 (PyStr.hex 32 id.toNat)
  have h12 := hjoin 12 4 (PyStr.hex 32 id.toNat)
  have h8 := hjoin 8 4 (PyStr.hex 32 id.toNat)
  rw [h16, h12, h8, List.take_append_drop]

/-- A UUID is read back from its text. -/
theorem Uuid.parse_to_str (id : Uuid) : Uuid.parse (Uuid.toStr id) = some id := by
  have hchars : ∀ c ∈ Uuid.toStr id, c ≠ 58 ∧ ¬ (c = 0x7B ∨ c = 0x7D) := by
    intro c hc
    rcases Uuid.mem_to_str hc with hc | ⟨digit, hdigit, rfl⟩
    · rw [List.mem_singleton.mp hc]
      decide
    · have hne : ∀ digit < 16, PyStr.hexDigit digit ≠ 58 ∧
          ¬ (PyStr.hexDigit digit = 0x7B ∨ PyStr.hexDigit digit = 0x7D) := by
        decide
      exact hne digit hdigit
  have hcolon : (58 : PyChar) ∉ Uuid.toStr id := fun h ↦ (hchars 58 h).1 rfl
  obtain ⟨digits, hdigits, hvalue⟩ := @PyStr.map_hex_value_hex 32 id.toNat id.isLt
  rw [Uuid.parse, PyStr.replace_of_not_mem (c := 58) (by decide) hcolon,
    PyStr.replace_of_not_mem (c := 58) (by decide) hcolon,
    PyStr.strip_braces_of_not_mem fun c hc ↦ (hchars c hc).2]
  rw [Uuid.filter_to_str]
  simp only [PyStr.length_hex, if_true, hdigits, Option.map_some, hvalue]
  rw [BitVec.ofNat_toNat, BitVec.setWidth_eq]

end Aegis.Server
