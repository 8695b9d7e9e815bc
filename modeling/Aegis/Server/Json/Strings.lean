import Aegis.Server.Json.Dumps

/-!
# Strings are read back

The scanner reads the text between two quotation marks character by character, and joins the
halves of a surrogate pair where both are written by their numbers. What `json.dumps` writes of a
string is so read back as the string with its pairs joined.
-/

namespace Aegis.Server.Json

/-! ## Characters of a string -/

/-- The text is scanned as these characters, whatever follows it. -/
def Scans (body : PyStr) (units : List StringUnit) : Prop :=
  ∀ rest, scanUnits (body ++ rest) =
    (scanUnits rest).map fun (more, rest) ↦ (units ++ more, rest)

/-- The text between quotation marks is read as the string. -/
def Spells (body s : PyStr) : Prop :=
  ∀ rest, scanString (body ++ pyChar '"' :: rest) = some (s, rest)

theorem scans_nil : Scans [] [] := by
  intro rest
  cases h : scanUnits rest <;> simp [h]

/-- A text is scanned as its parts are. -/
theorem Scans.append {body more : PyStr} {units next : List StringUnit} (h : Scans body units)
    (hmore : Scans more next) : Scans (body ++ more) (units ++ next) := by
  intro rest
  rw [List.append_assoc, h, hmore, Option.map_map]
  simp [Function.comp_def]

/-- A text made of pieces is scanned piece by piece. -/
theorem scans_flat_map {α : Type*} {items : List α} {body : α → PyStr}
    {units : α → List StringUnit} (h : ∀ item ∈ items, Scans (body item) (units item)) :
    Scans (items.flatMap body) (items.flatMap units) := by
  induction items with
  | nil => exact scans_nil
  | cons item items ih =>
      obtain ⟨hitem, hitems⟩ := List.forall_mem_cons.mp h
      rw [List.flatMap_cons, List.flatMap_cons]
      exact hitem.append (ih hitems)

/-- A character that is none of the special ones stands for itself. -/
theorem scans_plain {c : PyChar} (hquote : c ≠ pyChar '"') (hescape : c ≠ pyChar '\\')
    (hcontrol : 0x20 ≤ c.val) : Scans [c] [(c, false)] := by
  intro rest
  rw [List.singleton_append, scanUnits.eq_def]
  dsimp only
  rw [if_neg hquote, if_neg hescape, if_neg (by omega)]
  rfl

/-- An escape of two characters stands for one. -/
theorem scans_simple {e c : PyChar} (hu : e ≠ pyChar 'u') (h : simpleEscape e = some c) :
    Scans [pyChar '\\', e] [(c, false)] := by
  intro rest
  have hquote : pyChar '\\' ≠ pyChar '"' := by decide
  rw [List.cons_append, List.singleton_append, scanUnits.eq_def]
  dsimp only
  rw [if_neg hquote, if_pos rfl, if_neg hu, h]
  rfl

/-- An escape by a number stands for the character of that number. -/
theorem scans_digits {d₁ d₂ d₃ d₄ : PyChar} {digits : List Nat}
    (h : [d₁, d₂, d₃, d₄].mapM hexValue = some digits) :
    Scans [pyChar '\\', pyChar 'u', d₁, d₂, d₃, d₄] [(Fin.ofNat _ (ofDigits 16 digits), true)] := by
  intro rest
  have hquote : pyChar '\\' ≠ pyChar '"' := by decide
  simp only [List.cons_append, List.nil_append]
  rw [scanUnits.eq_def]
  dsimp only
  rw [if_neg hquote, if_pos rfl, if_pos rfl, h]
  rfl

/-- A hexadecimal digit has its value. -/
theorem hex_value_hex_digit {n : Nat} (h : n < 16) : hexValue (PyStr.hexDigit n) = some n := by
  have hall : ∀ n : Fin 16, hexValue (PyStr.hexDigit n) = some n.val := by decide
  exact hall ⟨n, h⟩

theorem scans_number {n : Nat} (h : n < 0x10000) :
    Scans (numberEscape n) [(Fin.ofNat _ n, true)] := by
  have hdigits : [PyStr.hexDigit (n / 16 / 16 / 16 % 16), PyStr.hexDigit (n / 16 / 16 % 16),
      PyStr.hexDigit (n / 16 % 16), PyStr.hexDigit (n % 16)].mapM hexValue =
        some [n / 16 / 16 / 16 % 16, n / 16 / 16 % 16, n / 16 % 16, n % 16] := by
    have hmod := fun m : Nat ↦ hex_value_hex_digit (Nat.mod_lt m (by decide : 0 < 16))
    simp only [List.mapM_cons, List.mapM_nil, hmod]
    rfl
  have hscans := scans_digits hdigits
  have hvalue : ofDigits 16 [n / 16 / 16 / 16 % 16, n / 16 / 16 % 16, n / 16 % 16, n % 16] = n := by
    simp only [ofDigits, List.foldl_cons, List.foldl_nil]
    omega
  rwa [hvalue] at hscans

/-! ## Pairs -/

/-- The characters end with the closing quotation mark. -/
theorem Scans.spells {body : PyStr} {units : List StringUnit} (h : Scans body units) :
    Spells body (joinUnits units) := by
  intro rest
  have hquote : scanUnits (pyChar '"' :: rest) = some ([], rest) := by
    rw [scanUnits.eq_def]
    exact if_pos rfl
  rw [scanString, h, hquote]
  simp

/-- There is nothing to join where no half of a pair is written by its number. -/
theorem join_units_of_plain {units : List StringUnit}
    (h : ∀ u ∈ units, u.2 = true → PyStr.isSurrogate u.1 = false) :
    joinUnits units = units.map Prod.fst := by
  induction units using joinUnits.induct with
  | case1 a b rest hpair ih =>
      have ha := h a List.mem_cons_self hpair.1
      simp [PyStr.isSurrogate] at ha
      omega
  | case2 a b rest hpair ih =>
      rw [joinUnits, if_neg hpair, ih (List.forall_mem_cons.mp h).2]
      rfl
  | case3 a => rfl
  | case4 => rfl

/-! ## What `json.dumps` writes -/

/-- What a character is written as: itself or an escape of two characters, or its number, or the
numbers of the two halves it is made of. -/
def unitsOf (c : PyChar) : List StringUnit :=
  if c.val = 0x0A ∨ c.val = 0x0D ∨ c.val = 0x09 ∨ c.val = 0x0C ∨ c.val = 0x08 ∨
      0x20 ≤ c.val ∧ c.val ≤ 0x7E then [(c, false)]
  else if c.val < 0x10000 then [(c, true)]
  else [(Fin.ofNat _ (highSurrogate c.val), true), (Fin.ofNat _ (lowSurrogate c.val), true)]

/-- A character is scanned as what it is written as. -/
theorem scans_escape_ascii (c : PyChar) : Scans (escapeAscii c) (unitsOf c) := by
  unfold escapeAscii
  split_ifs with hquote hescape hnewline hreturn htab hfeed hback hplain hbasic
  · subst hquote
    exact scans_simple (by decide) rfl
  · subst hescape
    exact scans_simple (by decide) rfl
  · obtain rfl : c = 0x0A := Fin.ext hnewline
    exact scans_simple (by decide) rfl
  · obtain rfl : c = 0x0D := Fin.ext hreturn
    exact scans_simple (by decide) rfl
  · obtain rfl : c = 0x09 := Fin.ext htab
    exact scans_simple (by decide) rfl
  · obtain rfl : c = 0x0C := Fin.ext hfeed
    exact scans_simple (by decide) rfl
  · obtain rfl : c = 0x08 := Fin.ext hback
    exact scans_simple (by decide) rfl
  · rw [unitsOf, if_pos (by omega)]
    exact scans_plain hquote hescape hplain.1
  · rw [unitsOf, if_neg (by omega), if_pos hbasic]
    have := scans_number hbasic
    rwa [Fin.ofNat_val_eq_self] at this
  · rw [unitsOf, if_neg (by omega), if_neg hbasic]
    have hc := c.isLt
    exact (scans_number (by unfold highSurrogate; omega)).append
      (scans_number (by unfold lowSurrogate; omega))

/-- A character that is no first half of a pair is not joined to the next one. -/
theorem join_units_cons {u : StringUnit} (h : ¬(0xD800 ≤ u.1.val ∧ u.1.val < 0xDC00))
    (units : List StringUnit) : joinUnits (u :: units) = u.1 :: joinUnits units := by
  cases units with
  | nil => rfl
  | cons next units =>
      exact if_neg fun hpair ↦ h ⟨hpair.2.2.1, hpair.2.2.2.1⟩

/-- Nor is a first half that no second half follows. -/
theorem join_units_cons_of_next {u next : StringUnit}
    (h : ¬(0xDC00 ≤ next.1.val ∧ next.1.val < 0xE000)) (units : List StringUnit) :
    joinUnits (u :: next :: units) = u.1 :: joinUnits (next :: units) :=
  if_neg fun hpair ↦ h ⟨hpair.2.2.2.2.1, hpair.2.2.2.2.2⟩

/-- Two halves written by their numbers are joined. -/
theorem join_units_pair {high low : PyChar} (hhigh : 0xD800 ≤ high.val ∧ high.val < 0xDC00)
    (hlow : 0xDC00 ≤ low.val ∧ low.val < 0xE000) (units : List StringUnit) :
    joinUnits ((high, true) :: (low, true) :: units) =
      Fin.ofNat _ (0x10000 + (high.val - 0xD800) * 0x400 + (low.val - 0xDC00)) ::
        joinUnits units :=
  if_pos ⟨rfl, rfl, hhigh.1, hhigh.2, hlow.1, hlow.2⟩

/-- A character outside the basic plane is written as its two halves. -/
theorem units_of_halves {c : PyChar} (h : 0x10000 ≤ c.val) :
    ∃ high low : PyChar, unitsOf c = [(high, true), (low, true)] ∧
      high.val = highSurrogate c.val ∧ low.val = lowSurrogate c.val := by
  have hc := c.isLt
  refine ⟨Fin.ofNat _ (highSurrogate c.val), Fin.ofNat _ (lowSurrogate c.val), ?_, ?_, ?_⟩
  · rw [unitsOf, if_neg (by omega), if_neg (by omega)]
  · exact Nat.mod_eq_of_lt (by unfold highSurrogate; omega)
  · exact Nat.mod_eq_of_lt (by unfold lowSurrogate; omega)

/-- It is joined again. -/
theorem join_units_of_halves {c : PyChar} (h : 0x10000 ≤ c.val) (units : List StringUnit) :
    joinUnits (unitsOf c ++ units) = c :: joinUnits units := by
  have hc := c.isLt
  obtain ⟨high, low, hunits, hhigh, hlow⟩ := units_of_halves h
  unfold highSurrogate at hhigh
  unfold lowSurrogate at hlow
  rw [hunits, List.cons_append, List.cons_append, List.nil_append,
    join_units_pair (by omega) (by omega)]
  refine congrArg (· :: joinUnits units) (Fin.ext ?_)
  show (0x10000 + (high.val - 0xD800) * 0x400 + (low.val - 0xDC00)) % 0x110000 = c.val
  omega

/-- A character of the basic plane is written as one. -/
theorem units_of_basic {c : PyChar} (h : c.val < 0x10000) :
    ∃ escaped, unitsOf c = [(c, escaped)] ∧ (PyStr.isSurrogate c = true → escaped = true) := by
  unfold unitsOf
  split_ifs with hplain
  · refine ⟨false, rfl, fun hsurrogate ↦ ?_⟩
    simp [PyStr.isSurrogate] at hsurrogate
    omega
  · exact ⟨true, rfl, fun _ ↦ rfl⟩

/-- A string is read back with its pairs joined. -/
theorem join_units_of (s : PyStr) : joinUnits (s.flatMap unitsOf) = joinSurrogates s := by
  induction s using joinSurrogates.induct with
  | case1 a b rest hpair ih =>
      obtain ⟨_, ha, hescaped⟩ := units_of_basic (show a.val < 0x10000 by omega)
      obtain ⟨_, hb, hescaped'⟩ := units_of_basic (show b.val < 0x10000 by omega)
      rw [hescaped (by simp [PyStr.isSurrogate]; omega)] at ha
      rw [hescaped' (by simp [PyStr.isSurrogate]; omega)] at hb
      rw [List.flatMap_cons, List.flatMap_cons, ha, hb, List.singleton_append,
        List.singleton_append, join_units_pair ⟨hpair.1, hpair.2.1⟩ hpair.2.2, ih, joinSurrogates,
        if_pos hpair]
  | case2 a b rest hpair ih =>
      rw [joinSurrogates, if_neg hpair, ← ih, List.flatMap_cons]
      by_cases ha : a.val < 0x10000
      · obtain ⟨_, hunits, -⟩ := units_of_basic ha
        rw [hunits, List.singleton_append]
        by_cases hhigh : 0xD800 ≤ a.val ∧ a.val < 0xDC00
        · -- The next character is no second half, nor is it written with one in front.
          obtain ⟨next, more, hnext, hlow⟩ : ∃ next more, unitsOf b = next :: more ∧
              ¬(0xDC00 ≤ next.1.val ∧ next.1.val < 0xE000) := by
            by_cases hb : b.val < 0x10000
            · obtain ⟨_, hunits', -⟩ := units_of_basic hb
              exact ⟨_, _, hunits', fun hlow ↦ hpair ⟨hhigh.1, hhigh.2, hlow.1, hlow.2⟩⟩
            · obtain ⟨high, low, hunits', hhigh', -⟩ := units_of_halves (not_lt.mp hb)
              have hb := b.isLt
              unfold highSurrogate at hhigh'
              refine ⟨_, _, hunits', fun hlow ↦ ?_⟩
              change 0xDC00 ≤ high.val ∧ high.val < 0xE000 at hlow
              omega
          rw [List.flatMap_cons, hnext, List.cons_append, join_units_cons_of_next hlow]
        · rw [join_units_cons hhigh]
      · rw [join_units_of_halves (not_lt.mp ha)]
  | case3 s hs =>
      cases s with
      | nil => rfl
      | cons a rest =>
          cases rest with
          | nil =>
              rw [List.flatMap_cons, List.flatMap_nil]
              by_cases ha : a.val < 0x10000
              · obtain ⟨_, hunits, -⟩ := units_of_basic ha
                rw [hunits]
                rfl
              · rw [join_units_of_halves (not_lt.mp ha)]
                rfl
          | cons b rest => exact absurd rfl (hs a b rest)

/-- What `json.dumps` writes of a string is read back as the string with its pairs joined. -/
theorem spells_string_body (s : PyStr) : Spells (stringBody s) (joinSurrogates s) := by
  have hscans : Scans (stringBody s) (s.flatMap unitsOf) :=
    scans_flat_map fun c _ ↦ scans_escape_ascii c
  exact join_units_of s ▸ hscans.spells

end Aegis.Server.Json
