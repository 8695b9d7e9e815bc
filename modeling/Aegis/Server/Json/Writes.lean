import Aegis.Server.Json.Numbers
import Aegis.Server.Json.Strings

/-!
# Values are read back

A text that is written for a value is read as the value, and a list or an object is when its items
are. `json.loads` so undoes `json.dumps`, but for surrogates: two halves of a pair that stand next
to each other in a string are read back as the character they stand for.
-/

namespace Aegis.Server.Json

variable {ι : Type*}

/-- The scanner reads the value from the text, before whatever may follow a value. -/
def Writes (text : PyStr) (value : Json) : Prop :=
  ∀ depth, text.length ≤ depth → Reads (scanOnce depth) Delimited text value

/-- A value begins with a character that is no white space, that closes nothing, and that is no
byte order mark. -/
theorem Writes.head {text : PyStr} {value : Json} (h : Writes text value) :
    ∃ c more, text = c :: more ∧ isSpace c = false ∧ c ≠ pyChar ']' ∧ c ≠ 0xFEFF := by
  have hread := h text.length le_rfl [] (fun _ hc ↦ by cases hc)
  rw [List.append_nil] at hread
  cases text with
  | nil => cases hread
  | cons c more =>
      refine ⟨c, more, rfl, ?_, ?_, ?_⟩
      · by_contra hspace
        simp only [isSpace, Bool.not_eq_false, Bool.or_eq_true, decide_eq_true_eq] at hspace
        rcases hspace with ((rfl | rfl) | rfl) | rfl <;> cases hread
      · rintro rfl
        cases hread
      · rintro rfl
        cases hread

/-- Nothing is skipped before a value. -/
theorem Writes.skip_space {text : PyStr} {value : Json} (h : Writes text value) (rest : PyStr) :
    skipSpace (text ++ rest) = text ++ rest := by
  obtain ⟨c, more, rfl, hspace, -⟩ := h.head
  exact List.dropWhile_cons_of_neg (by simp [hspace])

/-- What stands behind an item of a list or of an object may follow a value. -/
theorem delimited_of_follows {close : PyChar} (hclose : close = pyChar ']' ∨ close = pyChar '\x7d')
    {rest : PyStr} (h : Reader.Follows (pyChar ',') close rest) : Delimited rest := by
  intro c hc
  rw [Option.mem_def] at hc
  rcases h with h | h <;> obtain rfl := Option.some.inj (hc.symm.trans h)
  · exact .inl rfl
  · exact .inr hclose

/-! ## Strings, names and numbers -/

/-- A string is written between quotation marks. -/
theorem writes_str {body s : PyStr} (h : Spells body s) : Writes (quoted body) (.str s) := by
  intro depth hdepth rest _
  obtain ⟨depth, rfl⟩ : ∃ n, depth = n + 1 := ⟨depth - 1, by simp [quoted] at hdepth; omega⟩
  have htext : quoted body ++ rest = pyChar '"' :: (body ++ pyChar '"' :: rest) := by
    simp [quoted]
  rw [htext, scanOnce, if_pos rfl, h]
  rfl

/-- A digit begins no name, and follows no minus sign in one. -/
theorem scan_constant_of_digit {c : PyChar} (hc : isDigit c = true) (rest : PyStr) :
    scanConstant (c :: rest) = none ∧ scanConstant (pyChar '-' :: c :: rest) = none := by
  have hnames : constants.all (fun p ↦ p.1.head?.any (fun a ↦ !isDigit a) &&
      p.1.tail.head?.any fun b ↦ !isDigit b) = true := by decide
  constructor <;> rw [scanConstant, List.findSome?_eq_none_iff] <;> intro p hp
  · have hfirst := (Bool.and_eq_true_iff.mp (List.all_eq_true.mp hnames p hp)).1
    obtain ⟨name, value⟩ := p
    cases name with
    | nil => cases hfirst
    | cons a more =>
        refine if_neg fun h ↦ ?_
        simp only [List.isPrefixOf, Bool.and_eq_true, beq_iff_eq] at h
        rw [h.1] at hfirst
        simp [hc] at hfirst
  · have hsecond := (Bool.and_eq_true_iff.mp (List.all_eq_true.mp hnames p hp)).2
    obtain ⟨name, value⟩ := p
    cases name with
    | nil => cases hsecond
    | cons a more =>
        cases more with
        | nil => cases hsecond
        | cons b more =>
            refine if_neg fun h ↦ ?_
            simp only [List.isPrefixOf, Bool.and_eq_true, beq_iff_eq] at h
            rw [h.2.1] at hsecond
            simp [hc] at hsecond

/-- The digits before the point begin with one. -/
theorem is_digit_of_scan_whole {c : PyChar} {rest : PyStr} {read : PyStr × PyStr}
    (h : scanWhole (c :: rest) = some read) : isDigit c = true := by
  rw [scanWhole] at h
  split_ifs at h with hzero hdigit
  · rw [hzero]
    rfl
  · exact hdigit

/-- A number is written as the scanner of numbers takes it. -/
theorem writes_number {text : PyStr} {value : Json} (h : Reads scanNumber Apart text value) :
    Writes text value := by
  intro depth hdepth rest hrest
  have hread := h rest hrest.apart
  have hconstant : scanConstant (text ++ rest) = none ∧
      ∀ c ∈ text.head?, c = pyChar '-' ∨ isDigit c = true := by
    have halone := h [] (fun _ hc ↦ by cases hc)
    rw [List.append_nil] at halone
    obtain ⟨read, hwhole, -⟩ := Option.map_eq_some_iff.mp halone
    cases text with
    | nil => cases hwhole
    | cons c more =>
        by_cases hminus : c = pyChar '-'
        · subst hminus
          cases more with
          | nil => cases hwhole
          | cons d more =>
              have hd := is_digit_of_scan_whole hwhole
              exact ⟨(scan_constant_of_digit hd _).2, fun _ hc ↦ .inl (Option.some.inj hc).symm⟩
        · have hhead : (c :: more).head? ≠ some (pyChar '-') :=
            fun h ↦ hminus (Option.some.inj h)
          simp only [hhead, decide_false, if_false] at hwhole
          have hc := is_digit_of_scan_whole hwhole
          exact ⟨(scan_constant_of_digit hc _).1, fun _ h ↦ .inr (Option.some.inj h ▸ hc)⟩
  obtain ⟨hnone, hhead⟩ := hconstant
  cases text with
  | nil =>
      have halone := h [] (fun _ hc ↦ by cases hc)
      cases halone
  | cons c more =>
      obtain ⟨depth, rfl⟩ : ∃ n, depth = n + 1 := ⟨depth - 1, by simp at hdepth; omega⟩
      have hother : c ≠ pyChar '"' ∧ c ≠ pyChar '\x7b' ∧ c ≠ pyChar '[' := by
        rcases hhead c rfl with rfl | hdigit
        · decide
        · refine ⟨?_, ?_, ?_⟩ <;>
          · rintro rfl
            cases hdigit
      rw [List.cons_append] at hread hnone ⊢
      rw [scanOnce, if_neg hother.1, if_neg hother.2.1, if_neg hother.2.2, hnone, Option.none_or,
        hread]

/-- An integer is written as its digits. -/
theorem writes_int (n : Int) : Writes (intText n) (.int n) :=
  writes_number (reads_int n)

/-- A value that has a name is written as the name. -/
theorem writes_constant {text : PyStr} {value : Json} (h : (text, value) ∈ constants) :
    Writes text value := by
  intro depth hdepth rest _
  simp only [constants, List.mem_cons, Prod.mk.injEq, List.not_mem_nil, or_false] at h
  rcases h with ⟨rfl, rfl⟩ | ⟨rfl, rfl⟩ | ⟨rfl, rfl⟩ | ⟨rfl, rfl⟩ | ⟨rfl, rfl⟩ | ⟨rfl, rfl⟩ <;>
  · obtain ⟨depth, rfl⟩ : ∃ n, depth = n + 1 := ⟨depth - 1, by simp [py] at hdepth; omega⟩
    rfl

/-! ## Lists and objects -/

/-- A list is written item by item. -/
theorem writes_list {xs : List ι} {text : ι → PyStr} {value : ι → Json}
    (h : ∀ x ∈ xs, Writes (text x) (value x)) :
    Writes (pyChar '[' :: ([pyChar ','].intercalate (xs.map text) ++ [pyChar ']']))
      (.list (xs.map value)) := by
  intro depth hdepth rest _
  obtain ⟨depth, rfl⟩ : ∃ n, depth = n + 1 := ⟨depth - 1, by simp at hdepth; omega⟩
  have hlength : ∀ x ∈ xs, (text x).length ≤ depth := by
    intro x hx
    have : (text x).length ≤ ([pyChar ','].intercalate (xs.map text)).length :=
      Reader.length_le_of_mem_intercalate _ (List.mem_map_of_mem hx)
    simp only [List.length_cons, List.length_append] at hdepth
    omega
  have hread : Reads (Reader.enclosed (scanOnce depth) skipSpace (pyChar ',') (pyChar ']'))
      (fun _ ↦ True) ([pyChar ','].intercalate (xs.map text) ++ [pyChar ']']) (xs.map value) := by
    refine Reader.reads_enclosed (fun x hx ↦ (h x hx depth (hlength x hx)).mono fun _ ↦
      delimited_of_follows (.inl rfl)) (fun x hx ↦ (h x hx).skip_space) (fun x hx ↦ ?_)
      (fun _ ↦ rfl) (fun _ ↦ rfl) (by decide)
    obtain ⟨c, more, htext, -, hclose, -⟩ := (h x hx).head
    exact ⟨c, more, htext, hclose⟩
  rw [List.cons_append, scanOnce, if_neg (by decide), if_neg (by decide), if_pos rfl,
    hread rest trivial]
  rfl

/-- A field is written as its key and its value. -/
def fieldText (body text : PyStr) : PyStr :=
  quoted body ++ pyChar ':' :: text

/-- A field is read as its key and its value. -/
theorem reads_field {body key text : PyStr} {value : Json} {depth : Nat} (hkey : Spells body key)
    (h : Writes text value) (hdepth : text.length ≤ depth) :
    Reads (scanField (scanOnce depth)) Delimited (fieldText body text) (key, value) := by
  intro rest hrest
  have htext : fieldText body text ++ rest =
      pyChar '"' :: (body ++ pyChar '"' :: (pyChar ':' :: (text ++ rest))) := by
    simp [fieldText, quoted]
  have hcolon : skipSpace (pyChar ':' :: (text ++ rest)) = pyChar ':' :: (text ++ rest) := rfl
  rw [htext, scanField, if_pos rfl, hkey, Option.bind_some]
  dsimp only
  rw [hcolon]
  dsimp only
  rw [if_pos rfl, h.skip_space, h depth hdepth rest hrest]
  rfl

/-- An object is written field by field. -/
theorem writes_object {xs : List ι} {body key text : ι → PyStr} {value : ι → Json}
    (hkey : ∀ x ∈ xs, Spells (body x) (key x)) (h : ∀ x ∈ xs, Writes (text x) (value x)) :
    Writes (pyChar '\x7b' :: ([pyChar ','].intercalate
        (xs.map fun x ↦ fieldText (body x) (text x)) ++ [pyChar '\x7d']))
      (.object (dictOf (xs.map fun x ↦ (key x, value x)))) := by
  intro depth hdepth rest _
  obtain ⟨depth, rfl⟩ : ∃ n, depth = n + 1 := ⟨depth - 1, by simp at hdepth; omega⟩
  have hlength : ∀ x ∈ xs, (text x).length ≤ depth := by
    intro x hx
    have : (fieldText (body x) (text x)).length ≤
        ([pyChar ','].intercalate (xs.map fun x ↦ fieldText (body x) (text x))).length :=
      Reader.length_le_of_mem_intercalate _ (List.mem_map.mpr ⟨x, hx, rfl⟩)
    simp only [fieldText, List.length_cons, List.length_append] at hdepth this
    omega
  have hread : Reads (Reader.enclosed (scanField (scanOnce depth)) skipSpace (pyChar ',')
      (pyChar '\x7d')) (fun _ ↦ True)
      ([pyChar ','].intercalate (xs.map fun x ↦ fieldText (body x) (text x)) ++ [pyChar '\x7d'])
      (xs.map fun x ↦ (key x, value x)) :=
    Reader.reads_enclosed (fun x hx ↦ (reads_field (hkey x hx) (h x hx) (hlength x hx)).mono
      fun _ ↦ delimited_of_follows (.inr rfl)) (fun _ _ _ ↦ rfl)
      (fun _ _ ↦ ⟨_, _, rfl, by decide⟩) (fun _ ↦ rfl) (fun _ ↦ rfl) (by decide)
  rw [List.cons_append, scanOnce, if_neg (by decide), if_pos rfl, hread rest trivial]
  rfl

/-- What is written for a value is read as the value. -/
theorem loads_of_writes {text : PyStr} {value : Json} (h : Writes text value) :
    loads text = some value := by
  obtain ⟨c, more, htext, -, -, hmark⟩ := h.head
  have hskip := h.skip_space []
  have hread := h (text.length + 1) (Nat.le_succ _) [] (fun _ hc ↦ by cases hc)
  rw [List.append_nil] at hskip hread
  have hhead : text.head? ≠ some 0xFEFF := by
    rw [htext]
    exact fun h ↦ hmark (Option.some.inj h)
  rw [loads, if_neg hhead, hskip, hread]
  rfl

end Aegis.Server.Json
