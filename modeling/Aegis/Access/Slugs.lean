import Aegis.Access.Values
import Aegis.Server.Decimal

/-!
# The slug of an organization

`_allocate_slug` of `application/auth.py`: the slug that is made of a name, with a number behind it
when it is taken. It fails on a name whose slug has a hyphen where it is cut for the number
(`allocate_slug_iff`).
-/

namespace Aegis.Access

open Server

/-! ## The shape of a slug -/

namespace Slug

variable {unicode : Unicode} {s t : PyStr} {word : Bool}

theorem is_hyphenated_cons (word : Bool) (c : PyChar) (s : PyStr) :
    isHyphenated word (c :: s) =
      if c = 45 then word && isHyphenated false s
      else isSlugCharacter c && isHyphenated true s := by
  have hval : (c.val == 45) = true ↔ c = 45 := by
    rw [beq_iff_eq, Fin.ext_iff]
    rfl
  rw [isHyphenated]
  exact if_congr hval rfl rfl

/-- What stands before a hyphen and what stands behind it are each made of words. -/
theorem is_hyphenated_append (word : Bool) (s t : PyStr) :
    isHyphenated word (s ++ 45 :: t) = (isHyphenated word s && isHyphenated false t) := by
  induction s generalizing word with
  | nil => rfl
  | cons c s ih =>
      rw [List.cons_append, is_hyphenated_cons, is_hyphenated_cons]
      split <;> rw [ih, Bool.and_assoc]

/-- The start of a slug is one unless it ends at a hyphen. -/
theorem is_hyphenated_take_iff (h : isHyphenated word s = true) (n : Nat) :
    isHyphenated word (s.take (n + 1)) = true ↔ s[n]? ≠ some 45 := by
  induction s generalizing word n with
  | nil => simpa using h
  | cons c s ih =>
      rw [is_hyphenated_cons] at h
      rw [List.take_succ_cons, is_hyphenated_cons]
      split at h
      · next hc =>
          obtain ⟨hword, hrest⟩ := Bool.and_eq_true_iff.mp h
          cases n with
          | zero => simp [hc, isHyphenated]
          | succ n => simpa [hc, hword] using ih hrest n
      · next hc =>
          obtain ⟨hslug, hrest⟩ := Bool.and_eq_true_iff.mp h
          cases n with
          | zero => simp [hc, hslug, isHyphenated]
          | succ n => simpa [hc, hslug] using ih hrest n

/-- Words are made of the characters of a slug. -/
theorem of_mem_hyphenated (h : isHyphenated word s = true) :
    ∀ c ∈ s, isSlugCharacter c = true ∨ c = 45 := by
  induction s generalizing word with
  | nil => exact List.forall_mem_nil _
  | cons c s ih =>
      rw [is_hyphenated_cons] at h
      split at h
      · next hc => exact List.forall_mem_cons.mpr ⟨.inr hc, ih (Bool.and_eq_true_iff.mp h).2⟩
      · next hc =>
          obtain ⟨hslug, hrest⟩ := Bool.and_eq_true_iff.mp h
          exact List.forall_mem_cons.mpr ⟨.inl hslug, ih hrest⟩

/-- Building a slug of such characters changes nothing about them. -/
theorem make_of_characters (unicode : Unicode) (h : ∀ c ∈ s, isSlugCharacter c = true ∨ c = 45) :
    make unicode s =
      if s.isEmpty || 63 < s.length || !isHyphenated false s || reserved.contains s then
        .error .InvalidSlugError
      else .ok s := by
  have hplain : ∀ c ∈ s, PyStr.isSpace c = false ∧ c.val < 128 ∧ asciiLower c = c := by
    intro c hc
    have hbounds : c.val = 45 ∨ 48 ≤ c.val ∧ c.val ≤ 57 ∨ 97 ≤ c.val ∧ c.val ≤ 122 := by
      rcases h c hc with hslug | rfl
      · right
        simpa [isSlugCharacter] using hslug
      · exact .inl rfl
    refine ⟨?_, by omega, if_neg (by omega)⟩
    simp only [PyStr.isSpace, Bool.or_eq_false_iff, Bool.and_eq_false_iff, decide_eq_false_iff_not,
      beq_eq_false_iff_ne]
    omega
  have hstrip : s.strip = s := by
    show (s.dropWhile PyStr.isSpace).rdropWhile PyStr.isSpace = s
    rw [List.dropWhile_eq_self_iff.mpr fun h ↦ by simpa using (hplain _ (List.getElem_mem h)).1,
      List.rdropWhile_eq_self_iff.mpr fun h ↦ by simpa using (hplain _ (List.getLast_mem h)).1]
  have hlower : unicode.library.lower s = s := by
    rw [unicode.library.lower_ascii s fun c hc ↦ (hplain c hc).2.1]
    exact (List.map_congr_left fun c hc ↦ (hplain c hc).2.2).trans (List.map_id s)
  unfold make
  dsimp only
  rw [hstrip, hlower]

/-- Words make a slug, if they are not too long and not reserved. -/
theorem make_of_hyphenated (unicode : Unicode) (h : isHyphenated false s = true)
    (hlength : s.length ≤ 63) (hfree : reserved.contains s = false) : make unicode s = .ok s := by
  have hne : s.isEmpty = false := by
    cases s with
    | nil => cases h
    | cons c s => rfl
  rw [make_of_characters unicode (of_mem_hyphenated h), h, hne, hfree]
  simp [hlength.not_gt]

/-! ## The slug of a name -/

/-- Text without two hyphens in a row. `gap` says that the last character was one. -/
def isSpaced (gap : Bool) : PyStr → Bool
  | [] => true
  | c :: rest => if c = 45 then !gap && isSpaced true rest else isSlugCharacter c && isSpaced false rest

theorem is_spaced_hyphenate (gap : Bool) (s : PyStr) : isSpaced gap (hyphenate gap s) = true := by
  induction s generalizing gap with
  | nil => rfl
  | cons c s ih =>
      have hhyphen : isSlugCharacter 45 = false := rfl
      rw [hyphenate]
      split
      · next hc =>
          have hne : c ≠ 45 := fun heq ↦ by simp [heq, hhyphen] at hc
          rw [isSpaced, if_neg hne, hc, ih]
          rfl
      · split
        · next hgap => exact hgap ▸ ih true
        · next hgap =>
            rw [isSpaced, if_pos rfl, ih]
            simpa using hgap

theorem is_spaced_of_leading {gap : Bool} (h : isSpaced gap t = true) (hleads : s <+: t) :
    isSpaced gap s = true := by
  induction s generalizing gap t with
  | nil => rfl
  | cons c s ih =>
      obtain ⟨rest, rfl⟩ := hleads
      rw [List.cons_append, isSpaced] at h
      rw [isSpaced]
      split at h
      · next hc =>
          obtain ⟨hgap, hrest⟩ := Bool.and_eq_true_iff.mp h
          rw [if_pos hc, hgap, ih hrest (List.prefix_append _ _)]
          rfl
      · next hc =>
          obtain ⟨hslug, hrest⟩ := Bool.and_eq_true_iff.mp h
          rw [if_neg hc, hslug, ih hrest (List.prefix_append _ _)]
          rfl

/-- Without the hyphens it starts with, text starts with a word. -/
theorem is_spaced_drop {gap : Bool} (h : isSpaced gap s = true) :
    isSpaced true (s.dropWhile (· == 45)) = true := by
  induction s generalizing gap with
  | nil => rfl
  | cons c s ih =>
      rw [isSpaced] at h
      split at h
      · next hc =>
          rw [List.dropWhile_cons_of_pos (by simpa using hc)]
          exact ih (Bool.and_eq_true_iff.mp h).2
      · next hc =>
          rw [List.dropWhile_cons_of_neg (by simpa using hc), isSpaced, if_neg hc]
          exact h

/-- Stripped of hyphens, text without two in a row is made of words. -/
theorem is_spaced_strip {gap : Bool} (h : isSpaced gap s = true) :
    isSpaced true (stripHyphens s) = true ∧ (stripHyphens s).getLast? ≠ some 45 := by
  show isSpaced true ((s.dropWhile (· == 45)).rdropWhile (· == 45)) = true ∧
    ((s.dropWhile (· == 45)).rdropWhile (· == 45)).getLast? ≠ some 45
  refine ⟨is_spaced_of_leading (is_spaced_drop h) (List.rdropWhile_prefix _ _), fun hlast ↦ ?_⟩
  have hne : (s.dropWhile (· == 45)).rdropWhile (· == 45) ≠ [] := fun hnil ↦ by
    rw [hnil] at hlast
    cases hlast
  have hnot := List.rdropWhile_last_not (· == (45 : PyChar)) _ hne
  rw [List.getLast?_eq_some_getLast hne] at hlast
  exact hnot (beq_iff_eq.mpr (Option.some.inj hlast))

/-- Words with single hyphens between them. -/
theorem is_hyphenated_of_spaced (h : isSpaced (!word) s = true)
    (hlast : s.getLast? ≠ some 45) (hne : s = [] → word = true) : isHyphenated word s = true := by
  induction s generalizing word with
  | nil => exact hne rfl
  | cons c s ih =>
      have hrest : s.getLast? ≠ some 45 := by
        cases s with
        | nil => nofun
        | cons d s => exact hlast
      rw [isSpaced] at h
      rw [is_hyphenated_cons]
      split at h
      · next hc =>
          obtain ⟨hword, hspaced⟩ := Bool.and_eq_true_iff.mp h
          have hmore : s ≠ [] := by
            rintro rfl
            exact hlast (by rw [hc]; rfl)
          rw [if_pos hc, @ih false hspaced hrest fun hnil ↦ absurd hnil hmore]
          simpa using hword
      · next hc =>
          obtain ⟨hslug, hspaced⟩ := Bool.and_eq_true_iff.mp h
          rw [if_neg hc, hslug, @ih true hspaced hrest fun _ ↦ rfl]
          rfl

/-- What a name comes to, before it is told from the reserved words. -/
def candidate (unicode : Unicode) (name : PyStr) : PyStr :=
  stripHyphens ((stripHyphens (hyphenate false
    (unicode.library.lower ((unicode.nfkd name).filter fun c ↦ c.val < 128)))).take 63)

/-- It has the shape of a slug, unless there is nothing of it. -/
theorem is_hyphenated_candidate (unicode : Unicode) (name : PyStr)
    (hne : candidate unicode name ≠ []) :
    isHyphenated false (candidate unicode name) = true ∧ (candidate unicode name).length ≤ 63 := by
  have hfirst := (is_spaced_strip (is_spaced_hyphenate false
    (unicode.library.lower ((unicode.nfkd name).filter fun c ↦ c.val < 128)))).1
  obtain ⟨hspaced, hlast⟩ :=
    is_spaced_strip (is_spaced_of_leading hfirst (List.take_prefix 63 _))
  refine ⟨@is_hyphenated_of_spaced _ false hspaced hlast fun hnil ↦ absurd hnil hne, ?_⟩
  have hstripped : ∀ text : PyStr, (stripHyphens text).length ≤ text.length := fun text ↦
    (List.rdropWhile_prefix (· == 45) _).length_le.trans (List.dropWhile_sublist _).length_le
  exact (hstripped _).trans (List.length_take_le 63 _)

/-- A slug that is made of a name is valid, and a name of which none is made has no letter or digit
to make it of. -/
theorem from_name_cases (unicode : Unicode) (name : PyStr) :
    candidate unicode name = [] ∧ fromName unicode name = .error .InvalidSlugError ∨
      ∃ slug, fromName unicode name = .ok slug ∧ isHyphenated false slug = true ∧
        make unicode slug = .ok slug := by
  by_cases hne : candidate unicode name = []
  · refine .inl ⟨hne, ?_⟩
    show (if (candidate unicode name).isEmpty then _ else _) = _
    rw [hne]
    rfl
  obtain ⟨hshape, hlength⟩ := is_hyphenated_candidate unicode name hne
  have hempty : (candidate unicode name).isEmpty = false := by
    rw [List.isEmpty_eq_false_iff]
    exact hne
  have hname : fromName unicode name = make unicode (if reserved.contains (candidate unicode name)
      then candidate unicode name ++ py "-org" else candidate unicode name) := by
    show (if (candidate unicode name).isEmpty then _ else _) = _
    rw [hempty]
    rfl
  refine .inr ?_
  by_cases hreserved : reserved.contains (candidate unicode name) = true
  · -- a reserved word becomes one that is not
    have hrenamed : ∀ slug ∈ reserved, isHyphenated false (slug ++ py "-org") = true ∧
        (slug ++ py "-org").length ≤ 63 ∧ reserved.contains (slug ++ py "-org") = false := by
      decide +kernel
    obtain ⟨hshape, hlength, hfree⟩ := hrenamed _ (List.contains_iff_mem.mp hreserved)
    have hmade := make_of_hyphenated unicode hshape hlength hfree
    rw [if_pos hreserved] at hname
    exact ⟨_, hname.trans hmade, hshape, hmade⟩
  · have hfree : reserved.contains (candidate unicode name) = false := by simpa using hreserved
    have hmade := make_of_hyphenated unicode hshape hlength hfree
    rw [if_neg hreserved] at hname
    exact ⟨_, hname.trans hmade, hshape, hmade⟩

end Slug

/-! ## Allocation -/

/-- The slug with a number behind it. -/
def numbered (base : PyStr) (suffix : Nat) : PyStr :=
  base.take 56 ++ py "-" ++ PyStr.decimal suffix

/-- The error when no number is left. -/
def slugsExhausted : DomainError :=
  .ConflictError (py "Unable to allocate an organization slug; please choose another name.")

/-- The numbers that are tried. -/
def allocateNumbered (unicode : Unicode) (slugExists : PyStr → Bool) (base : PyStr) :
    List Nat → Except DomainError PyStr
  | [] => .error slugsExhausted
  | suffix :: rest => do
      let candidate ← Slug.make unicode (numbered base suffix)
      if !slugExists candidate then .ok candidate
      else allocateNumbered unicode slugExists base rest

/-- `_allocate_slug`, where `slugExists` says which slugs are taken. -/
def allocateSlug (unicode : Unicode) (slugExists : PyStr → Bool) (name : PyStr) :
    Except DomainError PyStr := do
  let base ← Slug.fromName unicode name
  if !slugExists base then .ok base
  else allocateNumbered unicode slugExists base (List.range' 2 98)

variable {unicode : Unicode} {slugExists : PyStr → Bool} {base name : PyStr}

/-- A number behind a slug makes another, unless the slug is cut behind a hyphen. -/
theorem make_numbered (hbase : Slug.isHyphenated false base = true) {suffix : Nat}
    (hsuffix : suffix < 100) :
    Slug.make unicode (numbered base suffix) =
      if base[55]? = some 45 then .error .InvalidSlugError else .ok (numbered base suffix) := by
  have hdecimal : ∀ n < 100, Slug.isHyphenated false (PyStr.decimal n) = true ∧
      (PyStr.decimal n).length ≤ 2 := by
    decide +kernel
  obtain ⟨hdigits, hshort⟩ := hdecimal suffix hsuffix
  have hparts : numbered base suffix = base.take 56 ++ 45 :: PyStr.decimal suffix :=
    List.append_assoc _ _ _
  have hshape : Slug.isHyphenated false (numbered base suffix) =
      Slug.isHyphenated false (base.take 56) := by
    rw [hparts, Slug.is_hyphenated_append, hdigits, Bool.and_true]
  have hcut := Slug.is_hyphenated_take_iff hbase 55
  split
  · next hhyphen =>
      have hbroken : Slug.isHyphenated false (numbered base suffix) = false := by
        rw [hshape, Bool.eq_false_iff]
        exact fun h ↦ hcut.mp h hhyphen
      rw [Slug.make_of_characters unicode, hbroken]
      · simp
      · intro c hc
        rw [hparts] at hc
        rcases List.mem_append.mp hc with hc | hc
        · exact Slug.of_mem_hyphenated hbase c (List.mem_of_mem_take hc)
        rcases List.mem_cons.mp hc with rfl | hc
        · exact .inr rfl
        · exact Slug.of_mem_hyphenated hdigits c hc
  · next hword =>
      refine Slug.make_of_hyphenated unicode (hshape.trans (hcut.mpr hword)) ?_ ?_
      · rw [hparts, List.length_append, List.length_cons]
        have := List.length_take_le 56 base
        omega
      · -- a reserved word has no hyphen
        have hplain : ∀ slug ∈ Slug.reserved, (45 : PyChar) ∉ slug := by decide
        rw [Bool.eq_false_iff]
        intro hreserved
        refine hplain _ (List.contains_iff_mem.mp hreserved) ?_
        rw [hparts]
        exact List.mem_append_right _ List.mem_cons_self

/-- What allocation comes to: a slug that is valid and not taken, or the error that all the slugs it
tries are taken. -/
def Allocated (unicode : Unicode) (slugExists : PyStr → Bool) (base : PyStr)
    (result : Except DomainError PyStr) : Prop :=
  (∃ slug, result = .ok slug ∧ Slug.make unicode slug = .ok slug ∧ slugExists slug = false) ∨
    result = .error slugsExhausted ∧ slugExists base = true ∧
      ∀ suffix ∈ List.range' 2 98, slugExists (numbered base suffix) = true

/-- Trying numbers behind a slug that is not cut behind a hyphen finds one that is free, or none. -/
theorem allocate_numbered_cases (hbase : Slug.isHyphenated false base = true)
    (hword : base[55]? ≠ some 45) {suffixes : List Nat} (hsuffixes : ∀ n ∈ suffixes, n < 100) :
    (∃ slug, allocateNumbered unicode slugExists base suffixes = .ok slug ∧
        Slug.make unicode slug = .ok slug ∧ slugExists slug = false) ∨
      allocateNumbered unicode slugExists base suffixes = .error slugsExhausted ∧
        ∀ suffix ∈ suffixes, slugExists (numbered base suffix) = true := by
  induction suffixes with
  | nil => exact .inr ⟨rfl, List.forall_mem_nil _⟩
  | cons suffix rest ih =>
      obtain ⟨hsuffix, hrest⟩ := List.forall_mem_cons.mp hsuffixes
      have hmake := @make_numbered unicode base hbase suffix hsuffix
      rw [if_neg hword] at hmake
      have hstep : allocateNumbered unicode slugExists base (suffix :: rest) =
          if !slugExists (numbered base suffix) then .ok (numbered base suffix)
          else allocateNumbered unicode slugExists base rest := by
        rw [allocateNumbered, hmake]
        rfl
      rw [hstep]
      cases htaken : slugExists (numbered base suffix) with
      | false => exact .inl ⟨_, rfl, hmake, htaken⟩
      | true =>
          exact (ih hrest).imp_right fun ⟨herror, hall⟩ ↦
            ⟨herror, List.forall_mem_cons.mpr ⟨htaken, hall⟩⟩

/-- From every name of which a slug is made, allocation makes a valid slug that is not taken, or says
that all it tries are taken, just when the slug is free or is not cut behind a hyphen. -/
theorem allocate_slug_iff (unicode : Unicode) (slugExists : PyStr → Bool) {name base : PyStr}
    (hname : Slug.fromName unicode name = .ok base) :
    Slug.make unicode base = .ok base ∧
        Allocated unicode slugExists base (allocateSlug unicode slugExists name) ↔
      slugExists base = false ∨ base[55]? ≠ some 45 := by
  obtain ⟨-, herror⟩ | ⟨slug, hslug, hshape, hmade⟩ := Slug.from_name_cases unicode name
  · rw [herror] at hname
    cases hname
  obtain rfl : slug = base := Except.ok.inj (hslug.symm.trans hname)
  have hallocate : allocateSlug unicode slugExists name =
      if !slugExists slug then .ok slug
      else allocateNumbered unicode slugExists slug (List.range' 2 98) := by
    rw [allocateSlug, hslug]
    rfl
  rw [and_iff_right hmade, hallocate]
  cases htaken : slugExists slug with
  | false => exact iff_of_true (.inl ⟨slug, rfl, hmade, htaken⟩) (.inl rfl)
  | true =>
      have hsuffixes : ∀ n ∈ List.range' 2 98, n < 100 := by decide
      refine ⟨fun hallocated ↦ .inr fun hcut ↦ ?_, fun hword ↦ ?_⟩
      · -- the first number fails, and with it the allocation
        have hfirst := @make_numbered unicode slug hshape 2 (by decide)
        rw [if_pos hcut] at hfirst
        have hfails : allocateNumbered unicode slugExists slug (List.range' 2 98) =
            .error .InvalidSlugError := by
          rw [show List.range' 2 98 = 2 :: List.range' 3 97 from rfl, allocateNumbered, hfirst]
          rfl
        rcases hallocated with ⟨_, hok, -⟩ | ⟨hexhausted, -⟩
        · cases hfails.symm.trans hok
        · cases hfails.symm.trans hexhausted
      · have hword := hword.resolve_left nofun
        exact (allocate_numbered_cases hshape hword hsuffixes).imp_right fun ⟨herror, hall⟩ ↦
          ⟨herror, htaken, hall⟩

/-- Unicode as it is for plain text. -/
def asciiUnicode : Unicode := ⟨plainLibrary, id, id⟩

/-- The slug of a short name that is taken gets a number. -/
theorem allocate_slug_acme :
    Slug.make asciiUnicode (py "acme-corp") = .ok (py "acme-corp") ∧
      Allocated asciiUnicode (· == py "acme-corp") (py "acme-corp")
        (allocateSlug asciiUnicode (· == py "acme-corp") (py "Acme Corp!")) :=
  (allocate_slug_iff asciiUnicode _ (by decide +kernel)).mpr (.inr (by decide))

/-- A name of two words, the first of 55 letters. -/
def longName : PyStr :=
  List.replicate 55 97 ++ py " bakery"

/-- Its slug is valid, but once it is taken no number is put behind it. -/
theorem allocate_slug_fails :
    Slug.fromName asciiUnicode longName = .ok (List.replicate 55 97 ++ py "-bakery") ∧
      allocateSlug asciiUnicode (· == List.replicate 55 97 ++ py "-bakery") longName =
        .error .InvalidSlugError := by
  decide +kernel

end Aegis.Access
