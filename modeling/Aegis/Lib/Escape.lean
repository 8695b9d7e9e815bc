import Mathlib.Algebra.GroupWithZero.Nat
import Mathlib.Data.List.Basic
import Mathlib.Data.Option.Basic

/-!
# Text with escapes

A mark before a character takes away what the character means. Text is read as tokens, each a
character and whether a mark stood before it, and separators are looked for among those that no
mark stood before.
-/

namespace Aegis.Escape

variable {α : Type*} [DecidableEq α]

/-- A character, and whether a mark stood before it. -/
abbrev Token (α : Type*) := Bool × α

/-- The tokens of a text, unless a mark stands at its end. -/
def tokens (mark : α) : List α → Option (List (Token α))
  | [] => some []
  | [c] => if c = mark then none else some [(false, c)]
  | c :: d :: rest =>
      if c = mark then (tokens mark rest).map ((true, d) :: ·)
      else (tokens mark (d :: rest)).map ((false, c) :: ·)

/-- A token as it is written. -/
def written (mark : α) (t : Token α) : List α :=
  if t.1 then [mark, t.2] else [t.2]

/-- What a token may be: a mark has another one before it. -/
def Proper (mark : α) (t : Token α) : Prop :=
  t.1 = false → t.2 ≠ mark

/-- What is written as tokens is read as these tokens. -/
theorem tokens_written {mark : α} {ts : List (Token α)} (h : ∀ t ∈ ts, Proper mark t) :
    tokens mark (ts.flatMap (written mark)) = some ts := by
  induction ts with
  | nil => rfl
  | cons t ts ih =>
      obtain ⟨ht, hts⟩ := List.forall_mem_cons.mp h
      obtain ⟨escaped, c⟩ := t
      rw [List.flatMap_cons]
      cases escaped with
      | true =>
          show tokens mark (mark :: c :: ts.flatMap (written mark)) = _
          rw [tokens, if_pos rfl, ih hts]
          rfl
      | false =>
          have hc : c ≠ mark := ht rfl
          show tokens mark (c :: ts.flatMap (written mark)) = _
          have htail := ih hts
          cases hrest : ts.flatMap (written mark) with
          | nil =>
              rw [hrest] at htail
              rw [tokens, if_neg hc, ← Option.some.inj htail]
          | cons d rest =>
              rw [hrest] at htail
              rw [tokens, if_neg hc, htail]
              rfl

/-- Text is what its tokens are written as. -/
theorem written_tokens {mark : α} {s : List α} {ts : List (Token α)} (h : tokens mark s = some ts) :
    ts.flatMap (written mark) = s := by
  induction s using tokens.induct mark generalizing ts with
  | case1 =>
      rw [← Option.some.inj h]
      rfl
  | case2 => rw [tokens, if_pos rfl] at h; cases h
  | case3 c hc =>
      rw [tokens, if_neg hc] at h
      rw [← Option.some.inj h]
      rfl
  | case4 d rest ih =>
      rw [tokens, if_pos rfl] at h
      obtain ⟨ts, hts, rfl⟩ := Option.map_eq_some_iff.mp h
      rw [List.flatMap_cons, ih hts]
      rfl
  | case5 c d rest hc ih =>
      rw [tokens, if_neg hc] at h
      obtain ⟨ts, hts, rfl⟩ := Option.map_eq_some_iff.mp h
      rw [List.flatMap_cons, ih hts]
      rfl

/-- Text is read as proper tokens. -/
theorem proper_of_tokens {mark : α} {s : List α} {ts : List (Token α)} (h : tokens mark s = some ts)
    {t : Token α} (ht : t ∈ ts) : Proper mark t := by
  induction s using tokens.induct mark generalizing ts with
  | case1 =>
      rw [← Option.some.inj h] at ht
      cases ht
  | case2 => rw [tokens, if_pos rfl] at h; cases h
  | case3 c hc =>
      rw [tokens, if_neg hc] at h
      rw [← Option.some.inj h, List.mem_singleton] at ht
      rw [ht]
      exact fun _ ↦ hc
  | case4 d rest ih =>
      rw [tokens, if_pos rfl] at h
      obtain ⟨ts, hts, rfl⟩ := Option.map_eq_some_iff.mp h
      rcases List.mem_cons.mp ht with rfl | ht
      · exact nofun
      · exact ih hts ht
  | case5 c d rest hc ih =>
      rw [tokens, if_neg hc] at h
      obtain ⟨ts, hts, rfl⟩ := Option.map_eq_some_iff.mp h
      rcases List.mem_cons.mp ht with rfl | ht
      · exact fun _ ↦ hc
      · exact ih hts ht

/-- Text without escapes is its tokens, and has no mark. -/
theorem eq_of_tokens_plain {mark : α} {s : List α} {ts : List (Token α)}
    (h : tokens mark s = some ts) (hplain : ∀ t ∈ ts, t.1 = false) :
    s = ts.map Prod.snd ∧ mark ∉ s := by
  have hs : s = ts.map Prod.snd := by
    rw [← written_tokens h, ← List.flatMap_singleton' (ts.map Prod.snd), List.flatMap_map]
    refine List.flatMap_congr fun t ht ↦ ?_
    rw [written, hplain t ht]
    rfl
  refine ⟨hs, fun hmark ↦ ?_⟩
  rw [hs] at hmark
  obtain ⟨t, ht, hmark⟩ := List.mem_map.mp hmark
  exact proper_of_tokens h ht (hplain t ht) hmark

/-- A text is longer than its tokens by the marks in it. -/
theorem length_eq_of_tokens {mark : α} {s : List α} {ts : List (Token α)}
    (h : tokens mark s = some ts) : s.length = ts.length + ts.countP Prod.fst := by
  rw [← written_tokens h]
  clear h
  induction ts with
  | nil => rfl
  | cons t ts ih =>
      obtain ⟨escaped, c⟩ := t
      rw [List.flatMap_cons, List.length_append, ih]
      cases escaped <;> simp [written] <;> omega

/-! ## Separators -/

/-- The tokens before the first separator that no mark stands before, and those after it. -/
def cut (separator : α) : List (Token α) → Option (List (Token α) × List (Token α))
  | [] => none
  | t :: ts =>
      if t = (false, separator) then some ([], ts)
      else (cut separator ts).map fun parts ↦ (t :: parts.1, parts.2)

/-- The tokens before the last separator that no mark stands before, and those after it. -/
def cutLast (separator : α) (ts : List (Token α)) : Option (List (Token α) × List (Token α)) :=
  (cut separator ts.reverse).map fun parts ↦ (parts.2.reverse, parts.1.reverse)

/-- The first separator is found where none stands before it. -/
theorem cut_append {separator : α} {front : List (Token α)} (h : (false, separator) ∉ front)
    (rest : List (Token α)) :
    cut separator (front ++ (false, separator) :: rest) = some (front, rest) := by
  induction front with
  | nil => exact if_pos rfl
  | cons t front ih =>
      obtain ⟨ht, hfront⟩ := not_or.mp (mt List.mem_cons.mpr h)
      rw [List.cons_append, cut, if_neg (Ne.symm ht), ih hfront]
      rfl

/-- What is cut at a separator is what it was made of. -/
theorem cut_eq_some {separator : α} {ts front rest : List (Token α)}
    (h : cut separator ts = some (front, rest)) :
    ts = front ++ (false, separator) :: rest ∧ (false, separator) ∉ front := by
  induction ts generalizing front with
  | nil => cases h
  | cons t ts ih =>
      rw [cut] at h
      split_ifs at h with ht
      · obtain ⟨rfl, rfl⟩ := Prod.mk.inj (Option.some.inj h)
        exact ⟨congrArg (· :: ts) ht, List.not_mem_nil⟩
      · obtain ⟨⟨front', rest'⟩, hcut, heq⟩ := Option.map_eq_some_iff.mp h
        obtain ⟨rfl, rfl⟩ := Prod.mk.inj heq
        obtain ⟨rfl, hfront⟩ := ih hcut
        exact ⟨rfl, fun h ↦ (List.mem_cons.mp h).elim (Ne.symm ht) hfront⟩

/-- The last separator is found where none stands after it. -/
theorem cut_last_append {separator : α} {rest : List (Token α)} (h : (false, separator) ∉ rest)
    (front : List (Token α)) :
    cutLast separator (front ++ (false, separator) :: rest) = some (front, rest) := by
  have hreverse : (front ++ (false, separator) :: rest).reverse =
      rest.reverse ++ (false, separator) :: front.reverse := by
    simp
  rw [cutLast, hreverse, cut_append (fun hmem ↦ h (List.mem_reverse.mp hmem))]
  simp

theorem cut_last_eq_some {separator : α} {ts front rest : List (Token α)}
    (h : cutLast separator ts = some (front, rest)) :
    ts = front ++ (false, separator) :: rest := by
  obtain ⟨⟨front', rest'⟩, hcut, heq⟩ := Option.map_eq_some_iff.mp h
  obtain ⟨rfl, rfl⟩ := Prod.mk.inj heq
  have hreverse := congrArg List.reverse (cut_eq_some hcut).1
  simpa using hreverse

/-- The pieces between the separators that no mark stands before. -/
def segments (separator : α) : List (Token α) → List (List (Token α))
  | [] => [[]]
  | t :: ts =>
      if t = (false, separator) then [] :: segments separator ts
      else
        match segments separator ts with
        | [] => [[t]]
        | segment :: more => (t :: segment) :: more

theorem segments_ne_nil (separator : α) (ts : List (Token α)) : segments separator ts ≠ [] := by
  cases ts with
  | nil => exact List.cons_ne_nil _ _
  | cons t ts =>
      rw [segments]
      split_ifs
      · exact List.cons_ne_nil _ _
      · split <;> exact List.cons_ne_nil _ _

/-- Tokens without a separator are one piece. -/
theorem segments_of_not_mem {separator : α} {ts : List (Token α)} (h : (false, separator) ∉ ts) :
    segments separator ts = [ts] := by
  induction ts with
  | nil => rfl
  | cons t ts ih =>
      obtain ⟨ht, hts⟩ := not_or.mp (mt List.mem_cons.mpr h)
      rw [segments, if_neg (Ne.symm ht), ih hts]

/-- A separator ends a piece. -/
theorem segments_append {separator : α} {front : List (Token α)} (h : (false, separator) ∉ front)
    (rest : List (Token α)) :
    segments separator (front ++ (false, separator) :: rest) =
      front :: segments separator rest := by
  induction front with
  | nil => exact if_pos rfl
  | cons t front ih =>
      obtain ⟨ht, hfront⟩ := not_or.mp (mt List.mem_cons.mpr h)
      rw [List.cons_append, segments, if_neg (Ne.symm ht), ih hfront]

/-- No piece holds a separator. -/
theorem not_mem_of_mem_segments {separator : α} {ts segment : List (Token α)}
    (h : segment ∈ segments separator ts) : (false, separator) ∉ segment := by
  induction ts generalizing segment with
  | nil =>
      rw [List.mem_singleton.mp h]
      exact List.not_mem_nil
  | cons t ts ih =>
      rw [segments] at h
      split_ifs at h with ht
      · rcases List.mem_cons.mp h with rfl | h
        · exact List.not_mem_nil
        · exact ih h
      · split at h
        · next hnil => exact absurd hnil (segments_ne_nil separator ts)
        · next first more hmore =>
            rcases List.mem_cons.mp h with rfl | h
            · have hfirst := ih (hmore ▸ List.mem_cons_self)
              exact fun h ↦ (List.mem_cons.mp h).elim (Ne.symm ht) hfirst
            · exact ih (hmore ▸ List.mem_cons_of_mem _ h)

/-- The pieces are made of the tokens. -/
theorem mem_of_mem_segments {separator : α} {ts segment : List (Token α)}
    (h : segment ∈ segments separator ts) {t : Token α} (ht : t ∈ segment) : t ∈ ts := by
  induction ts generalizing segment with
  | nil =>
      rw [List.mem_singleton.mp h] at ht
      cases ht
  | cons first ts ih =>
      rw [segments] at h
      split_ifs at h
      · rcases List.mem_cons.mp h with rfl | h
        · cases ht
        · exact List.mem_cons_of_mem _ (ih h ht)
      · split at h
        · next hnil => exact absurd hnil (segments_ne_nil separator ts)
        · next head more hmore =>
            rcases List.mem_cons.mp h with rfl | h
            · rcases List.mem_cons.mp ht with rfl | ht
              · exact List.mem_cons_self
              · exact List.mem_cons_of_mem _ (ih (hmore ▸ List.mem_cons_self) ht)
            · exact List.mem_cons_of_mem _ (ih (hmore ▸ List.mem_cons_of_mem _ h) ht)

/-- The pieces and the separators between them are all there is. -/
theorem length_of_segments (separator : α) (ts : List (Token α)) :
    ((segments separator ts).map fun segment ↦ segment.length + 1).sum = ts.length + 1 := by
  induction ts with
  | nil => rfl
  | cons t ts ih =>
      rw [segments]
      split_ifs
      · simp [ih]
        omega
      · split
        · next hnil => exact absurd hnil (segments_ne_nil separator ts)
        · next first more hmore =>
            rw [hmore] at ih
            simp only [List.map_cons, List.sum_cons, List.length_cons] at ih ⊢
            omega

/-! ## Values -/

/-- The text that tokens stand for, of which `table` tells what an escape means. -/
def unescape (table : α → Option α) (ts : List (Token α)) : Option (List α) :=
  ts.mapM fun t ↦ if t.1 then table t.2 else some t.2

theorem unescape_cons (table : α → Option α) (t : Token α) (ts : List (Token α)) :
    unescape table (t :: ts) = (if t.1 then table t.2 else some t.2).bind fun c ↦
      (unescape table ts).map (c :: ·) := by
  rw [unescape, List.mapM_cons]
  cases (if t.1 then table t.2 else some t.2) with
  | none => rfl
  | some c =>
      show ((unescape table ts).bind fun more ↦ some (c :: more)) = _
      cases unescape table ts <;> rfl

/-- Each character has one token. -/
theorem length_unescape {table : α → Option α} {ts : List (Token α)} {text : List α}
    (h : unescape table ts = some text) : text.length = ts.length := by
  induction ts generalizing text with
  | nil => rw [← Option.some.inj h]; rfl
  | cons t ts ih =>
      rw [unescape_cons] at h
      obtain ⟨c, -, h⟩ := Option.bind_eq_some_iff.mp h
      obtain ⟨more, hmore, rfl⟩ := Option.map_eq_some_iff.mp h
      rw [List.length_cons, List.length_cons, ih hmore]

/-- Tokens without marks stand for their characters. -/
theorem unescape_plain {table : α → Option α} {ts : List (Token α)}
    (h : ∀ t ∈ ts, t.1 = false) : unescape table ts = some (ts.map Prod.snd) := by
  induction ts with
  | nil => rfl
  | cons t ts ih =>
      obtain ⟨ht, hts⟩ := List.forall_mem_cons.mp h
      rw [unescape_cons, ht, ih hts]
      rfl

/-- Characters are read back from the tokens they are written as. -/
theorem unescape_map {table : α → Option α} {token : α → Token α} {text : List α}
    (h : ∀ c ∈ text, (if (token c).1 then table (token c).2 else some (token c).2) = some c) :
    unescape table (text.map token) = some text := by
  induction text with
  | nil => rfl
  | cons c text ih =>
      obtain ⟨hc, htext⟩ := List.forall_mem_cons.mp h
      rw [List.map_cons, unescape_cons, hc, ih htext]
      rfl

end Aegis.Escape
