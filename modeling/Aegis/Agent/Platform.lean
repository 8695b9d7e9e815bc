import Mathlib.Data.List.Infix
import Aegis.Lib.Pattern
import Aegis.Agent.Text

/-!
# The Java platform

What the agent uses of `java.lang` and `java.util.regex`. The regular expressions are those of
`Pattern` without the Unicode flags, so the predefined classes and `\b` know ASCII only. The two
functions that rest on tables or algorithms too large to write down, lower-casing and the digest,
are parameters.
-/

namespace Aegis.Agent

open Pattern

/-! ## Strings -/

/-- `String.contains`. -/
def JString.contains (s part : JString) : Bool :=
  decide (part <:+: s)

/-- `String.startsWith`. -/
def JString.startsWith (s front : JString) : Bool :=
  front.isPrefixOf s

/-- `Character.isWhitespace`. -/
def JChar.isWhitespace (c : JChar) : Bool :=
  (0x09 ≤ c && c ≤ 0x0D) || (0x1C ≤ c && c ≤ 0x20) || c == 0x1680 ||
    (0x2000 ≤ c && c ≤ 0x2006) || (0x2008 ≤ c && c ≤ 0x200A) || c == 0x2028 || c == 0x2029 ||
    c == 0x205F || c == 0x3000

/-- `String.isBlank`. -/
def JString.isBlank (s : JString) : Bool :=
  s.all JChar.isWhitespace

/-- The decimal digits of a nonnegative number. -/
def digitString (n : Nat) : JString :=
  java (String.ofList (Nat.toDigits 10 n))

/-- `Integer.toString` and `Long.toString`. -/
def decimal (n : Int) : JString :=
  if n < 0 then jchar '-' :: digitString n.natAbs else digitString n.natAbs

/-- `Long.toHexString` of a nonnegative number. -/
def toHexString (n : Nat) : JString :=
  java (String.ofList (Nat.toDigits 16 n))

/-- The parts of the platform whose tables and algorithms are not written down here. -/
structure Platform where
  /-- `String.toLowerCase(Locale.ROOT)`. -/
  toLowerCase : JString → JString
  /-- The SHA-256 digest of the UTF-8 bytes, in hexadecimal. -/
  sha256 : JString → JString
  /-- Lower-casing leaves digits and dots where they are and makes no new ones. -/
  infix_lower_iff : ∀ s part : JString, (∀ c ∈ part, c ∈ java "0123456789.") →
    (part <:+: toLowerCase s ↔ part <:+: s)

/-- Lower-casing of an ASCII character. -/
def asciiLower (c : JChar) : JChar :=
  if 0x41 ≤ c ∧ c ≤ 0x5A then c + 0x20 else c

/-- A digit or a dot is the lower case of itself only. -/
theorem ascii_lower_eq_iff {c d : JChar} (hd : d ∈ java "0123456789.") :
    asciiLower c = d ↔ c = d := by
  have hlow : (java "0123456789.").all (· < 0x41) = true := by decide
  have hd : d < 0x41 := by simpa using List.all_eq_true.mp hlow d hd
  unfold asciiLower
  split
  · next h =>
      rw [UInt16.le_iff_toNat_le, UInt16.le_iff_toNat_le] at h
      rw [UInt16.lt_iff_toNat_lt] at hd
      rw [← UInt16.toNat_inj, ← UInt16.toNat_inj, UInt16.toNat_add]
      simp only [UInt16.reduceToNat] at h hd ⊢
      omega
  · rfl

/-- Text of digits and dots is the lower case of itself only. -/
theorem map_ascii_lower_eq_iff {s part : JString} (hpart : ∀ d ∈ part, d ∈ java "0123456789.") :
    s.map asciiLower = part ↔ s = part := by
  induction s generalizing part with
  | nil => simp
  | cons c s ih =>
      cases part with
      | nil => simp
      | cons d part =>
          obtain ⟨hd, hpart⟩ := List.forall_mem_cons.mp hpart
          rw [List.map_cons, List.cons.injEq, List.cons.injEq, ascii_lower_eq_iff hd, ih hpart]

/-- A platform for ASCII text, whose digest is that of the empty text. -/
def asciiPlatform : Platform where
  toLowerCase s := s.map asciiLower
  sha256 _ := java "e3b0c44298fc1c149afbf4c8996fb92427ae41e4649b934ca495991b7852b855"
  infix_lower_iff s part hpart := by
    constructor
    · rintro ⟨front, back, h⟩
      obtain ⟨s₁, s₂, rfl, h₁, rfl⟩ := List.map_eq_append_iff.mp h.symm
      obtain ⟨s₃, s₄, rfl, rfl, h₄⟩ := List.map_eq_append_iff.mp h₁
      rw [(map_ascii_lower_eq_iff hpart).mp h₄]
      exact ⟨s₃, s₂, rfl⟩
    · rintro ⟨front, back, rfl⟩
      refine ⟨front.map asciiLower, back.map asciiLower, ?_⟩
      rw [List.map_append, List.map_append, (map_ascii_lower_eq_iff hpart).mpr rfl]

/-! ## Regular expressions -/

/-- `\d`. -/
def digits : List JChar :=
  java "0123456789"

/-- `\s`. -/
def spaces : List JChar :=
  [0x20, 0x09, 0x0A, 0x0B, 0x0C, 0x0D]

/-- `[A-Za-z]`. -/
def letters : List JChar :=
  java "ABCDEFGHIJKLMNOPQRSTUVWXYZabcdefghijklmnopqrstuvwxyz"

/-- `\w`. -/
def wordChars : List JChar :=
  jchar '_' :: digits ++ letters

/-- The line terminators of one code unit. -/
def lineTerminators : List JChar :=
  [0x0A, 0x0D, 0x85, 0x2028, 0x2029]

/-- The nearest character on one side is a word character. -/
def besideWord (side : List JChar) : Bool :=
  side.head?.any fun c ↦ c ∈ wordChars

/-- `\b`. -/
def wordBoundary : Pattern JChar :=
  .look fun past rest ↦ besideWord past != besideWord rest

/-- Only a line terminator is left, and the place is not inside one. -/
def atFinalTerminator (past rest : List JChar) : Bool :=
  match rest with
  | [] => true
  | [c] => decide (c ∈ lineTerminators) && !(c == 0x0A && past.head? == some 0x0D)
  | [c, d] => c == 0x0D && d == 0x0A
  | _ => false

/-- `$`, which also matches before a final line terminator. -/
def endOfInput : Pattern JChar :=
  .look atFinalTerminator

/-- Both cases of an ASCII letter, or the character alone. -/
def eitherCase (c : JChar) : List JChar :=
  if 0x41 ≤ c ∧ c ≤ 0x5A then [c, c + 0x20]
  else if 0x61 ≤ c ∧ c ≤ 0x7A then [c, c - 0x20]
  else [c]

/-- A constant, letter for letter. -/
def literal (s : JString) : Pattern JChar :=
  all (s.map fun c ↦ oneOf [c])

/-- A constant under `CASE_INSENSITIVE`. -/
def literalIgnoreCase (s : JString) : Pattern JChar :=
  all (s.map fun c ↦ oneOf (eitherCase c))

/-- A constant is matched from where it is read. -/
theorem reaches_literal_iff {s : JString} {c d : Place JChar} :
    Reaches (literal s) c d ↔ c.rest = s ++ d.rest ∧ d.past = s.reverse ++ c.past := by
  induction s generalizing c with
  | nil =>
      constructor
      · intro h
        cases h
        exact ⟨rfl, rfl⟩
      · rintro ⟨hrest, hpast⟩
        have hsame : c = d := by
          cases c
          cases d
          simp_all
        rw [hsame]
        exact .empty d
  | cons a s ih =>
      constructor
      · intro h
        cases h with
        | seq hfirst hsecond =>
            obtain ⟨hrest, hpast⟩ := ih.mp hsecond
            cases hfirst with
            | one haccepts =>
                obtain rfl : _ = a := by simpa using haccepts
                exact ⟨by simpa using hrest, by simpa using hpast⟩
      · obtain ⟨past, rest⟩ := c
        rintro ⟨rfl, hpast⟩
        refine .seq (.one (by simp)) (ih.mpr ⟨rfl, ?_⟩)
        simpa using hpast

/-- A constant occurs in a text that contains it. -/
theorem occurs_literal_iff {part text : JString} :
    Occurs (literal part) text ↔ part <:+: text := by
  constructor
  · rintro ⟨past, rest, rfl, d, hd⟩
    obtain ⟨hrest, -⟩ := reaches_literal_iff.mp hd
    refine ⟨past.reverse, d.rest, ?_⟩
    rw [List.append_assoc, show rest = part ++ d.rest from hrest]
  · rintro ⟨front, back, rfl⟩
    refine ⟨front.reverse, part ++ back, by simp, ⟨part.reverse ++ front.reverse, back⟩, ?_⟩
    exact reaches_literal_iff.mpr ⟨rfl, rfl⟩

end Aegis.Agent
