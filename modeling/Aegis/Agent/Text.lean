import Mathlib.Data.List.Basic

/-!
# Java strings

A Java `String` is a sequence of UTF-16 code units, and every offset and length the agent works
with counts code units. `java` writes a constant of the source as such a sequence.
-/

namespace Aegis.Agent

/-- One UTF-16 code unit, a Java `char`. -/
abbrev JChar := UInt16

/-- A Java `String`: its code units, unpaired surrogates allowed. -/
abbrev JString := List JChar

/-- Strings are compared by what they are. -/
instance lawfulJString : LawfulBEq JString :=
  inferInstance

/-- The code units of one character: one unit, or a surrogate pair beyond the basic plane. -/
def codeUnits (c : Char) : JString :=
  if c.toNat < 0x10000 then [c.toNat.toUInt16]
  else
    [(0xD800 + (c.toNat - 0x10000) / 0x400).toUInt16,
      (0xDC00 + (c.toNat - 0x10000) % 0x400).toUInt16]

/-- A string constant of the source. -/
def java (s : String) : JString :=
  s.toList.flatMap codeUnits

/-- The code unit of an ASCII character constant of the source. -/
def jchar (c : Char) : JChar :=
  c.toNat.toUInt16

end Aegis.Agent
