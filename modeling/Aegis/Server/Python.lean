import Mathlib.Data.Rat.Defs
import Mathlib.Data.List.Basic

/-!
# Python values

The values the gateway and the worker compute with: strings of code points, byte strings, and
what `json.loads` returns. A string may hold unpaired surrogates, and an integer has no bound.
-/

namespace Aegis.Server

/-- One code point of a Python string, surrogates included. -/
abbrev PyChar := Fin 0x110000

/-- There are code points. -/
instance neZeroCodePoints : @NeZero Nat Zero.ofOfNat0 0x110000 :=
  ⟨by decide⟩

/-- A Python `str`. -/
abbrev PyStr := List PyChar

/-- Strings are compared by what they are. -/
instance lawfulPyStr : LawfulBEq PyStr :=
  inferInstance

/-- A Python `bytes`. -/
abbrev PyBytes := List UInt8

/-- A string constant of the source. -/
def py (s : String) : PyStr :=
  s.toList.map fun c ↦ Fin.ofNat _ c.toNat

/-- A bytes constant of ASCII characters. -/
def ascii (s : String) : PyBytes :=
  s.toList.map fun c ↦ c.toNat.toUInt8

namespace PyStr

/-- The code points `str.isspace` accepts. -/
def isSpace (c : PyChar) : Bool :=
  (9 ≤ c.val && c.val ≤ 13) || (28 ≤ c.val && c.val ≤ 32) || c.val == 0x85 || c.val == 0xA0 ||
    c.val == 0x1680 || (0x2000 ≤ c.val && c.val ≤ 0x200A) || c.val == 0x2028 ||
    c.val == 0x2029 || c.val == 0x202F || c.val == 0x205F || c.val == 0x3000

/-- `str.strip()`. -/
def strip (s : PyStr) : PyStr :=
  ((s.dropWhile isSpace).reverse.dropWhile isSpace).reverse

end PyStr

namespace PyBytes

/-- The bytes `bytes.strip` removes: ASCII white space. -/
def isSpace (b : UInt8) : Bool :=
  b == 32 || (9 ≤ b && b ≤ 13)

/-- `bytes.strip()`. -/
def strip (b : PyBytes) : PyBytes :=
  ((b.dropWhile isSpace).reverse.dropWhile isSpace).reverse

/-- The lines of the bytes after `line`, the line read so far. -/
def splitlinesFrom (line : PyBytes) : PyBytes → List PyBytes
  | [] => if line.isEmpty then [] else [line]
  | 13 :: 10 :: rest => line :: splitlinesFrom [] rest
  | b :: rest =>
      if b == 10 || b == 13 then line :: splitlinesFrom [] rest
      else splitlinesFrom (line ++ [b]) rest

/-- `bytes.splitlines()`: lines end at a line feed, a carriage return or both. -/
def splitlines (b : PyBytes) : List PyBytes :=
  splitlinesFrom [] b

end PyBytes

/-- A Python `float`: a finite value, an infinity or not a number. -/
inductive PyFloat where
  | finite (value : ℚ)
  | infinity (negative : Bool)
  | nan
  deriving DecidableEq

/-- What `json.loads` returns. `null` is `None`, and the fields of an object are those of the
`dict`, one for each key. -/
inductive Json where
  | null
  | bool (value : Bool)
  | int (value : Int)
  | float (value : PyFloat)
  | str (value : PyStr)
  | list (items : List Json)
  | object (fields : List (PyStr × Json))

/-- A `dict` with string keys. -/
abbrev JsonObject := List (PyStr × Json)

/-- `raw.get(key, default)`. -/
def dictGetD (raw : JsonObject) (key : PyStr) (default : Json) : Json :=
  (raw.lookup key).getD default

/-- `raw.get(key)`: `None` for a key that is absent. -/
def dictGet (raw : JsonObject) (key : PyStr) : Json :=
  dictGetD raw key .null

end Aegis.Server
