import Aegis.Server.Json.Loads

/-!
# Writing JSON

`json.dumps` of Python, without spaces between items. Every character beyond ASCII is written by
its number, one outside the basic plane as the two halves of a surrogate pair.
-/

namespace Aegis.Server

namespace Json

/-! ## Strings -/

/-- The escape of a character by its number. -/
def numberEscape (n : Nat) : PyStr :=
  py "\\u" ++ PyStr.hex 4 n

/-- The first half of the pair that stands for a character outside the basic plane. -/
def highSurrogate (n : Nat) : Nat :=
  0xD800 + (n - 0x10000) / 0x400

/-- The second half. -/
def lowSurrogate (n : Nat) : Nat :=
  0xDC00 + (n - 0x10000) % 0x400

/-- One character of a JSON string in ASCII. -/
def escapeAscii (c : PyChar) : PyStr :=
  if c = pyChar '"' then py "\\\""
  else if c = pyChar '\\' then py "\\\\"
  else if c.val = 0x0A then py "\\n"
  else if c.val = 0x0D then py "\\r"
  else if c.val = 0x09 then py "\\t"
  else if c.val = 0x0C then py "\\f"
  else if c.val = 0x08 then py "\\b"
  else if 0x20 ≤ c.val ∧ c.val ≤ 0x7E then [c]
  else if c.val < 0x10000 then numberEscape c.val
  else numberEscape (highSurrogate c.val) ++ numberEscape (lowSurrogate c.val)

/-- What stands between the quotation marks. -/
def stringBody (s : PyStr) : PyStr :=
  s.flatMap escapeAscii

/-- Text between quotation marks. -/
def quoted (body : PyStr) : PyStr :=
  pyChar '"' :: (body ++ [pyChar '"'])

/-! ## Numbers -/

/-- `int.__repr__`. -/
def intText (n : Int) : PyStr :=
  if n < 0 then pyChar '-' :: PyStr.decimal n.natAbs else PyStr.decimal n.natAbs

/-- The exponent of a number, with its sign and at least two digits. -/
def exponentText (n : Int) : PyStr :=
  pyChar 'e' :: (if n < 0 then pyChar '-' else pyChar '+') ::
    ((if n.natAbs < 10 then [pyChar '0'] else []) ++ PyStr.decimal n.natAbs)

/-- Digits with a point after the first `decpt` of them, and zeros where there are none. -/
def pointed (digits : PyStr) (decpt : Int) : PyStr :=
  if decpt ≤ 0 then
    pyChar '0' :: pyChar '.' :: (List.replicate (-decpt).toNat (pyChar '0') ++ digits)
  else if decpt < digits.length then
    digits.take decpt.toNat ++ pyChar '.' :: digits.drop decpt.toNat
  else
    digits ++ List.replicate (decpt - digits.length).toNat (pyChar '0') ++
      [pyChar '.', pyChar '0']

/-- Digits with a point after the first of them, and an exponent. -/
def scientific (digits : PyStr) (decpt : Int) : PyStr :=
  digits.take 1 ++ (if digits.length ≤ 1 then [] else pyChar '.' :: digits.drop 1) ++
    exponentText (decpt - 1)

/-- `float.__repr__` of a finite number. -/
def floatText (value : ℚ) : PyStr :=
  if value = 0 then py "0.0"
  else
    let digits := PyStr.decimal (shortest value).1
    let decpt := digits.length + (shortest value).2
    (if value < 0 then [pyChar '-'] else []) ++
      if -4 < decpt ∧ decpt ≤ 16 then pointed digits decpt else scientific digits decpt

/-- A `float`, by the names JavaScript has for what is no number. -/
def floatstr : PyFloat → PyStr
  | .finite value => floatText value
  | .infinity negative => if negative then py "-Infinity" else py "Infinity"
  | .nan => py "NaN"

/-! ## Values -/

mutual

/-- `json.dumps(value, separators=(",", ":"))`. -/
def dumps : Json → PyStr
  | .null => py "null"
  | .bool value => if value then py "true" else py "false"
  | .int value => intText value
  | .float value => floatstr value
  | .str value => quoted (stringBody value)
  | .list items =>
      pyChar '[' :: ([pyChar ','].intercalate (dumpsItems items) ++ [pyChar ']'])
  | .object fields =>
      pyChar '\x7b' :: ([pyChar ','].intercalate (dumpsFields fields) ++ [pyChar '\x7d'])

/-- The items of a list. -/
def dumpsItems : List Json → List PyStr
  | [] => []
  | item :: items => dumps item :: dumpsItems items

/-- The fields of an object. -/
def dumpsFields : List (PyStr × Json) → List PyStr
  | [] => []
  | (key, value) :: fields =>
      (quoted (stringBody key) ++ pyChar ':' :: dumps value) :: dumpsFields fields

end

/-- A field of an object. -/
def dumpsField (field : PyStr × Json) : PyStr :=
  quoted (stringBody field.1) ++ pyChar ':' :: dumps field.2

/-- A list is written item by item. -/
theorem dumps_list (items : List Json) :
    dumps (.list items) =
      pyChar '[' :: ([pyChar ','].intercalate (items.map dumps) ++ [pyChar ']']) := by
  have hitems : ∀ items : List Json, dumpsItems items = items.map dumps := by
    intro items
    induction items with
    | nil => rfl
    | cons item items ih => rw [dumpsItems, ih, List.map_cons]
  rw [dumps, hitems]

/-- An object is written field by field. -/
theorem dumps_object (fields : JsonObject) :
    dumps (.object fields) =
      pyChar '\x7b' :: ([pyChar ','].intercalate (fields.map dumpsField) ++ [pyChar '\x7d']) := by
  have hfields : ∀ fields : JsonObject, dumpsFields fields = fields.map dumpsField := by
    intro fields
    induction fields with
    | nil => rfl
    | cons field fields ih => rw [dumpsFields, ih, List.map_cons, dumpsField]
  rw [dumps, hfields]

end Json

end Aegis.Server
