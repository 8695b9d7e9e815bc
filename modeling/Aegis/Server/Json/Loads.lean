import Aegis.Lib.Reader
import Aegis.Server.Float

/-!
# Reading JSON

`json.loads` of Python: the scanner of the `json` module, which also takes `NaN` and the
infinities. A string may hold unpaired surrogates, and two halves of a pair are joined where both
are written by their numbers.
-/

namespace Aegis.Server

/-- One character as a code point. -/
def pyChar (c : Char) : PyChar :=
  Fin.ofNat _ c.toNat

namespace Json

/-! ## Strings -/

/-- The character an escape of two characters stands for. -/
def simpleEscape (c : PyChar) : Option PyChar :=
  if c = pyChar '"' then some (pyChar '"')
  else if c = pyChar '\\' then some (pyChar '\\')
  else if c = pyChar '/' then some (pyChar '/')
  else if c = pyChar 'b' then some 0x08
  else if c = pyChar 'f' then some 0x0C
  else if c = pyChar 'n' then some 0x0A
  else if c = pyChar 'r' then some 0x0D
  else if c = pyChar 't' then some 0x09
  else none

/-- A character of a string, and whether it is written by its number. -/
abbrev StringUnit := PyChar × Bool

/-- The characters up to the closing quotation mark. -/
def scanUnits : Reader PyChar (List StringUnit)
  | [] => none
  | c :: rest =>
      if c = pyChar '"' then some ([], rest)
      else if c = pyChar '\\' then
        match rest with
        | [] => none
        | e :: rest =>
            if e = pyChar 'u' then
              match rest with
              | d₁ :: d₂ :: d₃ :: d₄ :: rest =>
                  ([d₁, d₂, d₃, d₄].mapM hexValue).bind fun digits ↦
                    (scanUnits rest).map fun (units, rest) ↦
                      ((Fin.ofNat _ (ofDigits 16 digits), true) :: units, rest)
              | _ => none
            else
              (simpleEscape e).bind fun c ↦
                (scanUnits rest).map fun (units, rest) ↦ ((c, false) :: units, rest)
      else if c.val < 0x20 then none
      else (scanUnits rest).map fun (units, rest) ↦ ((c, false) :: units, rest)

/-- The text of the characters, with the pairs written by their numbers joined. -/
def joinUnits : List StringUnit → PyStr
  | a :: b :: rest =>
      if a.2 ∧ b.2 ∧ 0xD800 ≤ a.1.val ∧ a.1.val < 0xDC00 ∧ 0xDC00 ≤ b.1.val ∧ b.1.val < 0xE000 then
        Fin.ofNat _ (0x10000 + (a.1.val - 0xD800) * 0x400 + (b.1.val - 0xDC00)) :: joinUnits rest
      else a.1 :: joinUnits (b :: rest)
  | [a] => [a.1]
  | [] => []

/-- `scanstring(text, begin, True)`, after the opening quotation mark. -/
def scanString : Reader PyChar PyStr := fun text ↦
  (scanUnits text).map fun (units, rest) ↦ (joinUnits units, rest)

/-! ## Numbers -/

/-- A digit from 0 to 9. -/
def isDigit (c : PyChar) : Bool :=
  48 ≤ c.val && c.val ≤ 57

/-- The number that digits stand for. -/
def digitsValue (digits : PyStr) : Nat :=
  ofDigits 10 (digits.map fun c ↦ c.val - 48)

/-- The digits before the point, of which a zero is the first only where it is the only one. -/
def scanWhole : Reader PyChar PyStr
  | [] => none
  | c :: rest =>
      if c = pyChar '0' then some ([c], rest)
      else if isDigit c then some (c :: rest.takeWhile isDigit, rest.dropWhile isDigit)
      else none

/-- The digits after the point, when there are any. -/
def scanFraction (text : PyStr) : Option PyStr × PyStr :=
  match text with
  | c :: d :: rest =>
      if c = pyChar '.' ∧ isDigit d then
        (some (d :: rest.takeWhile isDigit), rest.dropWhile isDigit)
      else (none, text)
  | _ => (none, text)

/-- A sign, when there is one, and the digits after it. -/
def scanSign (text : PyStr) : Bool × PyStr :=
  match text with
  | c :: rest =>
      if c = pyChar '-' then (true, rest)
      else if c = pyChar '+' then (false, rest)
      else (false, text)
  | [] => (false, [])

/-- The exponent, when there is one. -/
def scanExponent (text : PyStr) : Option Int × PyStr :=
  match text with
  | c :: rest =>
      let digits := (scanSign rest).2.takeWhile isDigit
      if (c = pyChar 'e' ∨ c = pyChar 'E') ∧ digits ≠ [] then
        (some (if (scanSign rest).1 then -digitsValue digits else digitsValue digits),
          (scanSign rest).2.dropWhile isDigit)
      else (none, text)
  | [] => (none, [])

/-- The value of a number: an integer where it has neither a fraction nor an exponent. -/
def numberValue (negative : Bool) (whole : PyStr) (fraction : Option PyStr)
    (exponent : Option Int) : Json :=
  if fraction = none ∧ exponent = none then
    .int (if negative then -digitsValue whole else digitsValue whole)
  else
    .float (PyFloat.ofRat (signed negative (digitsValue (whole ++ fraction.getD []) *
      10 ^ (exponent.getD 0 - (fraction.getD []).length))))

/-- `match_number(text, begin)`. -/
def scanNumber : Reader PyChar Json := fun text ↦
  let negative := text.head? = some (pyChar '-')
  let text := if negative then text.tail else text
  (scanWhole text).map fun (whole, rest) ↦
    let (fraction, rest) := scanFraction rest
    let (exponent, rest) := scanExponent rest
    (numberValue negative whole fraction exponent, rest)

/-! ## Values -/

/-- The white space of JSON. -/
def isSpace (c : PyChar) : Bool :=
  c = pyChar ' ' || c = pyChar '\t' || c = pyChar '\n' || c = pyChar '\r'

/-- The text after the white space. -/
def skipSpace (text : PyStr) : PyStr :=
  text.dropWhile isSpace

/-- The values that have a name. -/
def constants : List (PyStr × Json) :=
  [(py "null", .null), (py "true", .bool true), (py "false", .bool false),
    (py "NaN", .float .nan), (py "Infinity", .float (.infinity false)),
    (py "-Infinity", .float (.infinity true))]

/-- A value by its name. -/
def scanConstant : Reader PyChar Json := fun text ↦
  constants.findSome? fun (name, value) ↦
    if name.isPrefixOf text then some (value, text.drop name.length) else none

/-- A key and its value, which `scan` reads. -/
def scanField (scan : Reader PyChar Json) : Reader PyChar (PyStr × Json)
  | [] => none
  | c :: rest =>
      if c = pyChar '"' then
        (scanString rest).bind fun (key, rest) ↦
          match skipSpace rest with
          | [] => none
          | c :: rest =>
              if c = pyChar ':' then
                (scan (skipSpace rest)).map fun (value, rest) ↦ ((key, value), rest)
              else none
      else none

/-- `d[key] = value`. A key that is there keeps its place. -/
def dictSet (fields : JsonObject) (key : PyStr) (value : Json) : JsonObject :=
  if (fields.map Prod.fst).contains key then
    fields.map fun field ↦ if field.1 = key then (key, value) else field
  else fields ++ [(key, value)]

/-- `dict(pairs)`: the last value of a key is the one that stays. -/
def dictOf (pairs : List (PyStr × Json)) : JsonObject :=
  pairs.foldl (fun fields pair ↦ dictSet fields pair.1 pair.2) []

/-- `scan_once(text, begin)`, with a bound on the depth. -/
def scanOnce : Nat → Reader PyChar Json
  | 0, _ => none
  | _ + 1, [] => none
  | depth + 1, c :: rest =>
      if c = pyChar '"' then (scanString rest).map fun (s, rest) ↦ (.str s, rest)
      else if c = pyChar '\x7b' then
        (Reader.enclosed (scanField (scanOnce depth)) skipSpace (pyChar ',') (pyChar '\x7d')
          rest).map fun (pairs, rest) ↦ (.object (dictOf pairs), rest)
      else if c = pyChar '[' then
        (Reader.enclosed (scanOnce depth) skipSpace (pyChar ',') (pyChar ']')
          rest).map fun (items, rest) ↦ (.list items, rest)
      else (scanConstant (c :: rest)).or (scanNumber (c :: rest))

/-- `json.loads(text)`, or nothing where it raises a `JSONDecodeError`. No value is nested more
deeply than its text is long. -/
def loads (text : PyStr) : Option Json :=
  if text.head? = some 0xFEFF then none
  else
    (scanOnce (text.length + 1) (skipSpace text)).bind fun (value, rest) ↦
      if skipSpace rest = [] then some value else none

end Json

end Aegis.Server
