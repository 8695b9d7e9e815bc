import Mathlib.Data.List.DropRight
import Mathlib.Data.List.TakeWhile
import Mathlib.Data.Rat.Floor
import Aegis.Server.Python

/-!
# Python's built-in functions

What the worker and the API call of Python's library: `str`, `int` and truth of a decoded value,
string methods, UTF-8, digests and UUIDs. `Library` holds what rests on tables that are not worth
repeating: the case of a letter, the digits `int` accepts, the `repr` of a value, SHA-256 and the
syntax of a UUID and of an address.
-/

namespace Aegis.Server

/-- The exceptions the worker can meet, other than its own. -/
inductive PyException where
  | AttributeError
  | TypeError
  | ValueError
  | OverflowError
  | RecursionError
  | UnicodeEncodeError
  | InvalidStateError
  /-- The database refuses a value. -/
  | DataError
  /-- The database is not available. -/
  | OperationalError
  deriving DecidableEq, Repr

/-- A `UUID`. -/
abbrev Uuid := BitVec 128

/-- A `datetime` in UTC, in microseconds since the epoch. -/
abbrev Instant := Int

/-- The lower case of an ASCII letter. -/
def asciiLower (c : PyChar) : PyChar :=
  if 65 ≤ c.val ∧ c.val ≤ 90 then c + 32 else c

/-- The upper case of an ASCII letter. -/
def asciiUpper (c : PyChar) : PyChar :=
  if 97 ≤ c.val ∧ c.val ≤ 122 then c - 32 else c

/-- Python's library, as far as it rests on tables. -/
structure Library where
  /-- `str.lower()`. -/
  lower : PyStr → PyStr
  /-- `str.upper()`. -/
  upper : PyStr → PyStr
  /-- ASCII text has the lower case of its letters. -/
  lower_ascii : ∀ s : PyStr, (∀ c ∈ s, c.val < 128) → lower s = s.map asciiLower
  /-- ASCII text has the upper case of its letters. -/
  upper_ascii : ∀ s : PyStr, (∀ c ∈ s, c.val < 128) → upper s = s.map asciiUpper
  /-- `repr(value)`. -/
  repr : Json → PyStr
  /-- `int(text)`, or `none` for the `ValueError`. -/
  parseInt : PyStr → Option Int
  /-- `UUID(text)`, or `none` for the `ValueError`. -/
  parseUuid : PyStr → Option Uuid
  /-- The SHA-256 digest. -/
  sha256 : PyBytes → BitVec 256
  /-- Whether the driver takes the text for an address or a network. -/
  isInet : PyStr → Bool

/-! ## Values -/

namespace Json

/-- `bool(value)`. -/
def truthy : Json → Bool
  | .null => false
  | .bool value => value
  | .int value => value != 0
  | .float value => value != .finite 0
  | .str value => !value.isEmpty
  | .list items => !items.isEmpty
  | .object fields => !fields.isEmpty

/-- `str(value)`. -/
def toStr (lib : Library) : Json → PyStr
  | .str value => value
  | value => lib.repr value

/-- `str(value or "")`. -/
def strOr (lib : Library) (value : Json) : PyStr :=
  if value.truthy then value.toStr lib else []

/-- `int(value)`. A fraction is cut off. -/
def toInt (lib : Library) : Json → Except PyException Int
  | .bool value => .ok (if value then 1 else 0)
  | .int value => .ok value
  | .float (.finite value) => .ok (value.num.tdiv value.den)
  | .float (.infinity _) => .error .OverflowError
  | .float .nan => .error .ValueError
  | .str value => (lib.parseInt value).elim (.error .ValueError) .ok
  | .null | .list _ | .object _ => .error .TypeError

/-- `int(value or 0)`. -/
def intOr (lib : Library) (value : Json) : Except PyException Int :=
  if value.truthy then value.toInt lib else .ok 0

/-- An integer is what it is. -/
@[simp] theorem int_or_int (lib : Library) (n : Int) : (Json.int n).intOr lib = .ok n := by
  by_cases h : n = 0 <;> simp [intOr, truthy, toInt, h]

end Json

/-! ## Strings -/

/-- Text as its JSON escapes read: a high surrogate before a low one is one code point. -/
def joinSurrogates : PyStr → PyStr
  | a :: b :: rest =>
      if 0xD800 ≤ a.val ∧ a.val < 0xDC00 ∧ 0xDC00 ≤ b.val ∧ b.val < 0xE000 then
        Fin.ofNat _ (0x10000 + (a.val - 0xD800) * 0x400 + (b.val - 0xDC00)) ::
          joinSurrogates rest
      else a :: joinSurrogates (b :: rest)
  | s => s

namespace PyStr

/-- A code point that is half of a surrogate pair. -/
def isSurrogate (c : PyChar) : Bool :=
  0xD800 ≤ c.val && c.val ≤ 0xDFFF

/-- Text that has a UTF-8 encoding. -/
def Encodable (s : PyStr) : Prop :=
  ∀ c ∈ s, isSurrogate c = false

instance (s : PyStr) : Decidable (Encodable s) :=
  List.decidableBAll _ s

/-- The UTF-8 bytes of a code point. -/
def utf8 (c : PyChar) : PyBytes :=
  let n := c.val
  let continuation (shift : Nat) : UInt8 := (0x80 + n / 2 ^ shift % 0x40).toUInt8
  if n < 0x80 then [n.toUInt8]
  else if n < 0x800 then [(0xC0 + n / 2 ^ 6).toUInt8, continuation 0]
  else if n < 0x10000 then [(0xE0 + n / 2 ^ 12).toUInt8, continuation 6, continuation 0]
  else [(0xF0 + n / 2 ^ 18).toUInt8, continuation 12, continuation 6, continuation 0]

/-- `str.encode()`. -/
def encode (s : PyStr) : Except PyException PyBytes :=
  if Encodable s then .ok (s.flatMap utf8) else .error .UnicodeEncodeError

/-- The words of the text after `word`, the part of a word read so far. -/
def splitFrom (word : PyStr) : PyStr → List PyStr
  | [] => if word.isEmpty then [] else [word]
  | c :: rest =>
      if isSpace c then
        if word.isEmpty then splitFrom [] rest else word :: splitFrom [] rest
      else splitFrom (word ++ [c]) rest

/-- `str.split()`: the words between white space. -/
def split (s : PyStr) : List PyStr :=
  splitFrom [] s

/-- `separator.join(parts)`. -/
def join (separator : PyStr) : List PyStr → PyStr
  | [] => []
  | [part] => part
  | part :: next :: parts => part ++ separator ++ join separator (next :: parts)

/-- `str.removeprefix(prefix)`. -/
def removePrefix (start s : PyStr) : PyStr :=
  if start.isPrefixOf s then s.drop start.length else s

/-- `str.split(separator)[0]` for a separator of one character. -/
def before (separator : PyChar) (s : PyStr) : PyStr :=
  s.takeWhile (· != separator)

/-- `str.rsplit(separator, 1)[-1]` for a separator of one character. -/
def afterLast (separator : PyChar) (s : PyStr) : PyStr :=
  (s.reverse.takeWhile (· != separator)).reverse

/-- A digit of hexadecimal. -/
def hexDigit (n : Nat) : PyChar :=
  if n < 10 then Fin.ofNat _ (48 + n) else Fin.ofNat _ (87 + n)

/-- A number in hexadecimal, `width` digits long. -/
def hex : Nat → Nat → PyStr
  | 0, _ => []
  | width + 1, n => hex width (n / 16) ++ [hexDigit (n % 16)]

/-- A number in decimal. -/
def decimal (n : Nat) : PyStr :=
  py (toString n)

/-- `f"{value:.2f}"` of a number that is not negative. -/
def fixed2 (hundredths : Nat) : PyStr :=
  decimal (hundredths / 100) ++ py "." ++ decimal (hundredths / 10 % 10) ++
    decimal (hundredths % 10)

/-- A digit of hexadecimal is a digit or a letter. -/
theorem val_hex_digit {n : Nat} (h : n < 16) :
    48 ≤ (hexDigit n).val ∧ (hexDigit n).val ≤ 102 := by
  unfold hexDigit
  split <;> simp only [Fin.ofNat] <;> omega

/-- A number in hexadecimal is made of its digits. -/
theorem mem_hex {width n : Nat} {c : PyChar} (h : c ∈ hex width n) :
    ∃ digit < 16, c = hexDigit digit := by
  induction width generalizing n with
  | zero => cases h
  | succ width ih =>
      rcases List.mem_append.mp h with h | h
      · exact ih h
      · exact ⟨n % 16, Nat.mod_lt _ (by decide), List.mem_singleton.mp h⟩

/-- So is every character of a number in hexadecimal. -/
theorem val_of_mem_hex {width n : Nat} {c : PyChar} (h : c ∈ hex width n) :
    48 ≤ c.val ∧ c.val ≤ 102 := by
  obtain ⟨digit, hdigit, rfl⟩ := mem_hex h
  exact val_hex_digit hdigit

theorem length_hex (width n : Nat) : (hex width n).length = width := by
  induction width generalizing n with
  | zero => rfl
  | succ width ih => simp [hex, ih]

/-- Text is encoded when it can be. -/
theorem exists_encode_iff (s : PyStr) : (∃ data, s.encode = .ok data) ↔ Encodable s := by
  unfold encode
  by_cases h : Encodable s <;> simp [h]

/-- ASCII text has an encoding. -/
theorem encodable_of_ascii {s : PyStr} (h : ∀ c ∈ s, c.val < 128) : Encodable s := by
  intro c hc
  have := h c hc
  simp only [isSurrogate, Bool.and_eq_false_iff, decide_eq_false_iff_not]
  omega

/-- The characters of a joined text are those of its parts and of the separator. -/
theorem mem_of_mem_join {separator : PyStr} {parts : List PyStr} {c : PyChar}
    (h : c ∈ join separator parts) : c ∈ separator ∨ ∃ part ∈ parts, c ∈ part := by
  induction parts using join.induct with
  | case1 => cases h
  | case2 part => exact .inr ⟨part, List.mem_singleton_self part, h⟩
  | case3 part next parts ih =>
      rw [join, List.mem_append, List.mem_append] at h
      rcases h with (h | h) | h
      · exact .inr ⟨part, List.mem_cons_self, h⟩
      · exact .inl h
      · obtain h | ⟨other, hother, h⟩ := ih h
        · exact .inl h
        · exact .inr ⟨other, List.mem_cons_of_mem _ hother, h⟩

/-- A joined text has the characters of all of its parts. -/
theorem mem_join_of_mem {separator part : PyStr} {parts : List PyStr} {c : PyChar}
    (hpart : part ∈ parts) (hc : c ∈ part) : c ∈ join separator parts := by
  induction parts using join.induct with
  | case1 => cases hpart
  | case2 only =>
      rw [List.mem_singleton.mp hpart] at hc
      exact hc
  | case3 first next parts ih =>
      rw [join, List.mem_append, List.mem_append]
      rcases List.mem_cons.mp hpart with rfl | hpart
      · exact .inl (.inl hc)
      · exact .inr (ih hpart)

/-- A joined text has an encoding when its parts have. -/
theorem encodable_join_iff {separator : PyStr} (hseparator : Encodable separator)
    (parts : List PyStr) :
    Encodable (join separator parts) ↔ ∀ part ∈ parts, Encodable part := by
  constructor
  · exact fun h part hpart c hc ↦ h c (mem_join_of_mem hpart hc)
  · intro h c hc
    rcases mem_of_mem_join hc with hc | ⟨part, hpart, hc⟩
    · exact hseparator c hc
    · exact h part hpart c hc

/-- Text between white space has no character that is not of the text. -/
theorem mem_of_mem_strip {s : PyStr} {c : PyChar} (h : c ∈ s.strip) : c ∈ s := by
  rw [strip, List.mem_reverse] at h
  have h := (List.dropWhile_sublist _).mem h
  rw [List.mem_reverse] at h
  exact (List.dropWhile_sublist _).mem h

/-- Text is blank when it is white space throughout. -/
theorem strip_eq_nil_iff (s : PyStr) : s.strip = [] ↔ ∀ c ∈ s, isSpace c = true := by
  rw [strip, List.reverse_eq_nil_iff, List.dropWhile_eq_nil_iff]
  constructor
  · intro h c hc
    rw [← List.takeWhile_append_dropWhile (p := isSpace) (l := s), List.mem_append] at hc
    rcases hc with hc | hc
    · exact List.mem_takeWhile_imp hc
    · exact h c (List.mem_reverse.mpr hc)
  · intro h c hc
    exact h c ((List.dropWhile_sublist _).mem (List.mem_reverse.mp hc))

/-- Text that is not blank starts, once stripped, with a character to see. -/
theorem strip_head {s : PyStr} (h : s.strip ≠ []) :
    ∃ c rest, s.strip = c :: rest ∧ isSpace c = false := by
  obtain ⟨c, rest, hcons⟩ := List.exists_cons_of_ne_nil h
  have hleads : s.strip <+: s.dropWhile isSpace := List.rdropWhile_prefix _ _
  rw [hcons] at hleads
  obtain ⟨after, hafter⟩ := hleads
  have hhead := List.head?_dropWhile_not isSpace s
  rw [← hafter] at hhead
  exact ⟨c, rest, hcons, by simpa using hhead⟩

/-- Stripped text has nothing more to strip. -/
@[simp] theorem strip_strip (s : PyStr) : s.strip.strip = s.strip := by
  by_cases h : s.strip = []
  · rw [h]
    rfl
  · obtain ⟨c, rest, hcons, hc⟩ := strip_head h
    have hleft : s.strip.dropWhile isSpace = s.strip := by
      rw [hcons, List.dropWhile_cons_of_neg (by simp [hc])]
    show (s.strip.dropWhile isSpace).rdropWhile isSpace = s.strip
    rw [hleft]
    exact List.rdropWhile_idempotent isSpace (s.dropWhile isSpace)

end PyStr

/-- `str(uuid)`. -/
def Uuid.toStr (id : Uuid) : PyStr :=
  let digits := PyStr.hex 32 id.toNat
  digits.take 8 ++ py "-" ++ (digits.drop 8).take 4 ++ py "-" ++ (digits.drop 12).take 4 ++
    py "-" ++ (digits.drop 16).take 4 ++ py "-" ++ digits.drop 20

/-- A UUID is written in digits and hyphens. -/
theorem Uuid.mem_to_str {id : Uuid} {c : PyChar} (h : c ∈ Uuid.toStr id) :
    c ∈ py "-" ∨ ∃ digit < 16, c = PyStr.hexDigit digit := by
  simp only [Uuid.toStr, List.mem_append] at h
  rcases h with (((((((h | h) | h) | h) | h) | h) | h) | h) | h
  · exact .inr (PyStr.mem_hex (List.mem_of_mem_take h))
  · exact .inl h
  · exact .inr (PyStr.mem_hex (List.mem_of_mem_drop (List.mem_of_mem_take h)))
  · exact .inl h
  · exact .inr (PyStr.mem_hex (List.mem_of_mem_drop (List.mem_of_mem_take h)))
  · exact .inl h
  · exact .inr (PyStr.mem_hex (List.mem_of_mem_drop (List.mem_of_mem_take h)))
  · exact .inl h
  · exact .inr (PyStr.mem_hex (List.mem_of_mem_drop h))

/-- A UUID is written in ASCII. -/
theorem Uuid.val_of_mem_to_str {id : Uuid} {c : PyChar} (h : c ∈ Uuid.toStr id) : c.val < 128 := by
  rcases Uuid.mem_to_str h with h | ⟨digit, hdigit, rfl⟩
  · rw [List.mem_singleton.mp h]
    decide
  · have := PyStr.val_hex_digit hdigit
    omega

/-- `hashlib.sha256(data).hexdigest()`. -/
def Library.hexdigest (lib : Library) (data : PyBytes) : PyStr :=
  PyStr.hex 64 (lib.sha256 data).toNat

theorem length_hexdigest (lib : Library) (data : PyBytes) : (lib.hexdigest data).length = 64 :=
  PyStr.length_hex _ _

/-! ## Numbers -/

/-- `round(value)`: the nearest integer, the even one of two. -/
def roundHalfEven (value : ℚ) : Int :=
  let floor := ⌊value⌋
  let rest := value - floor
  if rest < 1 / 2 then floor
  else if 1 / 2 < rest then floor + 1
  else if floor % 2 = 0 then floor else floor + 1

/-- `round(value, digits)` over exact decimals. -/
def roundTo (digits : Nat) (value : ℚ) : ℚ :=
  roundHalfEven (value * 10 ^ digits) / 10 ^ digits

/-- `int.bit_length()` of a number that is not negative. -/
def bitLength (n : Nat) : Nat :=
  if n = 0 then 0 else n.log2 + 1

/-! ## A library for plain text -/

/-- The value of a hexadecimal digit. -/
def hexValue (c : PyChar) : Option Nat :=
  if 48 ≤ c.val ∧ c.val ≤ 57 then some (c.val - 48)
  else if 97 ≤ c.val ∧ c.val ≤ 102 then some (c.val - 87)
  else if 65 ≤ c.val ∧ c.val ≤ 70 then some (c.val - 55)
  else none

/-- The number the digits stand for in a base. -/
def ofDigits (base : Nat) (digits : List Nat) : Nat :=
  digits.foldl (fun n d ↦ base * n + d) 0

/-- A library that agrees with Python's on strings of ASCII letters and digits. It shows no other
value, and its digest tells nothing apart. -/
def plainLibrary : Library where
  lower s := s.map asciiLower
  upper s := s.map asciiUpper
  lower_ascii _ _ := rfl
  upper_ascii _ _ := rfl
  repr _ := []
  parseInt s :=
    match s.mapM hexValue with
    | some (d :: digits) =>
        if (d :: digits).all (· < 10) then some (ofDigits 10 (d :: digits) : Nat) else none
    | _ => none
  parseUuid s :=
    match (s.filter (· != 45)).mapM hexValue with
    | some digits => if digits.length = 32 then some (BitVec.ofNat _ (ofDigits 16 digits)) else none
    | none => none
  sha256 _ := 0
  isInet s := s.all fun c ↦ (hexValue c).isSome || c == 46 || c == 58

end Aegis.Server
