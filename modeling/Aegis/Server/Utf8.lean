import Aegis.Server.Builtins

/-!
# Decoding UTF-8

`bytes.decode("utf-8", errors="replace")` as the decoder does it, one byte after another. A
sequence that cannot go on is replaced as a whole, and the byte that ended it is read afresh. What
was encoded is read back.
-/

namespace Aegis.Server.Utf8

/-- A sequence that has begun: how many bytes it still needs, the range of the next one, and the
value so far. -/
structure Sequence where
  missing : Nat
  low : Nat
  high : Nat
  value : Nat
  deriving DecidableEq, Repr

/-- The sequence that a byte begins, for a byte beyond ASCII. Overlong sequences, surrogates and
what is no code point are excluded by the range of the second byte. -/
def Sequence.begin (b : Nat) : Option Sequence :=
  if 0xC2 ≤ b ∧ b ≤ 0xDF then some ⟨1, 0x80, 0xBF, b % 0x20⟩
  else if b = 0xE0 then some ⟨2, 0xA0, 0xBF, 0⟩
  else if b = 0xED then some ⟨2, 0x80, 0x9F, 0xD⟩
  else if 0xE1 ≤ b ∧ b ≤ 0xEF then some ⟨2, 0x80, 0xBF, b % 0x10⟩
  else if b = 0xF0 then some ⟨3, 0x90, 0xBF, 0⟩
  else if b = 0xF4 then some ⟨3, 0x80, 0x8F, 4⟩
  else if 0xF1 ≤ b ∧ b ≤ 0xF3 then some ⟨3, 0x80, 0xBF, b % 8⟩
  else none

/-- The replacement character. -/
def REPLACEMENT : PyChar := 0xFFFD

/-- What a byte yields between two sequences, and the sequence it begins. -/
def start (b : UInt8) : PyStr × Option Sequence :=
  if b.toNat < 0x80 then ([Fin.ofNat _ b.toNat], none)
  else
    match Sequence.begin b.toNat with
    | some sequence => ([], some sequence)
    | none => ([REPLACEMENT], none)

/-- What a byte yields. -/
def feed (state : Option Sequence) (b : UInt8) : PyStr × Option Sequence :=
  match state with
  | none => start b
  | some sequence =>
      if sequence.low ≤ b.toNat ∧ b.toNat ≤ sequence.high then
        let value := sequence.value * 0x40 + b.toNat % 0x40
        if sequence.missing ≤ 1 then ([Fin.ofNat _ value], none)
        else ([], some ⟨sequence.missing - 1, 0x80, 0xBF, value⟩)
      else (REPLACEMENT :: (start b).1, (start b).2)

/-- What the end yields: the replacement of a sequence that is cut off. -/
def flush : Option Sequence → PyStr
  | none => []
  | some _ => [REPLACEMENT]

/-- The text of the bytes that follow. -/
def decodeFrom (state : Option Sequence) : PyBytes → PyStr
  | [] => flush state
  | b :: rest => (feed state b).1 ++ decodeFrom (feed state b).2 rest

/-- `data.decode("utf-8", errors="replace")`. -/
def decodeReplace (data : PyBytes) : PyStr :=
  decodeFrom none data

/-- A byte of ASCII is a character of its own. -/
theorem feed_of_ascii {b : UInt8} (h : b.toNat < 0x80) :
    feed none b = ([Fin.ofNat _ b.toNat], none) :=
  if_pos h

/-- ASCII is decoded byte by byte. -/
theorem decode_replace_of_ascii {data : PyBytes} (h : ∀ b ∈ data, b.toNat < 0x80) :
    decodeReplace data = data.map fun b ↦ Fin.ofNat _ b.toNat := by
  induction data with
  | nil => rfl
  | cons b rest ih =>
      obtain ⟨hb, hrest⟩ := List.forall_mem_cons.mp h
      show (feed none b).1 ++ decodeFrom (feed none b).2 rest = _
      rw [feed_of_ascii hb]
      exact congrArg (_ :: ·) (ih hrest)

/-! ## Text that was encoded -/

/-- A byte below 256 is what it was made of. -/
theorem to_nat_to_uint8 {n : Nat} (h : n < 256) : n.toUInt8.toNat = n := by
  simp only [Nat.toUInt8_eq, UInt8.toNat_ofNat']
  omega

/-- A byte that begins a sequence yields nothing yet. -/
theorem decode_from_begin {n : Nat} {sequence : Sequence} (hlow : 0x80 ≤ n) (hhigh : n < 256)
    (h : Sequence.begin n = some sequence) (rest : PyBytes) :
    decodeFrom none (n.toUInt8 :: rest) = decodeFrom (some sequence) rest := by
  have hn := to_nat_to_uint8 hhigh
  rw [decodeFrom, feed, start, if_neg (by omega), hn, h]
  rfl

/-- A byte of a sequence that is not the last one yields nothing yet. -/
theorem decode_from_next {low high : Nat} (missing value bits : Nat)
    (hlow : low ≤ 0x80 + bits % 0x40) (hhigh : 0x80 + bits % 0x40 ≤ high) (rest : PyBytes) :
    decodeFrom (some ⟨missing + 2, low, high, value⟩) ((0x80 + bits % 0x40).toUInt8 :: rest) =
      decodeFrom (some ⟨missing + 1, 0x80, 0xBF, value * 0x40 + bits % 0x40⟩) rest := by
  have hn : (0x80 + bits % 0x40).toUInt8.toNat = 0x80 + bits % 0x40 := to_nat_to_uint8 (by omega)
  have hvalue : (0x80 + bits % 0x40) % 0x40 = bits % 0x40 := by omega
  rw [decodeFrom, feed, hn, if_pos ⟨hlow, hhigh⟩, hvalue]
  simp only
  rw [if_neg (by omega)]
  rfl

/-- The last byte of a sequence yields its character. -/
theorem decode_from_last {low high : Nat} (value bits : Nat)
    (hlow : low ≤ 0x80 + bits % 0x40) (hhigh : 0x80 + bits % 0x40 ≤ high) (rest : PyBytes) :
    decodeFrom (some ⟨1, low, high, value⟩) ((0x80 + bits % 0x40).toUInt8 :: rest) =
      Fin.ofNat _ (value * 0x40 + bits % 0x40) :: decodeFrom none rest := by
  have hn : (0x80 + bits % 0x40).toUInt8.toNat = 0x80 + bits % 0x40 := to_nat_to_uint8 (by omega)
  have hvalue : (0x80 + bits % 0x40) % 0x40 = bits % 0x40 := by omega
  rw [decodeFrom, feed, hn, if_pos ⟨hlow, hhigh⟩, hvalue]
  rfl

/-- The first byte of two. -/
theorem begin_two {n : Nat} (hlow : 0x80 ≤ n) (hhigh : n < 0x800) :
    Sequence.begin (0xC0 + n / 2 ^ 6) = some ⟨1, 0x80, 0xBF, n / 2 ^ 6⟩ := by
  rw [Sequence.begin, if_pos (by omega)]
  congr 2
  omega

/-- The first byte of three, with the range of the second one. -/
theorem begin_three {n : Nat} (hlow : 0x800 ≤ n) (hhigh : n < 0x10000)
    (hsurrogate : n < 0xD800 ∨ 0xDFFF < n) :
    ∃ low high, Sequence.begin (0xE0 + n / 2 ^ 12) = some ⟨2, low, high, n / 2 ^ 12⟩ ∧
      low ≤ 0x80 + n / 2 ^ 6 % 0x40 ∧ 0x80 + n / 2 ^ 6 % 0x40 ≤ high := by
  rw [Sequence.begin, if_neg (by omega)]
  by_cases hfirst : n / 2 ^ 12 = 0
  · rw [if_pos (by omega), hfirst]
    exact ⟨_, _, rfl, by omega, by omega⟩
  rw [if_neg (by omega)]
  by_cases hmiddle : n / 2 ^ 12 = 0xD
  · rw [if_pos (by omega), hmiddle]
    exact ⟨_, _, rfl, by omega, by omega⟩
  rw [if_neg (by omega), if_pos (by omega), show (0xE0 + n / 2 ^ 12) % 0x10 = n / 2 ^ 12 by omega]
  exact ⟨_, _, rfl, by omega, by omega⟩

/-- The first byte of four, with the range of the second one. -/
theorem begin_four {n : Nat} (hlow : 0x10000 ≤ n) (hhigh : n < 0x110000) :
    ∃ low high, Sequence.begin (0xF0 + n / 2 ^ 18) = some ⟨3, low, high, n / 2 ^ 18⟩ ∧
      low ≤ 0x80 + n / 2 ^ 12 % 0x40 ∧ 0x80 + n / 2 ^ 12 % 0x40 ≤ high := by
  rw [Sequence.begin, if_neg (by omega), if_neg (by omega), if_neg (by omega), if_neg (by omega)]
  by_cases hfirst : n / 2 ^ 18 = 0
  · rw [if_pos (by omega), hfirst]
    exact ⟨_, _, rfl, by omega, by omega⟩
  rw [if_neg (by omega)]
  by_cases hlast : n / 2 ^ 18 = 4
  · rw [if_pos (by omega), hlast]
    exact ⟨_, _, rfl, by omega, by omega⟩
  rw [if_neg (by omega), if_pos (by omega), show (0xF0 + n / 2 ^ 18) % 8 = n / 2 ^ 18 by omega]
  exact ⟨_, _, rfl, by omega, by omega⟩

/-- The bytes of a code point are decoded to it, whatever follows them. -/
theorem decode_from_utf8 {c : PyChar} (h : PyStr.isSurrogate c = false) (rest : PyBytes) :
    decodeFrom none (PyStr.utf8 c ++ rest) = c :: decodeFrom none rest := by
  have hmax := c.isLt
  have hc : ∀ n, n = c.val → (Fin.ofNat 0x110000 n : PyChar) = c := by
    rintro n rfl
    exact Fin.ext (Nat.mod_eq_of_lt hmax)
  simp only [PyStr.isSurrogate, Bool.and_eq_false_iff, decide_eq_false_iff_not] at h
  simp only [PyStr.utf8]
  split
  case isTrue hone =>
    have hb : c.val.toUInt8.toNat = c.val := to_nat_to_uint8 (by omega)
    rw [List.singleton_append, decodeFrom, feed_of_ascii (by omega), hb, hc _ rfl]
    rfl
  split
  case isTrue htwo =>
    rw [List.cons_append, List.cons_append, List.nil_append,
      decode_from_begin (by omega) (by omega) (begin_two (by omega) htwo),
      decode_from_last _ _ (by omega) (by omega), hc _ (by omega)]
  split
  case isTrue hthree =>
    obtain ⟨low, high, hbegin, hlow, hhigh⟩ := begin_three (by omega) hthree (by omega)
    rw [List.cons_append, List.cons_append, List.cons_append, List.nil_append,
      decode_from_begin (by omega) (by omega) hbegin, decode_from_next 0 _ _ hlow hhigh,
      decode_from_last _ _ (by omega) (by omega), hc _ (by omega)]
  · obtain ⟨low, high, hbegin, hlow, hhigh⟩ := begin_four (n := c.val) (by omega) hmax
    rw [List.cons_append, List.cons_append, List.cons_append, List.cons_append, List.nil_append,
      decode_from_begin (by omega) (by omega) hbegin, decode_from_next 1 _ _ hlow hhigh,
      decode_from_next 0 _ _ (by omega) (by omega), decode_from_last _ _ (by omega) (by omega),
      hc _ (by omega)]

/-- Text that has an encoding is read back from it. -/
theorem decode_replace_encode {s : PyStr} {data : PyBytes} (h : s.encode = .ok data) :
    decodeReplace data = s := by
  have hs : PyStr.Encodable s := (PyStr.exists_encode_iff s).mp ⟨data, h⟩
  rw [PyStr.encode, if_pos hs] at h
  cases h
  induction s with
  | nil => rfl
  | cons c s ih =>
      obtain ⟨hc, hs⟩ := List.forall_mem_cons.mp hs
      rw [List.flatMap_cons, decodeReplace, decode_from_utf8 hc]
      exact congrArg (c :: ·) (ih hs)

/-- Two texts of one encoding are one text. -/
theorem encode_injective {s s' : PyStr} {data : PyBytes} (h : s.encode = .ok data)
    (h' : s'.encode = .ok data) : s = s' :=
  (decode_replace_encode h).symm.trans (decode_replace_encode h')

end Aegis.Server.Utf8
