import Mathlib.Data.List.DropRight
import Aegis.Server.Json.Loads

/-!
# Base64 for URLs

`urlsafe_b64encode` and `urlsafe_b64decode` of Python's `base64`. The decoder passes over what is no
digit, and stops where the padding completes a group.
-/

namespace Aegis.Server.Base64

open Json

/-- The digits, from zero. -/
def digit (n : Nat) : PyChar :=
  if n < 26 then Fin.ofNat _ (65 + n)
  else if n < 52 then Fin.ofNat _ (71 + n)
  else if n < 62 then Fin.ofNat _ (n - 4)
  else if n = 62 then pyChar '-'
  else pyChar '_'

/-- The value of a digit. Those of the other alphabet are taken too. -/
def index (c : PyChar) : Option Nat :=
  if 65 ≤ c.val ∧ c.val ≤ 90 then some (c.val - 65)
  else if 97 ≤ c.val ∧ c.val ≤ 122 then some (c.val - 71)
  else if 48 ≤ c.val ∧ c.val ≤ 57 then some (c.val + 4)
  else if c = pyChar '-' ∨ c = pyChar '+' then some 62
  else if c = pyChar '_' ∨ c = pyChar '/' then some 63
  else none

/-- The character that completes a group of four. -/
abbrev pad : PyChar := pyChar '='

/-- The digits of the bytes, without padding. -/
def digits : PyBytes → PyStr
  | [] => []
  | [a] => [digit (a.toNat / 4), digit (a.toNat % 4 * 16)]
  | [a, b] =>
      [digit (a.toNat / 4), digit (a.toNat % 4 * 16 + b.toNat / 16), digit (b.toNat % 16 * 4)]
  | a :: b :: c :: rest =>
      digit (a.toNat / 4) :: digit (a.toNat % 4 * 16 + b.toNat / 16) ::
        digit (b.toNat % 16 * 4 + c.toNat / 64) :: digit (c.toNat % 64) :: digits rest

/-- What completes the last group of a text. -/
def padding (s : PyStr) : PyStr :=
  List.replicate ((4 - s.length % 4) % 4) pad

/-- `urlsafe_b64encode(data).decode()`. -/
def urlsafeB64encode (data : PyBytes) : PyStr :=
  digits data ++ padding (digits data)

/-- `text.rstrip("=")`. -/
def stripPadding (s : PyStr) : PyStr :=
  s.rdropWhile (· == pad)

/-- The bytes of the text after `quad` digits of a group, of which `left` has not been used, and
`pads` of what completes it. -/
def a2b (quad left pads : Nat) : PyStr → Option PyBytes
  | [] => if quad = 0 then some [] else none
  | c :: rest =>
      if c = pad then
        if 2 ≤ quad then
          if 4 ≤ quad + (pads + 1) then some [] else a2b quad left (pads + 1) rest
        else a2b quad left pads rest
      else
        match index c with
        | none => a2b quad left pads rest
        | some v =>
            if quad = 0 then a2b 1 v 0 rest
            else if quad = 1 then (a2b 2 (v % 16) 0 rest).map ((left * 4 + v / 16).toUInt8 :: ·)
            else if quad = 2 then (a2b 3 (v % 4) 0 rest).map ((left * 16 + v / 4).toUInt8 :: ·)
            else (a2b 0 0 0 rest).map ((left * 64 + v).toUInt8 :: ·)

/-- `urlsafe_b64decode(text)`. -/
def urlsafeB64decode (s : PyStr) : Option PyBytes :=
  if ∀ c ∈ s, c.val < 128 then a2b 0 0 0 s else none

/-! ## Decoding what was encoded -/

/-- A digit has its value, and is not the padding. -/
theorem index_digit {n : Nat} (h : n < 64) :
    index (digit n) = some n ∧ digit n ≠ pad ∧ (digit n).val < 128 := by
  revert n
  decide +kernel

/-- A digit goes on with its group. -/
theorem a2b_digit {n : Nat} (h : n < 64) (quad left pads : Nat) (rest : PyStr) :
    a2b quad left pads (digit n :: rest) =
      if quad = 0 then a2b 1 n 0 rest
      else if quad = 1 then (a2b 2 (n % 16) 0 rest).map ((left * 4 + n / 16).toUInt8 :: ·)
      else if quad = 2 then (a2b 3 (n % 4) 0 rest).map ((left * 16 + n / 4).toUInt8 :: ·)
      else (a2b 0 0 0 rest).map ((left * 64 + n).toUInt8 :: ·) := by
  obtain ⟨hindex, hpad, -⟩ := index_digit h
  rw [a2b, if_neg hpad, hindex]

/-- Every character of encoded data is a digit. -/
theorem mem_digits {data : PyBytes} {c : PyChar} (h : c ∈ digits data) :
    ∃ n < 64, c = digit n := by
  induction data using digits.induct with
  | case1 => cases h
  | case2 a =>
      have := a.toNat_lt
      simp only [digits, List.mem_cons, List.not_mem_nil, or_false] at h
      rcases h with rfl | rfl
      · exact ⟨_, by omega, rfl⟩
      · exact ⟨_, by omega, rfl⟩
  | case3 a b =>
      have := a.toNat_lt
      have := b.toNat_lt
      simp only [digits, List.mem_cons, List.not_mem_nil, or_false] at h
      rcases h with rfl | rfl | rfl
      · exact ⟨_, by omega, rfl⟩
      · exact ⟨_, by omega, rfl⟩
      · exact ⟨_, by omega, rfl⟩
  | case4 a b d rest ih =>
      have := a.toNat_lt
      have := b.toNat_lt
      have := d.toNat_lt
      simp only [digits, List.mem_cons] at h
      rcases h with rfl | rfl | rfl | rfl | h
      · exact ⟨_, by omega, rfl⟩
      · exact ⟨_, by omega, rfl⟩
      · exact ⟨_, by omega, rfl⟩
      · exact ⟨_, by omega, rfl⟩
      · exact ih h

/-- The padding is stripped and nothing else. -/
theorem strip_padding_encode (data : PyBytes) :
    stripPadding (urlsafeB64encode data) = digits data := by
  have hpadding : ∀ count, (digits data ++ List.replicate count pad).rdropWhile (· == pad) =
      (digits data).rdropWhile (· == pad) := by
    intro count
    induction count with
    | zero => rw [List.replicate_zero, List.append_nil]
    | succ count ih =>
        rw [List.replicate_succ', ← List.append_assoc, List.rdropWhile_concat_pos _ _ _ (by simp),
          ih]
  rw [stripPadding, urlsafeB64encode, padding, hpadding]
  refine List.rdropWhile_eq_self_iff.mpr fun hne ↦ ?_
  obtain ⟨n, hn, hlast⟩ := mem_digits (List.getLast_mem hne)
  rw [hlast]
  simpa using (index_digit hn).2.1

/-- Bytes are decoded from their digits and the padding. -/
theorem a2b_digits (data : PyBytes) :
    a2b 0 0 0 (digits data ++ padding (digits data)) = some data := by
  induction data using digits.induct with
  | case1 => rfl
  | case2 a =>
      have ha := a.toNat_lt
      have hbyte : (a.toNat / 4 * 4 + a.toNat % 4 * 16 / 16).toUInt8 = a := by
        rw [show a.toNat / 4 * 4 + a.toNat % 4 * 16 / 16 = a.toNat by omega]
        exact UInt8.ofNat_toNat
      show a2b 0 0 0 (digit _ :: digit _ :: [pad, pad]) = _
      rw [a2b_digit (by omega), if_pos rfl, a2b_digit (by omega), if_neg (by decide), if_pos rfl,
        hbyte]
      rfl
  | case3 a b =>
      have ha := a.toNat_lt
      have hb := b.toNat_lt
      have hfirst : (a.toNat / 4 * 4 + (a.toNat % 4 * 16 + b.toNat / 16) / 16).toUInt8 = a := by
        rw [show a.toNat / 4 * 4 + (a.toNat % 4 * 16 + b.toNat / 16) / 16 = a.toNat by omega]
        exact UInt8.ofNat_toNat
      have hsecond : ((a.toNat % 4 * 16 + b.toNat / 16) % 16 * 16 +
          b.toNat % 16 * 4 / 4).toUInt8 = b := by
        rw [show (a.toNat % 4 * 16 + b.toNat / 16) % 16 * 16 + b.toNat % 16 * 4 / 4 = b.toNat by
          omega]
        exact UInt8.ofNat_toNat
      show a2b 0 0 0 (digit _ :: digit _ :: digit _ :: [pad]) = _
      rw [a2b_digit (by omega), if_pos rfl, a2b_digit (by omega), if_neg (by decide), if_pos rfl,
        a2b_digit (by omega), if_neg (by decide), if_neg (by decide), if_pos rfl, hfirst, hsecond]
      rfl
  | case4 a b c rest ih =>
      have ha := a.toNat_lt
      have hb := b.toNat_lt
      have hc := c.toNat_lt
      have hfirst : (a.toNat / 4 * 4 + (a.toNat % 4 * 16 + b.toNat / 16) / 16).toUInt8 = a := by
        rw [show a.toNat / 4 * 4 + (a.toNat % 4 * 16 + b.toNat / 16) / 16 = a.toNat by omega]
        exact UInt8.ofNat_toNat
      have hsecond : ((a.toNat % 4 * 16 + b.toNat / 16) % 16 * 16 +
          (b.toNat % 16 * 4 + c.toNat / 64) / 4).toUInt8 = b := by
        rw [show (a.toNat % 4 * 16 + b.toNat / 16) % 16 * 16 +
          (b.toNat % 16 * 4 + c.toNat / 64) / 4 = b.toNat by omega]
        exact UInt8.ofNat_toNat
      have hthird : ((b.toNat % 16 * 4 + c.toNat / 64) % 4 * 64 + c.toNat % 64).toUInt8 = c := by
        rw [show (b.toNat % 16 * 4 + c.toNat / 64) % 4 * 64 + c.toNat % 64 = c.toNat by omega]
        exact UInt8.ofNat_toNat
      have hpadding : padding (digits (a :: b :: c :: rest)) = padding (digits rest) := by
        simp only [padding, digits, List.length_cons]
        congr 1
        omega
      rw [hpadding]
      show a2b 0 0 0 (digit _ :: digit _ :: digit _ :: digit _ :: (digits rest ++ _)) = _
      rw [a2b_digit (by omega), if_pos rfl, a2b_digit (by omega), if_neg (by decide), if_pos rfl,
        a2b_digit (by omega), if_neg (by decide), if_neg (by decide), if_pos rfl,
        a2b_digit (by omega), if_neg (by decide), if_neg (by decide), if_neg (by decide), ih,
        hfirst, hsecond, hthird]
      rfl

/-- Data is decoded from its digits when the padding is put back. -/
theorem decode_digits (data : PyBytes) :
    urlsafeB64decode (digits data ++ padding (digits data)) = some data := by
  have hascii : ∀ c ∈ digits data ++ padding (digits data), c.val < 128 := by
    refine List.forall_mem_append.mpr ⟨fun c hc ↦ ?_, fun c hc ↦ ?_⟩
    · obtain ⟨n, hn, rfl⟩ := mem_digits hc
      exact (index_digit hn).2.2
    · rw [(List.mem_replicate.mp hc).2]
      decide
  rw [urlsafeB64decode, if_pos hascii, a2b_digits]

end Aegis.Server.Base64
