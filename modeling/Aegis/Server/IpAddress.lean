import Aegis.Server.Decimal
import Aegis.Server.Strings
import Mathlib.Tactic.Linarith

/-!
# Addresses

Python's `ipaddress`: which texts are addresses, and what kind an address is of. Beside it, the
reading of `inet_aton`, which takes more texts: fewer parts, and parts in octal and hexadecimal.
`inet_aton_of_ipv4` says that the two agree on what both read.
-/

namespace Aegis.Server

/-! ## Reading -/

/-- A decimal digit. -/
def isDecimalDigit (c : PyChar) : Bool :=
  48 ≤ c.val && c.val ≤ 57

/-- A number of digits in a base, if there are any and all of them are. -/
def numeral (base : Nat) (digits : PyStr) : Option Nat :=
  match digits.mapM hexValue with
  | some (d :: rest) => if (d :: rest).all (· < base) then some (ofDigits base (d :: rest)) else none
  | _ => none

/-- `IPv4Address._parse_octet`. -/
def parseOctet (octet : PyStr) : Option Nat :=
  if octet.isEmpty || !octet.all isDecimalDigit || 3 < octet.length ||
      (octet != py "0" && octet.head? == some 48) then none
  else (numeral 10 octet).filter (· ≤ 255)

/-- Four bytes as one number. -/
def quad (a b c d : Nat) : Nat :=
  a * 2 ^ 24 + b * 2 ^ 16 + c * 2 ^ 8 + d

/-- `IPv4Address(text)`, as a number. -/
def ipv4Address (text : PyStr) : Option Nat :=
  match (text.splitOn 46).mapM parseOctet with
  | some [a, b, c, d] => some (quad a b c d)
  | _ => none

/-- `IPv6Address._parse_hextet`. -/
def parseHextet (hextet : PyStr) : Option Nat :=
  if 4 < hextet.length then none else numeral 16 hextet

/-- The parts of an address of version 6. Four bytes at its end are two of them. -/
def hextets (text : PyStr) : Option (List PyStr) :=
  let parts := text.splitOn 58
  let last := parts.getLast?.getD []
  if parts.length < 3 then none
  else if last.contains 46 then
    (ipv4Address last).map fun n ↦
      parts.dropLast ++ [PyStr.hex 4 (n / 2 ^ 16), PyStr.hex 4 (n % 2 ^ 16)]
  else some parts

/-- The parts before or after `::`, of which one at the end of the text may be empty if it is
alone. -/
def besideGap (parts : List PyStr) (outer : Option PyStr) : Option (List PyStr) :=
  if outer = some [] then if parts.length = 1 then some [] else none else some parts

/-- `IPv6Address._ip_int_from_string`. -/
def ipv6Number (text : PyStr) : Option Nat := do
  let parts ← hextets text
  if 9 < parts.length then none
  let inner := parts.tail.dropLast
  if 1 < inner.countP List.isEmpty then none
  match inner.findIdx? List.isEmpty with
  | some index =>
      let before ← besideGap (parts.take (index + 1)) parts.head?
      let after ← besideGap (parts.drop (index + 2)) parts.getLast?
      if 8 ≤ before.length + after.length then none
      let high ← before.mapM parseHextet
      let low ← after.mapM parseHextet
      some (ofDigits (2 ^ 16) high * 2 ^ (16 * (8 - before.length)) + ofDigits (2 ^ 16) low)
  | none =>
      if parts.length ≠ 8 then none
      (parts.mapM parseHextet).map (ofDigits (2 ^ 16))

/-- `IPv6Address(text)`, as a number. A zone behind a percent sign is left out. -/
def ipv6Address (text : PyStr) : Option Nat :=
  let address := text.takeWhile (· != 37)
  let zone := text.drop (address.length + 1)
  if text.contains 47 then none
  else if address.length < text.length && (zone.isEmpty || zone.contains 37) then none
  else ipv6Number address

/-- An address. -/
inductive IpAddress where
  | v4 (number : Nat)
  | v6 (number : Nat)
  deriving DecidableEq, Repr

/-- `ip_address(text)`, or nothing for the `ValueError`. -/
def ipAddress (text : PyStr) : Option IpAddress :=
  ((ipv4Address text).map .v4).or ((ipv6Address text).map .v6)

/-! ## Kinds of addresses -/

/-- Whether an address of a width is of the network of another and a length. -/
def inNetwork (width : Nat) (network : Nat × Nat) (number : Nat) : Bool :=
  number / 2 ^ (width - network.2) == network.1 / 2 ^ (width - network.2)

namespace Ipv4

/-- `_private_networks`. -/
def privateNetworks : List (Nat × Nat) :=
  [(quad 0 0 0 0, 8), (quad 10 0 0 0, 8), (quad 127 0 0 0, 8), (quad 169 254 0 0, 16),
    (quad 172 16 0 0, 12), (quad 192 0 0 0, 24), (quad 192 0 0 170, 31), (quad 192 0 2 0, 24),
    (quad 192 168 0 0, 16), (quad 198 18 0 0, 15), (quad 198 51 100 0, 24), (quad 203 0 113 0, 24),
    (quad 240 0 0 0, 4), (quad 255 255 255 255, 32)]

/-- `_private_networks_exceptions`. -/
def privateExceptions : List (Nat × Nat) :=
  [(quad 192 0 0 9, 32), (quad 192 0 0 10, 32)]

def isPrivate (number : Nat) : Bool :=
  privateNetworks.any (inNetwork 32 · number) && !privateExceptions.any (inNetwork 32 · number)

def isLoopback (number : Nat) : Bool := inNetwork 32 (quad 127 0 0 0, 8) number

def isLinkLocal (number : Nat) : Bool := inNetwork 32 (quad 169 254 0 0, 16) number

def isReserved (number : Nat) : Bool := inNetwork 32 (quad 240 0 0 0, 4) number

def isMulticast (number : Nat) : Bool := inNetwork 32 (quad 224 0 0 0, 4) number

def isUnspecified (number : Nat) : Bool := number == 0

end Ipv4

namespace Ipv6

/-- A network of the first two parts of an address. -/
def network (first second length : Nat) : Nat × Nat :=
  (first * 2 ^ 112 + second * 2 ^ 96, length)

/-- `_private_networks`. -/
def privateNetworks : List (Nat × Nat) :=
  [(1, 128), (0, 128), (0xFFFF * 2 ^ 32, 96), (0x64 * 2 ^ 112 + 0xFF9B * 2 ^ 96 + 2 ^ 80, 48),
    network 0x100 0 64, network 0x2001 0 23, network 0x2001 0xDB8 32, network 0x2002 0 16,
    network 0xFC00 0 7, network 0xFE80 0 10]

/-- `_private_networks_exceptions`. -/
def privateExceptions : List (Nat × Nat) :=
  [(0x2001 * 2 ^ 112 + 2 ^ 96 + 1, 128), (0x2001 * 2 ^ 112 + 2 ^ 96 + 2, 128), network 0x2001 3 32,
    (0x2001 * 2 ^ 112 + 4 * 2 ^ 96 + 0x112 * 2 ^ 80, 48), network 0x2001 0x20 28,
    network 0x2001 0x30 28]

/-- `_reserved_networks`. -/
def reservedNetworks : List (Nat × Nat) :=
  [network 0 0 8, network 0x100 0 8, network 0x200 0 7, network 0x400 0 6, network 0x800 0 5,
    network 0x1000 0 4, network 0x4000 0 3, network 0x6000 0 3, network 0x8000 0 3,
    network 0xA000 0 3, network 0xC000 0 3, network 0xE000 0 4, network 0xF000 0 5,
    network 0xF800 0 6, network 0xFE00 0 9]

/-- `ipv4_mapped`. -/
def ipv4Mapped (number : Nat) : Option Nat :=
  if number / 2 ^ 32 = 0xFFFF then some (number % 2 ^ 32) else none

def isPrivate (number : Nat) : Bool :=
  match ipv4Mapped number with
  | some mapped => Ipv4.isPrivate mapped
  | none =>
      privateNetworks.any (inNetwork 128 · number) && !privateExceptions.any (inNetwork 128 · number)

def isLoopback (number : Nat) : Bool := number == 1

def isLinkLocal (number : Nat) : Bool := inNetwork 128 (network 0xFE80 0 10) number

def isReserved (number : Nat) : Bool := reservedNetworks.any (inNetwork 128 · number)

def isMulticast (number : Nat) : Bool := inNetwork 128 (network 0xFF00 0 8) number

def isUnspecified (number : Nat) : Bool := number == 0

end Ipv6

/-- Addresses of one network start with the same bits. -/
theorem div_of_in_network {width number bits : Nat} {network : Nat × Nat}
    (h : inNetwork width network number = true) (hbits : width - network.2 ≤ bits) :
    number / 2 ^ bits = network.1 / 2 ^ bits := by
  obtain ⟨more, rfl⟩ := Nat.exists_eq_add_of_le hbits
  rw [Nat.pow_add, ← Nat.div_div_eq_div_mul, ← Nat.div_div_eq_div_mul, beq_iff_eq.mp h]

/-! ## What other resolvers read -/

/-- A part of an address as C reads it: in hexadecimal behind `0x`, in octal behind `0`, and
otherwise in decimal. -/
def cNumeral (part : PyStr) : Option Nat :=
  match part with
  | 48 :: 120 :: digits => numeral 16 digits
  | 48 :: 88 :: digits => numeral 16 digits
  | 48 :: digits => numeral 8 (48 :: digits)
  | digits => numeral 10 digits

/-- `inet_aton(text)`, as a number. The last part fills the bytes the others leave. -/
def inetAton (text : PyStr) : Option Nat :=
  match (text.splitOn 46).mapM cNumeral with
  | some [a] => if a < 2 ^ 32 then some a else none
  | some [a, b] => if a < 2 ^ 8 ∧ b < 2 ^ 24 then some (a * 2 ^ 24 + b) else none
  | some [a, b, c] =>
      if a < 2 ^ 8 ∧ b < 2 ^ 8 ∧ c < 2 ^ 16 then some (a * 2 ^ 24 + b * 2 ^ 16 + c) else none
  | some [a, b, c, d] =>
      if a < 2 ^ 8 ∧ b < 2 ^ 8 ∧ c < 2 ^ 8 ∧ d < 2 ^ 8 then some (quad a b c d) else none
  | _ => none

/-! ## What the readings share -/

section Parts

variable {α β : Type*} {f g : α → Option β} {parts : List α} {values : List β}

/-- A list is read when each of its parts is. -/
theorem is_some_of_map (h : parts.mapM f = some values) : ∀ part ∈ parts, (f part).isSome = true := by
  induction parts generalizing values with
  | nil => exact List.forall_mem_nil _
  | cons part parts ih =>
      rw [List.mapM_cons] at h
      obtain ⟨value, hvalue, h⟩ := Option.bind_eq_some_iff.mp h
      obtain ⟨rest, hrest, -⟩ := Option.bind_eq_some_iff.mp h
      exact List.forall_mem_cons.mpr ⟨Option.isSome_of_eq_some hvalue, ih hrest⟩

/-- What is read of a list is read of its parts. -/
theorem read_of_mem_map (h : parts.mapM f = some values) :
    ∀ value ∈ values, ∃ part ∈ parts, f part = some value := by
  induction parts generalizing values with
  | nil =>
      obtain rfl : [] = values := Option.some.inj h
      exact List.forall_mem_nil _
  | cons part parts ih =>
      rw [List.mapM_cons] at h
      obtain ⟨value, hvalue, h⟩ := Option.bind_eq_some_iff.mp h
      obtain ⟨rest, hrest, h⟩ := Option.bind_eq_some_iff.mp h
      obtain rfl := Option.some.inj h
      refine List.forall_mem_cons.mpr ⟨⟨part, List.mem_cons_self, hvalue⟩, fun other hother ↦ ?_⟩
      obtain ⟨found, hfound, hread⟩ := ih hrest other hother
      exact ⟨found, List.mem_cons_of_mem _ hfound, hread⟩

/-- A reader that agrees on each part agrees on the list. -/
theorem map_of_le (hle : ∀ part value, f part = some value → g part = some value)
    (h : parts.mapM f = some values) : parts.mapM g = some values := by
  induction parts generalizing values with
  | nil => exact h
  | cons part parts ih =>
      rw [List.mapM_cons] at h ⊢
      obtain ⟨value, hvalue, h⟩ := Option.bind_eq_some_iff.mp h
      obtain ⟨rest, hrest, h⟩ := Option.bind_eq_some_iff.mp h
      rw [hle part value hvalue, ih hrest]
      exact h

end Parts

/-- What is read digit by digit has digits only. -/
theorem hex_value_of_numeral {base : Nat} {digits : PyStr} {n : Nat}
    (h : numeral base digits = some n) : ∀ c ∈ digits, (hexValue c).isSome = true := by
  rw [numeral] at h
  split at h
  · next hvalues => exact is_some_of_map hvalues
  · cases h

/-- A part of an address has no colon. -/
theorem not_mem_of_c_numeral {part : PyStr} {n : Nat} (h : cNumeral part = some n) :
    (58 : PyChar) ∉ part := by
  have hdigits : ∀ {base : Nat} {digits : PyStr}, numeral base digits = some n →
      (58 : PyChar) ∉ digits := by
    intro base digits hdigits hmem
    have hcolon : (hexValue (58 : PyChar)).isSome = true := hex_value_of_numeral hdigits _ hmem
    exact absurd hcolon (by decide)
  unfold cNumeral at h
  split at h
  · exact fun hmem ↦ hdigits h (by simpa using hmem)
  · exact fun hmem ↦ hdigits h (by simpa using hmem)
  · exact hdigits h
  · exact hdigits h

/-- Every character of a text is in one of its parts, unless it separates them. -/
theorem mem_split_on {separator c : PyChar} {text : PyStr} (hc : c ∈ text) (hne : c ≠ separator) :
    ∃ part ∈ text.splitOn separator, c ∈ part := by
  induction text with
  | nil => cases hc
  | cons d text ih =>
      obtain ⟨part, parts, hparts⟩ :=
        List.exists_cons_of_ne_nil (List.splitOn_ne_nil separator text)
      rw [List.splitOn_cons_eq_if_modifyHead]
      rcases List.mem_cons.mp hc with rfl | hc
      · rw [if_neg (by simpa using hne), hparts]
        exact ⟨c :: part, List.mem_cons_self, List.mem_cons_self⟩
      obtain ⟨found, hfound, hmem⟩ := ih hc
      split
      · exact ⟨found, List.mem_cons_of_mem _ hfound, hmem⟩
      · rw [hparts] at hfound ⊢
        rcases List.mem_cons.mp hfound with rfl | hfound
        · exact ⟨_, List.mem_cons_self, List.mem_cons_of_mem _ hmem⟩
        · exact ⟨found, List.mem_cons_of_mem _ hfound, hmem⟩

/-- What `inet_aton` reads has no colon. -/
theorem not_mem_of_inet_aton {text : PyStr} {n : Nat} (h : inetAton text = some n) :
    (58 : PyChar) ∉ text := by
  intro hcolon
  obtain ⟨part, hpart, hmem⟩ := mem_split_on hcolon (show (58 : PyChar) ≠ 46 by decide)
  have hread : ∃ values, (text.splitOn 46).mapM cNumeral = some values := by
    unfold inetAton at h
    split at h <;> first | exact ⟨_, ‹_›⟩ | cases h
  obtain ⟨values, hvalues⟩ := hread
  obtain ⟨value, hvalue⟩ := Option.isSome_iff_exists.mp (is_some_of_map hvalues part hpart)
  exact not_mem_of_c_numeral hvalue hmem

/-- A part in plain decimal is read as it is, and is a byte. -/
theorem c_numeral_of_octet {octet : PyStr} {n : Nat} (h : parseOctet octet = some n) :
    cNumeral octet = some n ∧ n < 256 := by
  rw [parseOctet] at h
  split at h
  · cases h
  · next hplain =>
      obtain ⟨hnumeral, hbyte⟩ := Option.filter_eq_some_iff.mp h
      refine ⟨?_, Nat.lt_succ_of_le (by simpa using hbyte)⟩
      simp only [Bool.or_eq_true, not_or, Bool.and_eq_true, not_and, bne_iff_ne, ne_eq,
        beq_iff_eq] at hplain
      obtain ⟨-, hzero⟩ := hplain
      by_cases hsingle : octet = py "0"
      · rw [hsingle] at hnumeral ⊢
        exact hnumeral
      · have hhead := hzero hsingle
        unfold cNumeral
        split
        · exact absurd rfl hhead
        · exact absurd rfl hhead
        · exact absurd rfl hhead
        · exact hnumeral

/-- `inet_aton` agrees on the addresses of version 4. -/
theorem inet_aton_of_ipv4 {text : PyStr} {n : Nat} (h : ipv4Address text = some n) :
    inetAton text = some n := by
  unfold ipv4Address at h
  split at h
  swap
  · cases h
  next a b c d hoctets =>
    have hread := map_of_le (fun _ _ hoctet ↦ (c_numeral_of_octet hoctet).1) hoctets
    have hbyte : ∀ value ∈ [a, b, c, d], value < 2 ^ 8 := fun value hvalue ↦
      have ⟨_, _, hoctet⟩ := read_of_mem_map hoctets value hvalue
      (c_numeral_of_octet hoctet).2
    unfold inetAton
    rw [hread]
    show (if a < 2 ^ 8 ∧ b < 2 ^ 8 ∧ c < 2 ^ 8 ∧ d < 2 ^ 8 then some (quad a b c d) else none) = _
    rw [if_pos ⟨hbyte a (by simp), hbyte b (by simp), hbyte c (by simp), hbyte d (by simp)⟩]
    exact h

/-- No address of version 4 has a dot at its end. -/
theorem ipv4_address_concat (text : PyStr) : ipv4Address (text ++ [46]) = none := by
  have hparts : (text ++ [46]).splitOn (46 : PyChar) = text.splitOn 46 ++ [[]] := by
    rw [List.splitOn_append_cons_self, List.splitOn_nil]
  cases hread : ipv4Address (text ++ [46]) with
  | none => rfl
  | some n =>
      unfold ipv4Address at hread
      split at hread
      · next hoctets =>
          have hlast := is_some_of_map hoctets [] (by rw [hparts]; simp)
          cases hlast
      · cases hread

/-- An address of version 6 has a colon. -/
theorem mem_of_ipv6_address {text : PyStr} {n : Nat} (h : ipv6Address text = some n) :
    (58 : PyChar) ∈ text := by
  by_contra hcolon
  have haddress : (58 : PyChar) ∉ text.takeWhile (· != 37) :=
    fun hmem ↦ hcolon ((List.takeWhile_sublist _).subset hmem)
  have hnone : ipv6Number (text.takeWhile (· != 37)) = none := by
    have hparts : hextets (text.takeWhile (· != 37)) = none := by
      rw [hextets, List.splitOn_eq_singleton haddress]
      rfl
    rw [ipv6Number, hparts]
    rfl
  rw [ipv6Address, hnone] at h
  split at h
  · cases h
  · split at h <;> cases h

end Aegis.Server
