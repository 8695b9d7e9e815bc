import Aegis.Agent.Platform

/-!
# Lines of text in a file

`String.getBytes` and `Files.readAllLines`, both in UTF-8, as the agent's spool uses them.
Unpaired surrogates are written as question marks, and bytes that are no UTF-8 are an exception.
What is written as complete lines is read back line by line.
-/

namespace Aegis.Agent

/-- The bytes of a file. -/
abbrev Bytes := List UInt8

/-! ## Writing text -/

/-- The first half of a surrogate pair. -/
def JChar.isHighSurrogate (c : JChar) : Bool :=
  0xD800 ≤ c && c ≤ 0xDBFF

/-- The second half of a surrogate pair. -/
def JChar.isLowSurrogate (c : JChar) : Bool :=
  0xDC00 ≤ c && c ≤ 0xDFFF

/-- The character of a code unit on its own. Half of a pair stands for nothing. -/
def JChar.character (c : JChar) : Char :=
  if c.isHighSurrogate || c.isLowSurrogate then '?' else Char.ofNat c.toNat

/-- The character of a surrogate pair. -/
def codePoint (high low : JChar) : Char :=
  Char.ofNat (0x10000 + (high.toNat - 0xD800) * 0x400 + (low.toNat - 0xDC00))

/-- The characters an encoder sees in a string. -/
def JString.characters : JString → List Char
  | [] => []
  | [c] => [JChar.character c]
  | c :: d :: rest =>
      if JChar.isHighSurrogate c && JChar.isLowSurrogate d then
        codePoint c d :: JString.characters rest
      else JChar.character c :: JString.characters (d :: rest)

/-- The UTF-8 bytes of characters. -/
def utf8 (text : List Char) : Bytes :=
  text.flatMap String.utf8EncodeChar

/-- `String.getBytes(StandardCharsets.UTF_8)`. -/
def JString.getBytes (s : JString) : Bytes :=
  utf8 s.characters

/-- Lines with a line feed after each. -/
def joinLines (lines : List JString) : JString :=
  lines.flatMap fun line ↦ line ++ java "\n"

/-! ## Reading text -/

/-- The characters whose UTF-8 encoding the bytes are. -/
def decode (bytes : Bytes) : Option (List Char) :=
  bytes.toByteArray.utf8Decode?.map Array.toList

/-- The lines of a text after `line`, the line read so far. -/
def splitLinesFrom (line : List Char) : List Char → List (List Char)
  | [] => if line.isEmpty then [] else [line]
  | '\r' :: '\n' :: rest => line :: splitLinesFrom [] rest
  | c :: rest =>
      if c == '\n' || c == '\r' then line :: splitLinesFrom [] rest
      else splitLinesFrom (line ++ [c]) rest

/-- `Files.readAllLines(path, StandardCharsets.UTF_8)` of a file with these bytes. -/
def readAllLines (bytes : Bytes) : Option (List JString) :=
  (decode bytes).map fun text ↦ (splitLinesFrom [] text).map fun line ↦ line.flatMap codeUnits

/-! ## What is written is read back -/

@[simp] theorem decode_utf8 (text : List Char) : decode (utf8 text) = some text := by
  have h : (utf8 text).toByteArray = text.utf8Encode := rfl
  rw [decode, h, List.utf8Decode?_utf8Encode]
  rfl

@[simp] theorem utf8_append (text more : List Char) : utf8 (text ++ more) = utf8 text ++ utf8 more :=
  List.flatMap_append

/-- A code unit that begins no pair is a character on its own. -/
theorem characters_cons {c : JChar} (h : c.isHighSurrogate = false) (s : JString) :
    JString.characters (c :: s) = c.character :: JString.characters s := by
  cases s with
  | nil => rfl
  | cons d s => rw [JString.characters, h, Bool.false_and, if_neg Bool.false_ne_true]

/-- So is one that another follows which ends no pair. -/
theorem characters_cons_of_next {c d : JChar} (h : d.isLowSurrogate = false) (s : JString) :
    JString.characters (c :: d :: s) = c.character :: JString.characters (d :: s) := by
  rw [JString.characters, h, Bool.and_false, if_neg Bool.false_ne_true]

/-- A line feed stands between the characters before it and those after it. -/
theorem characters_append_newline (s t : JString) :
    JString.characters (s ++ java "\n" ++ t) = s.characters ++ '\n' :: JString.characters t := by
  have hnewline : java "\n" = [(0x0A : JChar)] := rfl
  rw [hnewline, List.append_assoc, List.singleton_append]
  induction s using JString.characters.induct with
  | case1 =>
      rw [List.nil_append, characters_cons (by decide)]
      rfl
  | case2 c =>
      rw [List.singleton_append, characters_cons_of_next (by decide), characters_cons (by decide)]
      rfl
  | case3 c d rest h ih =>
      rw [List.cons_append, List.cons_append, JString.characters, if_pos h, ih, JString.characters,
        if_pos h]
      rfl
  | case4 c d rest h ih =>
      rw [List.cons_append, List.cons_append, JString.characters, if_neg h]
      rw [List.cons_append] at ih
      rw [ih, JString.characters, if_neg h]
      rfl

/-- The characters of joined lines. -/
theorem characters_join_lines (lines : List JString) :
    (joinLines lines).characters = lines.flatMap fun line ↦ line.characters ++ ['\n'] := by
  induction lines with
  | nil => rfl
  | cons line lines ih =>
      have h : joinLines (line :: lines) = line ++ java "\n" ++ joinLines lines := rfl
      rw [h, characters_append_newline, ih, List.flatMap_cons, List.append_assoc]
      rfl

/-- Character by character, a text is its code units and back. -/
theorem characters_flat_map_code_units (text : List Char) :
    JString.characters (text.flatMap codeUnits) = text := by
  induction text with
  | nil => rfl
  | cons c text ih =>
      have hvalid : c.toNat < 0xD800 ∨ 0xDFFF < c.toNat ∧ c.toNat < 0x110000 := c.valid
      rw [List.flatMap_cons, codeUnits]
      by_cases hsmall : c.toNat < 0x10000
      · have hunit : c.toNat.toUInt16.toNat = c.toNat := by
          rw [Nat.toUInt16_eq, UInt16.toNat_ofNat']
          exact Nat.mod_eq_of_lt (by omega)
        have hhigh : JChar.isHighSurrogate c.toNat.toUInt16 = false := by
          simp only [JChar.isHighSurrogate, UInt16.le_iff_toNat_le, hunit]
          simp
          omega
        have hlow : JChar.isLowSurrogate c.toNat.toUInt16 = false := by
          simp only [JChar.isLowSurrogate, UInt16.le_iff_toNat_le, hunit]
          simp
          omega
        rw [if_pos hsmall, List.singleton_append, characters_cons hhigh, ih, JChar.character, hhigh,
          hlow, Bool.or_self, if_neg Bool.false_ne_true, hunit, Char.ofNat_toNat]
      · have hhigh : (0xD800 + (c.toNat - 0x10000) / 0x400).toUInt16.toNat =
            0xD800 + (c.toNat - 0x10000) / 0x400 := by
          rw [Nat.toUInt16_eq, UInt16.toNat_ofNat']
          exact Nat.mod_eq_of_lt (by omega)
        have hlow : (0xDC00 + (c.toNat - 0x10000) % 0x400).toUInt16.toNat =
            0xDC00 + (c.toNat - 0x10000) % 0x400 := by
          rw [Nat.toUInt16_eq, UInt16.toNat_ofNat']
          exact Nat.mod_eq_of_lt (by omega)
        have hpair : (JChar.isHighSurrogate (0xD800 + (c.toNat - 0x10000) / 0x400).toUInt16 &&
            JChar.isLowSurrogate (0xDC00 + (c.toNat - 0x10000) % 0x400).toUInt16) = true := by
          simp only [JChar.isHighSurrogate, JChar.isLowSurrogate, UInt16.le_iff_toNat_le, hhigh, hlow]
          simp
          omega
        have hpoint : 0x10000 + (0xD800 + (c.toNat - 0x10000) / 0x400 - 0xD800) * 0x400 +
            (0xDC00 + (c.toNat - 0x10000) % 0x400 - 0xDC00) = c.toNat := by omega
        rw [if_neg hsmall, List.cons_append, List.singleton_append, JString.characters, if_pos hpair,
          ih, codePoint, hhigh, hlow, hpoint, Char.ofNat_toNat]

/-- A text is complete when it is empty or ends with a line feed. -/
def Complete (text : List Char) : Prop :=
  text = [] ∨ ∃ front, text = front ++ ['\n']

/-- A character that ends no line belongs to it. -/
theorem split_lines_from_cons {c : Char} (hnewline : c ≠ '\n') (hreturn : c ≠ '\r')
    (line rest : List Char) :
    splitLinesFrom line (c :: rest) = splitLinesFrom (line ++ [c]) rest := by
  rw [splitLinesFrom]
  · rw [if_neg (by simp [hnewline, hreturn])]
  · exact fun _ h _ ↦ hreturn h

/-- A line feed ends the line. -/
theorem split_lines_from_newline (line rest : List Char) :
    splitLinesFrom line ('\n' :: rest) = line :: splitLinesFrom [] rest := by
  rw [splitLinesFrom]
  · rw [if_pos (by decide)]
  · exact fun _ h _ ↦ absurd h (by decide)

/-- A carriage return that no line feed follows ends the line. -/
theorem split_lines_from_return {rest : List Char} (h : ∀ more, rest ≠ '\n' :: more)
    (line : List Char) : splitLinesFrom line ('\r' :: rest) = line :: splitLinesFrom [] rest := by
  rw [splitLinesFrom]
  · rw [if_pos (by decide)]
  · exact fun more _ heq ↦ h more heq

/-- After a line feed, the lines begin anew. -/
theorem split_lines_from_append (line front more : List Char) :
    splitLinesFrom line (front ++ '\n' :: more) =
      splitLinesFrom line (front ++ ['\n']) ++ splitLinesFrom [] more := by
  induction line, front using splitLinesFrom.induct with
  | case1 line h | case2 line h =>
      rw [List.nil_append, List.nil_append, split_lines_from_newline, split_lines_from_newline]
      rfl
  | case3 line rest ih =>
      rw [List.cons_append, List.cons_append, List.cons_append, List.cons_append, splitLinesFrom,
        splitLinesFrom, ih]
      rfl
  | case4 line c rest hpair hend ih =>
      have hend : c = '\n' ∨ c = '\r' := by simpa using hend
      rcases hend with rfl | rfl
      · rw [List.cons_append, List.cons_append, split_lines_from_newline,
          split_lines_from_newline, ih]
        rfl
      · cases rest with
        | nil =>
            rw [List.cons_append, List.cons_append, List.nil_append, List.nil_append,
              splitLinesFrom, splitLinesFrom]
            rfl
        | cons d rest =>
            have hd : d ≠ '\n' := fun h ↦ hpair rest rfl (h ▸ rfl)
            have hnext : ∀ tail more, d :: tail ≠ '\n' :: more :=
              fun _ _ h ↦ hd (List.cons.inj h).1
            rw [List.cons_append, List.cons_append, List.cons_append, List.cons_append,
              split_lines_from_return (hnext _), split_lines_from_return (hnext _)]
            rw [List.cons_append, List.cons_append] at ih
            rw [ih]
            rfl
  | case5 line c rest hpair hend ih =>
      have hend : c ≠ '\n' ∧ c ≠ '\r' := by simpa using hend
      rw [List.cons_append, List.cons_append, split_lines_from_cons hend.1 hend.2,
        split_lines_from_cons hend.1 hend.2, ih]

/-- The lines of a complete text and of what follows it are read apart. -/
theorem split_lines_append {text : List Char} (h : Complete text) (more : List Char) :
    splitLinesFrom [] (text ++ more) = splitLinesFrom [] text ++ splitLinesFrom [] more := by
  rcases h with rfl | ⟨front, rfl⟩
  · rfl
  · rw [List.append_assoc]
    exact split_lines_from_append [] front more

/-- Text without line ends is one line. -/
theorem split_lines_from_line {text : List Char} (h : ∀ c ∈ text, c ≠ '\n' ∧ c ≠ '\r')
    (line : List Char) : splitLinesFrom line (text ++ ['\n']) = [line ++ text] := by
  induction text generalizing line with
  | nil =>
      rw [List.nil_append, List.append_nil, split_lines_from_newline]
      rfl
  | cons c text ih =>
      obtain ⟨⟨hnewline, hreturn⟩, htext⟩ := List.forall_mem_cons.mp h
      rw [List.cons_append, split_lines_from_cons hnewline hreturn, ih htext, List.append_assoc]
      rfl

/-! ## Files of complete lines -/

/-- The bytes are UTF-8, and their last line is ended. -/
def Whole (bytes : Bytes) : Prop :=
  ∃ text, bytes = utf8 text ∧ Complete text

/-- Two complete texts make one. -/
theorem Complete.append {text more : List Char} (htext : Complete text) (hmore : Complete more) :
    Complete (text ++ more) := by
  rcases hmore with rfl | ⟨front, rfl⟩
  · rwa [List.append_nil]
  · exact .inr ⟨text ++ front, (List.append_assoc ..).symm⟩

theorem whole_nil : Whole [] :=
  ⟨[], rfl, .inl rfl⟩

/-- Whole bytes after whole bytes are whole. -/
theorem Whole.append {bytes more : Bytes} (hbytes : Whole bytes) (hmore : Whole more) :
    Whole (bytes ++ more) := by
  obtain ⟨text, rfl, htext⟩ := hbytes
  obtain ⟨rest, rfl, hrest⟩ := hmore
  exact ⟨text ++ rest, (utf8_append text rest).symm, htext.append hrest⟩

/-- The lines of whole bytes. -/
theorem read_all_lines_utf8 (text : List Char) :
    readAllLines (utf8 text) =
      some ((splitLinesFrom [] text).map fun line ↦ line.flatMap codeUnits) := by
  rw [readAllLines, decode_utf8]
  rfl

/-- Whole bytes can be read, and the lines of what follows them come after theirs. -/
theorem read_all_lines_append {bytes more : Bytes} (hbytes : Whole bytes) (hmore : Whole more) :
    ∃ lines rest, readAllLines bytes = some lines ∧ readAllLines more = some rest ∧
      readAllLines (bytes ++ more) = some (lines ++ rest) := by
  obtain ⟨text, rfl, htext⟩ := hbytes
  obtain ⟨next, rfl, -⟩ := hmore
  refine ⟨_, _, read_all_lines_utf8 text, read_all_lines_utf8 next, ?_⟩
  rw [← utf8_append, read_all_lines_utf8, split_lines_append htext, List.map_append]

/-- The characters of joined lines are complete. -/
theorem complete_flat_map (lines : List JString) :
    Complete (lines.flatMap fun line ↦ line.characters ++ ['\n']) := by
  induction lines with
  | nil => exact .inl rfl
  | cons line lines ih => exact Complete.append (.inr ⟨line.characters, rfl⟩) ih

/-- Joined lines are written as whole bytes. -/
theorem whole_join_lines (lines : List JString) : Whole (joinLines lines).getBytes :=
  ⟨_, congrArg utf8 (characters_join_lines lines), complete_flat_map lines⟩

/-- No line ends within the string. -/
def JString.OneLine (s : JString) : Prop :=
  ∀ c ∈ s, c ≠ 0x0A ∧ c ≠ 0x0D

instance (s : JString) : Decidable s.OneLine :=
  List.decidableBAll _ s

/-- A string of one line, which is not blank: a JSON object on a line of its own. -/
structure JString.Record (s : JString) : Prop where
  /-- It begins with a brace. -/
  head : s.head? = some (jchar '\x7b')
  /-- It has no line end in it. -/
  line : s.OneLine

/-- The string is carried by these lines: one of them has its bytes. -/
def Carried (lines : List JString) (s : JString) : Prop :=
  ∃ line ∈ lines, line.getBytes = s.getBytes

/-- A character made of a number has that number, or stands for a number that is none. -/
theorem to_nat_of_nat (n : Nat) : (Char.ofNat n).toNat = n ∨ (Char.ofNat n).toNat = 0 := by
  by_cases h : n.isValidChar
  · left
    rw [Char.ofNat, dif_pos h]
    rfl
  · right
    rw [Char.ofNat, dif_neg h]
    rfl

/-- The number of a code unit's character is the code unit, or that of no line end. -/
theorem to_nat_character (c : JChar) :
    c.character.toNat = c.toNat ∨ c.character.toNat = 0 ∨ c.character.toNat = 0x3F := by
  unfold JChar.character
  split
  · exact .inr (.inr rfl)
  · exact (to_nat_of_nat c.toNat).imp id .inl

/-- The number of a pair's character is that of no line end. -/
theorem to_nat_code_point (high low : JChar) :
    0x10000 ≤ (codePoint high low).toNat ∨ (codePoint high low).toNat = 0 := by
  unfold codePoint
  exact (to_nat_of_nat _).imp (fun h ↦ by omega) id

/-- A string of one line has the characters of one line. -/
theorem characters_of_line {s : JString} (h : s.OneLine) :
    ∀ c ∈ s.characters, c ≠ '\n' ∧ c ≠ '\r' := by
  have hends : ∀ c : Char, c.toNat ≠ 0x0A → c.toNat ≠ 0x0D → c ≠ '\n' ∧ c ≠ '\r' :=
    fun c hnewline hreturn ↦ ⟨fun h ↦ hnewline (h ▸ rfl), fun h ↦ hreturn (h ▸ rfl)⟩
  have hunit : ∀ c : JChar, c ≠ 0x0A → c ≠ 0x0D → c.character ≠ '\n' ∧ c.character ≠ '\r' := by
    intro c hnewline hreturn
    rw [Ne, ← UInt16.toNat_inj] at hnewline hreturn
    simp only [UInt16.reduceToNat] at hnewline hreturn
    apply hends <;> rcases to_nat_character c with hc | hc | hc <;> omega
  induction s using JString.characters.induct with
  | case1 => exact fun _ h ↦ (nomatch h)
  | case2 c =>
      obtain ⟨⟨hnewline, hreturn⟩, -⟩ := List.forall_mem_cons.mp h
      exact List.forall_mem_singleton.mpr (hunit c hnewline hreturn)
  | case3 c d rest hpair ih =>
      obtain ⟨-, hrest⟩ := List.forall_mem_cons.mp h
      obtain ⟨-, hrest⟩ := List.forall_mem_cons.mp hrest
      rw [JString.characters, if_pos hpair]
      refine List.forall_mem_cons.mpr ⟨?_, ih hrest⟩
      apply hends <;> rcases to_nat_code_point c d with hc | hc <;> omega
  | case4 c d rest hpair ih =>
      obtain ⟨⟨hnewline, hreturn⟩, hrest⟩ := List.forall_mem_cons.mp h
      rw [JString.characters, if_neg hpair]
      exact List.forall_mem_cons.mpr ⟨hunit c hnewline hreturn, ih hrest⟩

/-- A record among joined lines is among the lines read back, and not as a blank one. -/
theorem exists_read_line {lines : List JString} {s : JString} (hs : s.Record) (hmem : s ∈ lines) :
    ∃ read, readAllLines (joinLines lines).getBytes = some read ∧
      Carried (read.filter fun line ↦ !line.isBlank) s := by
  refine ⟨_, by rw [JString.getBytes, characters_join_lines, read_all_lines_utf8],
    s.characters.flatMap codeUnits, List.mem_filter.mpr ⟨?_, ?_⟩, ?_⟩
  · refine List.mem_map.mpr ⟨s.characters, ?_, rfl⟩
    induction lines with
    | nil => cases hmem
    | cons line lines ih =>
        rw [List.flatMap_cons, split_lines_append (.inr ⟨line.characters, rfl⟩)]
        refine List.mem_append.mpr ?_
        rcases List.mem_cons.mp hmem with rfl | hmem
        · refine .inl ?_
          rw [split_lines_from_line (characters_of_line hs.line)]
          exact List.mem_singleton_self _
        · exact .inr (ih hmem)
  · obtain ⟨rest, rfl⟩ : ∃ rest, s = jchar '\x7b' :: rest := by
      cases s with
      | nil => exact nomatch hs.head
      | cons c rest => exact ⟨rest, congrArg (· :: rest) (Option.some.inj hs.head)⟩
    rw [characters_cons (by decide), List.flatMap_cons]
    rfl
  · rw [JString.getBytes, characters_flat_map_code_units]
    rfl

end Aegis.Agent
