import Aegis.Server.Json.RoundTrip

/-!
# JSON in bytes

`json.loads` of bytes: the encoding is told from the first of them, and surrogates are taken where
they stand alone. What `json.dumps` writes is ASCII, so that its bytes are read as its text.
-/

namespace Aegis.Server

namespace PyBytes

/-- A byte that goes on with a character. -/
def isContinuation (b : UInt8) : Bool :=
  0x80 ≤ b.toNat && b.toNat < 0xC0

/-- The code point of the lower bits of bytes that go on with a character. -/
def continued (n : Nat) (bytes : PyBytes) : Nat :=
  bytes.foldl (fun n b ↦ n * 0x40 + b.toNat % 0x40) n

/-- `data.decode("utf-8", "surrogatepass")`. -/
def decodeUtf8 : PyBytes → Option PyStr
  | [] => some []
  | a :: rest =>
      if a.toNat < 0x80 then (decodeUtf8 rest).map (Fin.ofNat _ a.toNat :: ·)
      else
        match rest with
        | [] => none
        | b :: rest =>
            if 0xC2 ≤ a.toNat ∧ a.toNat < 0xE0 ∧ isContinuation b then
              (decodeUtf8 rest).map (Fin.ofNat _ (continued (a.toNat % 0x20) [b]) :: ·)
            else
              match rest with
              | [] => none
              | c :: rest =>
                  if 0xE0 ≤ a.toNat ∧ a.toNat < 0xF0 ∧ isContinuation b ∧ isContinuation c ∧
                      0x800 ≤ continued (a.toNat % 0x10) [b, c] then
                    (decodeUtf8 rest).map (Fin.ofNat _ (continued (a.toNat % 0x10) [b, c]) :: ·)
                  else
                    match rest with
                    | [] => none
                    | d :: rest =>
                        if 0xF0 ≤ a.toNat ∧ a.toNat < 0xF5 ∧ isContinuation b ∧
                            isContinuation c ∧ isContinuation d ∧
                            0x10000 ≤ continued (a.toNat % 0x08) [b, c, d] ∧
                            continued (a.toNat % 0x08) [b, c, d] < 0x110000 then
                          (decodeUtf8 rest).map
                            (Fin.ofNat _ (continued (a.toNat % 0x08) [b, c, d]) :: ·)
                        else none

/-- The number of bytes, of which the first or the last is the highest. -/
def unit (bigEndian : Bool) (bytes : PyBytes) : Nat :=
  ofDigits 256 ((if bigEndian then bytes else bytes.reverse).map UInt8.toNat)

/-- `data.decode("utf-16-be", "surrogatepass")`, or `"utf-16-le"`. -/
def decodeUtf16 (bigEndian : Bool) (data : PyBytes) : Option PyStr :=
  (units data).map joinSurrogates
where
  /-- The halves of the pairs apart. -/
  units : PyBytes → Option PyStr
    | [] => some []
    | [_] => none
    | a :: b :: rest => (units rest).map (Fin.ofNat _ (unit bigEndian [a, b]) :: ·)

/-- `data.decode("utf-32-be", "surrogatepass")`, or `"utf-32-le"`. -/
def decodeUtf32 (bigEndian : Bool) : PyBytes → Option PyStr
  | [] => some []
  | a :: b :: c :: d :: rest =>
      if unit bigEndian [a, b, c, d] < 0x110000 then
        (decodeUtf32 bigEndian rest).map (Fin.ofNat _ (unit bigEndian [a, b, c, d]) :: ·)
      else none
  | _ => none

end PyBytes

namespace Json

open PyBytes

/-- The text of bytes whose encoding `detect_encoding` tells from the mark at their beginning. -/
def decodeMarked (data : PyBytes) : Option (Option PyStr) :=
  if [0x00, 0x00, 0xFE, 0xFF].isPrefixOf data then some (decodeUtf32 true (data.drop 4))
  else if [0xFF, 0xFE, 0x00, 0x00].isPrefixOf data then some (decodeUtf32 false (data.drop 4))
  else if [0xFE, 0xFF].isPrefixOf data then some (decodeUtf16 true (data.drop 2))
  else if [0xFF, 0xFE].isPrefixOf data then some (decodeUtf16 false (data.drop 2))
  else if [0xEF, 0xBB, 0xBF].isPrefixOf data then some (decodeUtf8 (data.drop 3))
  else none

/-- The text of bytes without a mark, whose encoding is told from where their first zeros are. -/
def decodeUnmarked (data : PyBytes) : Option PyStr :=
  match data with
  | a :: b :: c :: d :: _ =>
      if a = 0 then if b = 0 then decodeUtf32 true data else decodeUtf16 true data
      else if b = 0 then
        if c = 0 ∧ d = 0 then decodeUtf32 false data else decodeUtf16 false data
      else decodeUtf8 data
  | [a, b] =>
      if a = 0 then decodeUtf16 true data
      else if b = 0 then decodeUtf16 false data
      else decodeUtf8 data
  | _ => decodeUtf8 data

/-- `data.decode(detect_encoding(data), "surrogatepass")`. -/
def decodeDetected (data : PyBytes) : Option PyStr :=
  (decodeMarked data).getD (decodeUnmarked data)

/-- `json.loads(data)` of bytes. -/
def loadsBytes (data : PyBytes) : Option Json :=
  (decodeDetected data).bind loads

/-! ## Text in ASCII -/

/-- A character that ASCII shows. -/
def Printable (text : PyStr) : Prop :=
  ∀ c ∈ text, 0x20 ≤ c.val ∧ c.val < 0x7F

instance (text : PyStr) : Decidable (Printable text) :=
  List.decidableBAll _ text

theorem printable_append {s t : PyStr} : Printable (s ++ t) ↔ Printable s ∧ Printable t :=
  List.forall_mem_append

theorem printable_cons {c : PyChar} {s : PyStr} :
    Printable (c :: s) ↔ (0x20 ≤ c.val ∧ c.val < 0x7F) ∧ Printable s :=
  List.forall_mem_cons

/-- `text.encode()` of text in ASCII. -/
def asciiBytes (text : PyStr) : PyBytes :=
  text.map fun c ↦ c.val.toUInt8

/-- The bytes of such a text are its encoding. -/
theorem encode_printable {text : PyStr} (h : Printable text) :
    text.encode = .ok (asciiBytes text) := by
  have hencodable : PyStr.Encodable text :=
    PyStr.encodable_of_ascii fun c hc ↦ by
      have := h c hc
      omega
  rw [PyStr.encode, if_pos hencodable, asciiBytes]
  congr 1
  rw [← List.flatMap_singleton' (text.map _), List.flatMap_map]
  refine List.flatMap_congr fun c hc ↦ ?_
  have hc := h c hc
  simp only [PyStr.utf8]
  rw [if_pos (by omega)]

/-- A character is read back from its byte. -/
theorem to_nat_of_printable {c : PyChar} (h : 0x20 ≤ c.val ∧ c.val < 0x7F) :
    c.val.toUInt8.toNat = c.val := by
  simp only [Nat.toUInt8, UInt8.toNat_ofNat']
  omega

theorem decode_utf8_printable {text : PyStr} (h : Printable text) :
    decodeUtf8 (asciiBytes text) = some text := by
  induction text with
  | nil => rfl
  | cons c text ih =>
      obtain ⟨hc, htext⟩ := printable_cons.mp h
      have hbyte := to_nat_of_printable hc
      rw [asciiBytes, List.map_cons, decodeUtf8.eq_def]
      dsimp only
      rw [← asciiBytes, if_pos (by omega), ih htext, hbyte]
      show some (Fin.ofNat _ c.val :: text) = _
      rw [Fin.ofNat_val_eq_self]

/-- No byte of it is a zero or stands in a mark. -/
theorem byte_of_printable {text : PyStr} (h : Printable text) {b : UInt8}
    (hb : b ∈ asciiBytes text) : 0 < b.toNat ∧ b.toNat < 0x7F := by
  obtain ⟨c, hc, rfl⟩ := List.mem_map.mp hb
  have hval := h c hc
  rw [to_nat_of_printable hval]
  omega

/-- Its encoding is told to be UTF-8. -/
theorem decode_detected_printable {text : PyStr} (h : Printable text) :
    decodeDetected (asciiBytes text) = some text := by
  have hbytes := fun b ↦ @byte_of_printable text h b
  have hdecode := decode_utf8_printable h
  revert hbytes hdecode
  generalize asciiBytes text = data
  intro hbytes hdecode
  have hzero : ∀ b ∈ data, b ≠ 0 := fun b hb hzero ↦ by
    have := hbytes b hb
    rw [hzero] at this
    exact absurd this.1 (by decide)
  have hmark : decodeMarked data = none := by
    cases data with
    | nil => rfl
    | cons a data =>
        have ha := (hbytes a List.mem_cons_self)
        have hne : ∀ mark : UInt8, mark.toNat = 0 ∨ 0x7F ≤ mark.toNat → (mark == a) = false := by
          intro mark hmark
          refine beq_eq_false_iff_ne.mpr fun heq ↦ ?_
          rw [heq] at hmark
          omega
        simp only [decodeMarked, List.isPrefixOf, hne 0x00 (by decide), hne 0xFF (by decide),
          hne 0xFE (by decide), hne 0xEF (by decide), Bool.false_and, Bool.false_eq_true, if_false]
  have hunmarked : decodeUnmarked data = decodeUtf8 data := by
    unfold decodeUnmarked
    split
    · next a b c d rest =>
        rw [if_neg (hzero a (by simp)), if_neg (hzero b (by simp))]
    · next a b =>
        rw [if_neg (hzero a (by simp)), if_neg (hzero b (by simp))]
    · rfl
  rw [decodeDetected, hmark, hunmarked, hdecode]
  rfl

/-- Its bytes are read as the text is. -/
theorem loads_bytes_printable {text : PyStr} (h : Printable text) :
    loadsBytes (asciiBytes text) = loads text := by
  rw [loadsBytes, decode_detected_printable h]
  rfl

/-! ## What is written is ASCII -/

theorem printable_of_number {text : PyStr} (h : ∀ c ∈ text, isNumberChar c) : Printable text := by
  intro c hc
  have hchar := h c hc
  simp only [isNumberChar, Bool.or_eq_true, Bool.and_eq_true, decide_eq_true_eq,
    beq_iff_eq] at hchar
  rcases hchar with hchar | rfl
  · omega
  · decide

theorem printable_number_escape (n : Nat) : Printable (numberEscape n) := by
  refine printable_append.mpr ⟨by decide, fun c hc ↦ ?_⟩
  have := PyStr.val_of_mem_hex hc
  omega

/-- A character is written in ASCII. -/
theorem printable_escape_ascii (c : PyChar) : Printable (escapeAscii c) := by
  unfold escapeAscii
  split_ifs with h₁ h₂ h₃ h₄ h₅ h₆ h₇ h₈ h₉
  · decide
  · decide
  · decide
  · decide
  · decide
  · decide
  · decide
  · exact List.forall_mem_singleton.mpr (by omega)
  · exact printable_number_escape _
  · exact printable_append.mpr ⟨printable_number_escape _, printable_number_escape _⟩

theorem printable_quoted (s : PyStr) : Printable (quoted (stringBody s)) := by
  refine printable_cons.mpr ⟨by decide, printable_append.mpr ⟨fun c hc ↦ ?_, by decide⟩⟩
  obtain ⟨d, -, hd⟩ := List.mem_flatMap.mp hc
  exact printable_escape_ascii d c hd

theorem printable_intercalate {parts : List PyStr} (h : ∀ part ∈ parts, Printable part) :
    Printable ([pyChar ','].intercalate parts) := by
  induction parts with
  | nil => exact fun _ hc ↦ absurd hc List.not_mem_nil
  | cons part parts ih =>
      obtain ⟨hpart, hparts⟩ := List.forall_mem_cons.mp h
      cases parts with
      | nil => rwa [List.intercalate_singleton]
      | cons next parts =>
          rw [List.intercalate_cons_cons]
          exact printable_append.mpr ⟨printable_append.mpr ⟨hpart, by decide⟩, ih hparts⟩

/-- `json.dumps` writes ASCII. -/
theorem printable_dumps {value : Json} (h : value.Valid) : Printable (dumps value) := by
  induction h with
  | null => decide
  | bool value => cases value <;> decide
  | int value => exact printable_of_number (number_chars_int value)
  | float _ => exact printable_of_number (number_chars_float _)
  | infinity negative => cases negative <;> decide
  | nan => decide
  | str value => exact printable_quoted value
  | list _ ih =>
      rw [dumps_list]
      refine printable_cons.mpr ⟨by decide, printable_append.mpr ⟨?_, by decide⟩⟩
      exact printable_intercalate (List.forall_mem_map.mpr ih)
  | object _ _ ih =>
      rw [dumps_object]
      refine printable_cons.mpr ⟨by decide, printable_append.mpr ⟨?_, by decide⟩⟩
      refine printable_intercalate (List.forall_mem_map.mpr fun field hfield ↦ ?_)
      exact printable_append.mpr ⟨printable_quoted _, printable_cons.mpr
        ⟨by decide, ih field hfield⟩⟩

/-- The bytes of what is written are read as the value, with its pairs joined. -/
theorem loads_bytes_dumps {value : Json} (h : value.Valid) :
    loadsBytes (asciiBytes (dumps value)) = some value.joined := by
  rw [loads_bytes_printable (printable_dumps h), loads_dumps h]

/-- Text without surrogates has no pair to join. -/
theorem join_surrogates_of_encodable {s : PyStr} (h : PyStr.Encodable s) :
    joinSurrogates s = s := by
  induction s using joinSurrogates.induct with
  | case1 a b rest hpair ih =>
      have ha := h a List.mem_cons_self
      simp only [PyStr.isSurrogate, Bool.and_eq_false_iff, decide_eq_false_iff_not] at ha
      omega
  | case2 a b rest hpair ih =>
      rw [joinSurrogates, if_neg hpair, ih (List.forall_mem_cons.mp h).2]
  | case3 s hs =>
      rw [joinSurrogates.eq_def]
      split
      · exact (hs _ _ _ rfl).elim
      · rfl

theorem Printable.encodable {text : PyStr} (h : Printable text) : PyStr.Encodable text :=
  PyStr.encodable_of_ascii fun c hc ↦ by
    have := h c hc
    omega

end Json

end Aegis.Server
