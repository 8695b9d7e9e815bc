import Aegis.Lib.Escape
import Aegis.Server.Builtins
import Aegis.Server.Json.Loads

/-!
# The Common Event Format

How a collector reads a line, and how a line has to be written for that. A header field ends at a
bar that no backslash stands before. In the extension an equals sign that no backslash stands
before ends a key, which begins after the last space before it.
-/

namespace Aegis.Export.Cef

open Server Json Escape

/-- The mark of an escape. -/
abbrev mark : PyChar := pyChar '\\'

/-- An event as a collector sees it: the fields of the header and the pairs of the extension. -/
structure Event where
  header : List PyStr
  extension : List (PyStr × PyStr)
  deriving DecidableEq

/-- Text that a collector does not break. -/
def OneLine (s : PyStr) : Prop :=
  ∀ c ∈ s, c ≠ pyChar '\n' ∧ c ≠ pyChar '\r'

instance (s : PyStr) : Decidable (OneLine s) :=
  List.decidableBAll _ s

/-- A letter or a digit of ASCII. -/
def isKeyChar (c : PyChar) : Bool :=
  (48 ≤ c.val && c.val ≤ 57) || (65 ≤ c.val && c.val ≤ 90) || (97 ≤ c.val && c.val ≤ 122)

/-- What may stand before an equals sign. -/
def IsKey (key : PyStr) : Prop :=
  key ≠ [] ∧ ∀ c ∈ key, isKeyChar c

instance (key : PyStr) : Decidable (IsKey key) :=
  @instDecidableAnd _ _ inferInstance (List.decidableBAll _ key)

/-! ## Reading -/

/-- The escapes of the header. -/
def headerEscape (c : PyChar) : Option PyChar :=
  if c = mark ∨ c = pyChar '|' then some c else none

/-- The escapes of the extension. -/
def extensionEscape (c : PyChar) : Option PyChar :=
  if c = mark ∨ c = pyChar '=' then some c
  else if c = pyChar 'n' then some (pyChar '\n')
  else if c = pyChar 'r' then some (pyChar '\r')
  else none

/-- The next `count` fields of the header, and what stands after them. -/
def readHeader : Nat → List (Token PyChar) → Option (List PyStr × List (Token PyChar))
  | 0, ts => some ([], ts)
  | count + 1, ts => do
      let (piece, rest) ← cut (pyChar '|') ts
      let field ← unescape headerEscape piece
      let (fields, rest) ← readHeader count rest
      some (field :: fields, rest)

/-- A condition on the tokens of a text is checked token by token. -/
instance decidableForallToken (p : Token PyChar → Prop) [DecidablePred p] (ts : List (Token PyChar)) :
    Decidable (∀ t ∈ ts, p t) :=
  List.decidableBAll p ts

/-- A key of the extension. -/
def readKey (ts : List (Token PyChar)) : Option PyStr :=
  if (∀ t ∈ ts, t.1 = false) ∧ IsKey (ts.map Prod.snd) then some (ts.map Prod.snd) else none

/-- The pairs of the extension, of which `key` is the first key, from what stands between the
equals signs. -/
def readPairs (key : PyStr) : List (List (Token PyChar)) → Option (List (PyStr × PyStr))
  | [] => none
  | [piece] => do
      let value ← unescape extensionEscape piece
      some [(key, value)]
  | piece :: next :: pieces => do
      let (before, name) ← cutLast (pyChar ' ') piece
      let value ← unescape extensionEscape before
      let following ← readKey name
      let pairs ← readPairs following (next :: pieces)
      some ((key, value) :: pairs)

/-- The extension. -/
def readExtension (ts : List (Token PyChar)) : Option (List (PyStr × PyStr)) :=
  match segments (pyChar '=') ts with
  | [] => none
  | [only] => if only = [] then some [] else none
  | name :: pieces => do
      let key ← readKey name
      readPairs key pieces

/-- What a collector reads in a line, or `none` if it is malformed. -/
def parse (line : PyStr) : Option Event := do
  let ts ← tokens mark line
  let (header, rest) ← readHeader 7 ts
  let extension ← readExtension rest
  some ⟨header, extension⟩

/-! ## Writing -/

/-- A character of the header as it has to be written. -/
def headerToken (c : PyChar) : Token PyChar :=
  (c = mark ∨ c = pyChar '|', c)

/-- A character of a value as it has to be written. -/
def valueToken (c : PyChar) : Token PyChar :=
  if c = pyChar '\n' then (true, pyChar 'n')
  else if c = pyChar '\r' then (true, pyChar 'r')
  else (c = mark ∨ c = pyChar '=', c)

/-- A field of the header as it has to be written. -/
def writeField (field : PyStr) : PyStr :=
  (field.map headerToken).flatMap (written mark)

/-- A value as it has to be written. -/
def writeValue (value : PyStr) : PyStr :=
  (value.map valueToken).flatMap (written mark)

/-- A pair of the extension. -/
def writePair (pair : PyStr × PyStr) : PyStr :=
  pair.1 ++ py "=" ++ writeValue pair.2

/-- The line of an event. -/
def Event.write (event : Event) : PyStr :=
  PyStr.join (py "|") (event.header.map writeField) ++ py "|" ++
    PyStr.join (py " ") (event.extension.map writePair)

/-! ## What is written is read back -/

theorem proper_header_token (c : PyChar) : Proper mark (headerToken c) := by
  intro hplain hc
  exact absurd (.inl hc) (of_decide_eq_false hplain)

theorem proper_value_token (c : PyChar) : Proper mark (valueToken c) := by
  unfold valueToken
  split_ifs with hn hr
  · exact nofun
  · exact nofun
  · intro hplain hc
    exact absurd (.inl hc) (of_decide_eq_false hplain)

theorem header_token_ne (c : PyChar) : (false, pyChar '|') ≠ headerToken c := by
  intro h
  obtain ⟨hplain, hc⟩ := Prod.mk.inj h
  exact of_decide_eq_false hplain.symm (.inr hc.symm)

theorem value_token_ne (c : PyChar) : (false, pyChar '=') ≠ valueToken c := by
  unfold valueToken
  split_ifs with hn hr
  · exact nofun
  · exact nofun
  · intro h
    obtain ⟨hplain, hc⟩ := Prod.mk.inj h
    exact of_decide_eq_false hplain.symm (.inr hc.symm)

/-- A field of the header is read back. -/
theorem unescape_header_token (field : PyStr) :
    unescape headerEscape (field.map headerToken) = some field := by
  refine unescape_map fun c _ ↦ ?_
  by_cases h : c = mark ∨ c = pyChar '|'
  · simp only [headerToken, h, decide_true, if_true, headerEscape]
  · simp only [headerToken, h, decide_false, Bool.false_eq_true, if_false]

/-- A value is read back. -/
theorem unescape_value_token (value : PyStr) :
    unescape extensionEscape (value.map valueToken) = some value := by
  refine unescape_map fun c _ ↦ ?_
  by_cases hn : c = pyChar '\n'
  · rw [hn]
    rfl
  · by_cases hr : c = pyChar '\r'
    · rw [hr]
      rfl
    · rw [valueToken, if_neg hn, if_neg hr]
      by_cases h : c = mark ∨ c = pyChar '='
      · simp only [h, decide_true, if_true, extensionEscape]
      · simp only [h, decide_false, Bool.false_eq_true, if_false]

/-- The tokens of the header as it is written, with the bar after the last field. -/
def headerTokens (header : List PyStr) : List (Token PyChar) :=
  header.flatMap fun field ↦ field.map headerToken ++ [(false, pyChar '|')]

/-- The tokens of a key. -/
def keyTokens (key : PyStr) : List (Token PyChar) :=
  key.map fun c ↦ (false, c)

/-- The tokens of the extension as it is written. -/
def extensionTokens : List (PyStr × PyStr) → List (Token PyChar)
  | [] => []
  | [pair] => keyTokens pair.1 ++ (false, pyChar '=') :: pair.2.map valueToken
  | pair :: next :: pairs =>
      keyTokens pair.1 ++ (false, pyChar '=') ::
        (pair.2.map valueToken ++ (false, pyChar ' ') :: extensionTokens (next :: pairs))

/-- The tokens of the pairs after a value. -/
def furtherTokens : List (PyStr × PyStr) → List (Token PyChar)
  | [] => []
  | pair :: pairs => (false, pyChar ' ') :: extensionTokens (pair :: pairs)

theorem extension_tokens_cons (pair : PyStr × PyStr) (pairs : List (PyStr × PyStr)) :
    extensionTokens (pair :: pairs) =
      keyTokens pair.1 ++ (false, pyChar '=') ::
        (pair.2.map valueToken ++ furtherTokens pairs) := by
  cases pairs with
  | nil => rw [extensionTokens, furtherTokens, List.append_nil]
  | cons next pairs => rw [extensionTokens, furtherTokens]

/-- A header is read back, up to what stands after it. -/
theorem read_header_tokens (header : List PyStr) (rest : List (Token PyChar)) :
    readHeader header.length (headerTokens header ++ rest) = some (header, rest) := by
  induction header with
  | nil => rfl
  | cons field header ih =>
      have hcut : cut (pyChar '|') (headerTokens (field :: header) ++ rest) =
          some (field.map headerToken, headerTokens header ++ rest) := by
        have hmem : (false, pyChar '|') ∉ field.map headerToken := by
          intro h
          obtain ⟨c, -, hc⟩ := List.mem_map.mp h
          exact header_token_ne c hc.symm
        rw [headerTokens, List.flatMap_cons, List.append_assoc, List.append_assoc]
        exact cut_append hmem _
      rw [List.length_cons, readHeader, hcut]
      show ((unescape headerEscape (field.map headerToken)).bind fun field ↦
        (readHeader header.length (headerTokens header ++ rest)).bind fun read ↦
          some (field :: read.1, read.2)) = _
      rw [unescape_header_token, ih]
      rfl

/-- A key has no character that is marked off from others. -/
theorem not_mem_key_tokens {key : PyStr} (hkey : IsKey key) {c : PyChar}
    (hc : isKeyChar c = false) : (false, c) ∉ keyTokens key := by
  intro h
  obtain ⟨d, hd, heq⟩ := List.mem_map.mp h
  have hkeyChar := hkey.2 d hd
  rw [(Prod.mk.inj heq).2, hc] at hkeyChar
  exact Bool.false_ne_true hkeyChar

/-- A key is read back. -/
theorem read_key_tokens {key : PyStr} (hkey : IsKey key) :
    readKey (keyTokens key) = some key := by
  have hplain : ∀ t ∈ keyTokens key, t.1 = false := by
    intro t ht
    obtain ⟨c, -, rfl⟩ := List.mem_map.mp ht
    rfl
  have hmap : (keyTokens key).map Prod.snd = key := by
    rw [keyTokens, List.map_map]
    exact List.map_id key
  rw [readKey, hmap, if_pos ⟨hplain, hkey⟩]

theorem not_mem_value_tokens (value : PyStr) :
    (false, pyChar '=') ∉ value.map valueToken := by
  intro h
  obtain ⟨c, -, hc⟩ := List.mem_map.mp h
  exact value_token_ne c hc.symm

/-- The pairs after a key are read back. -/
theorem read_pairs_tokens {key value : PyStr} {pairs : List (PyStr × PyStr)}
    (hpairs : ∀ pair ∈ pairs, IsKey pair.1) :
    readPairs key (segments (pyChar '=') (value.map valueToken ++ furtherTokens pairs)) =
      some ((key, value) :: pairs) := by
  induction pairs generalizing key value with
  | nil =>
      rw [furtherTokens, List.append_nil, segments_of_not_mem (not_mem_value_tokens value),
        readPairs, unescape_value_token]
      rfl
  | cons pair pairs ih =>
      obtain ⟨hkey, hrest⟩ := List.forall_mem_cons.mp hpairs
      obtain ⟨following, next⟩ := pair
      have hfront : (false, pyChar '=') ∉
          value.map valueToken ++ (false, pyChar ' ') :: keyTokens following := by
        intro h
        rcases List.mem_append.mp h with h | h
        · exact not_mem_value_tokens value h
        · rcases List.mem_cons.mp h with h | h
          · exact absurd h (by decide)
          · exact not_mem_key_tokens hkey (by decide) h
      have hsegments : segments (pyChar '=')
          (value.map valueToken ++ furtherTokens ((following, next) :: pairs)) =
          (value.map valueToken ++ (false, pyChar ' ') :: keyTokens following) ::
            segments (pyChar '=') (next.map valueToken ++ furtherTokens pairs) := by
        rw [← segments_append hfront, furtherTokens, extension_tokens_cons]
        simp only [List.append_assoc, List.cons_append]
      have hlast : cutLast (pyChar ' ')
          (value.map valueToken ++ (false, pyChar ' ') :: keyTokens following) =
          some (value.map valueToken, keyTokens following) :=
        cut_last_append (not_mem_key_tokens hkey (by decide)) _
      have hread := @ih following next hrest
      obtain ⟨piece, pieces, hpieces⟩ := List.exists_cons_of_ne_nil
        (segments_ne_nil (pyChar '=') (next.map valueToken ++ furtherTokens pairs))
      rw [hpieces] at hread
      rw [hsegments, hpieces, readPairs, hlast]
      show ((unescape extensionEscape (value.map valueToken)).bind fun value ↦
        (readKey (keyTokens following)).bind fun following ↦
          (readPairs following (piece :: pieces)).bind fun pairs ↦
            some ((key, value) :: pairs)) = _
      rw [unescape_value_token, read_key_tokens hkey]
      show ((readPairs following (piece :: pieces)).bind fun pairs ↦
        some ((key, value) :: pairs)) = _
      rw [hread]
      rfl

/-- The extension is read back. -/
theorem read_extension_tokens {extension : List (PyStr × PyStr)}
    (h : ∀ pair ∈ extension, IsKey pair.1) :
    readExtension (extensionTokens extension) = some extension := by
  cases extension with
  | nil => rfl
  | cons pair pairs =>
      obtain ⟨hkey, hpairs⟩ := List.forall_mem_cons.mp h
      have hsegments : segments (pyChar '=') (extensionTokens (pair :: pairs)) =
          keyTokens pair.1 ::
            segments (pyChar '=') (pair.2.map valueToken ++ furtherTokens pairs) := by
        rw [extension_tokens_cons]
        exact segments_append (not_mem_key_tokens hkey (by decide)) _
      have hrest := @read_pairs_tokens pair.1 pair.2 pairs hpairs
      obtain ⟨piece, pieces, hpieces⟩ := List.exists_cons_of_ne_nil
        (segments_ne_nil (pyChar '=') (pair.2.map valueToken ++ furtherTokens pairs))
      rw [hpieces] at hrest hsegments
      rw [readExtension, hsegments]
      show ((readKey (keyTokens pair.1)).bind fun key ↦ readPairs key (piece :: pieces)) = _
      rw [read_key_tokens hkey]
      exact hrest

/-- The tokens of a line. -/
def Event.tokens (event : Event) : List (Token PyChar) :=
  headerTokens event.header ++ extensionTokens event.extension

/-- A key is written as it is. -/
theorem written_key_tokens (key : PyStr) : (keyTokens key).flatMap (written mark) = key := by
  rw [keyTokens, List.flatMap_map]
  exact List.flatMap_singleton' key

theorem written_extension_tokens (extension : List (PyStr × PyStr)) :
    (extensionTokens extension).flatMap (written mark) =
      PyStr.join (py " ") (extension.map writePair) := by
  induction extension with
  | nil => rfl
  | cons pair pairs ih =>
      have hpair : ∀ rest, (extensionTokens (pair :: pairs)).flatMap (written mark) =
          writePair pair ++ rest ↔ (furtherTokens pairs).flatMap (written mark) = rest := by
        intro rest
        rw [extension_tokens_cons, List.flatMap_append, List.flatMap_cons, List.flatMap_append,
          written_key_tokens, writePair, writeValue]
        show pair.1 ++ (py "=" ++ (_ ++ _)) = _ ↔ _
        rw [← List.append_assoc, ← List.append_assoc]
        exact List.append_right_inj _
      cases pairs with
      | nil =>
          rw [List.map_cons, List.map_nil, PyStr.join, ← List.append_nil (writePair pair), hpair]
          rfl
      | cons next pairs =>
          rw [List.map_cons, List.map_cons, PyStr.join, List.append_assoc, hpair, furtherTokens,
            List.flatMap_cons, ih, List.map_cons]
          rfl

theorem written_header_tokens {header : List PyStr} (h : header ≠ []) :
    (headerTokens header).flatMap (written mark) =
      PyStr.join (py "|") (header.map writeField) ++ py "|" := by
  induction header with
  | nil => exact absurd rfl h
  | cons field header ih =>
      have hfield : (headerTokens (field :: header)).flatMap (written mark) =
          writeField field ++ (py "|" ++ (headerTokens header).flatMap (written mark)) := by
        rw [headerTokens, List.flatMap_cons, List.flatMap_append, List.flatMap_append,
          List.append_assoc]
        rfl
      rw [hfield]
      cases header with
      | nil => rfl
      | cons next header =>
          rw [ih (List.cons_ne_nil _ _)]
          simp only [List.map_cons, PyStr.join, List.append_assoc]

/-- A line is written as its tokens. -/
theorem Event.written_tokens {event : Event} (h : event.header ≠ []) :
    event.tokens.flatMap (written mark) = event.write := by
  rw [Event.tokens, List.flatMap_append, written_header_tokens h, written_extension_tokens]
  rfl

theorem proper_of_mem_header_tokens {header : List PyStr} {t : Token PyChar}
    (h : t ∈ headerTokens header) : Proper mark t := by
  obtain ⟨field, -, ht⟩ := List.mem_flatMap.mp h
  rcases List.mem_append.mp ht with ht | ht
  · obtain ⟨c, -, rfl⟩ := List.mem_map.mp ht
    exact proper_header_token c
  · rw [List.mem_singleton.mp ht]
    exact fun _ ↦ by decide

theorem proper_of_mem_key_tokens {key : PyStr} (hkey : IsKey key) {t : Token PyChar}
    (h : t ∈ keyTokens key) : Proper mark t := by
  obtain ⟨c, hc, rfl⟩ := List.mem_map.mp h
  intro _ heq
  have hkeyChar := hkey.2 c hc
  rw [show c = mark from heq] at hkeyChar
  exact absurd hkeyChar (by decide)

theorem proper_of_mem_extension_tokens {extension : List (PyStr × PyStr)}
    (hkeys : ∀ pair ∈ extension, IsKey pair.1) {t : Token PyChar}
    (h : t ∈ extensionTokens extension) : Proper mark t := by
  induction extension with
  | nil => cases h
  | cons pair pairs ih =>
      obtain ⟨hkey, hpairs⟩ := List.forall_mem_cons.mp hkeys
      rw [extension_tokens_cons] at h
      rcases List.mem_append.mp h with h | h
      · exact proper_of_mem_key_tokens hkey h
      rcases List.mem_cons.mp h with rfl | h
      · exact fun _ ↦ by decide
      rcases List.mem_append.mp h with h | h
      · obtain ⟨c, -, rfl⟩ := List.mem_map.mp h
        exact proper_value_token c
      · cases pairs with
        | nil => cases h
        | cons next pairs =>
            rcases List.mem_cons.mp h with rfl | h
            · exact fun _ ↦ by decide
            · exact ih hpairs h

/-- A collector reads the event that was written. -/
theorem parse_write {event : Event} (hheader : event.header.length = 7)
    (hkeys : ∀ pair ∈ event.extension, IsKey pair.1) : parse event.write = some event := by
  have hne : event.header ≠ [] := fun h ↦ by
    rw [h] at hheader
    exact absurd hheader (by decide)
  have htokens : tokens mark event.write = some event.tokens := by
    rw [← Event.written_tokens hne]
    refine tokens_written fun t ht ↦ ?_
    rcases List.mem_append.mp ht with ht | ht
    · exact proper_of_mem_header_tokens ht
    · exact proper_of_mem_extension_tokens hkeys ht
  have hread : readHeader 7 event.tokens =
      some (event.header, extensionTokens event.extension) := by
    rw [← hheader]
    exact read_header_tokens _ _
  simp only [parse, htokens, hread, read_extension_tokens hkeys, Option.bind_eq_bind,
    Option.bind_some]

/-! ## Lines -/

/-- Text is one line when its parts are. -/
theorem one_line_append {s t : PyStr} : OneLine (s ++ t) ↔ OneLine s ∧ OneLine t :=
  List.forall_mem_append

theorem one_line_join {separator : PyStr} (hseparator : OneLine separator) (parts : List PyStr) :
    OneLine (PyStr.join separator parts) ↔ ∀ part ∈ parts, OneLine part := by
  constructor
  · exact fun h part hpart c hc ↦ h c (PyStr.mem_join_of_mem hpart hc)
  · intro h c hc
    rcases PyStr.mem_of_mem_join hc with hc | ⟨part, hpart, hc⟩
    · exact hseparator c hc
    · exact h part hpart c hc

/-- Escaping does not break a field of the header, and does not mend it. -/
theorem one_line_write_field (field : PyStr) : OneLine (writeField field) ↔ OneLine field := by
  have hwritten : ∀ c, OneLine (written mark (headerToken c)) ↔
      c ≠ pyChar '\n' ∧ c ≠ pyChar '\r' := by
    intro c
    by_cases h : c = mark ∨ c = pyChar '|'
    · simp only [headerToken, h, decide_true, written, if_true]
      rcases h with rfl | rfl <;> decide
    · simp [headerToken, h, written, OneLine]
  simp only [OneLine, writeField, List.flatMap_map, List.mem_flatMap, forall_exists_index, and_imp]
  constructor
  · exact fun h c hc ↦ (hwritten c).mp fun d hd ↦ h d c hc hd
  · exact fun h d c hc hd ↦ (hwritten c).mpr (h c hc) d hd

/-- A value is written without line breaks. -/
theorem one_line_write_value (value : PyStr) : OneLine (writeValue value) := by
  have hwritten : ∀ c, OneLine (written mark (valueToken c)) := by
    intro c
    unfold valueToken
    split_ifs with hn hr
    · decide
    · decide
    · by_cases h : c = mark ∨ c = pyChar '='
      · simp only [h, decide_true, written, if_true]
        rcases h with rfl | rfl <;> decide
      · simp [h, written, OneLine, hn, hr]
  intro d hd
  obtain ⟨t, ht, hd⟩ := List.mem_flatMap.mp hd
  obtain ⟨c, -, rfl⟩ := List.mem_map.mp ht
  exact hwritten c d hd

theorem one_line_of_is_key {key : PyStr} (hkey : IsKey key) : OneLine key := by
  intro c hc
  have hkeyChar := hkey.2 c hc
  constructor <;> rintro rfl <;> exact absurd hkeyChar (by decide)

/-- An event is written on one line when its header has no line break. -/
theorem Event.one_line_write {event : Event} (hkeys : ∀ pair ∈ event.extension, IsKey pair.1) :
    OneLine event.write ↔ ∀ field ∈ event.header, OneLine field := by
  have hextension : OneLine (PyStr.join (py " ") (event.extension.map writePair)) := by
    refine (one_line_join (by decide) _).mpr fun part hpart ↦ ?_
    obtain ⟨pair, hpair, rfl⟩ := List.mem_map.mp hpart
    refine one_line_append.mpr ⟨one_line_append.mpr ⟨?_, by decide⟩, one_line_write_value _⟩
    exact one_line_of_is_key (hkeys pair hpair)
  have hbar : OneLine (py "|") := by decide
  rw [Event.write, one_line_append, one_line_append, one_line_join hbar, List.forall_mem_map]
  simp only [one_line_write_field, hbar, hextension, and_true]

/-! ## Lines without escapes

A line is as long as the fields, keys and values read in it, the separators between them and the
escapes. One that is no longer than the first two has no escape, so that what is read in it stands
there as it is.
-/

/-- The length of an event's line where nothing is escaped, and one more. -/
def Event.weight (event : Event) : Nat :=
  (event.header.map fun field ↦ field.length + 1).sum +
    (event.extension.map fun pair ↦ pair.1.length + pair.2.length + 2).sum

/-- What was read in the header, by its length. -/
theorem length_of_read_header {count : Nat} {ts rest : List (Token PyChar)} {header : List PyStr}
    (h : readHeader count ts = some (header, rest)) :
    ts.length = (header.map fun field ↦ field.length + 1).sum + rest.length := by
  induction count generalizing ts header with
  | zero =>
      obtain ⟨rfl, rfl⟩ := Prod.mk.inj (Option.some.inj h)
      simp
  | succ count ih =>
      obtain ⟨⟨piece, following⟩, hcut, h⟩ := Option.bind_eq_some_iff.mp h
      obtain ⟨field, hfield, h⟩ := Option.bind_eq_some_iff.mp h
      obtain ⟨⟨fields, rest'⟩, hread, h⟩ := Option.bind_eq_some_iff.mp h
      obtain ⟨rfl, rfl⟩ := Prod.mk.inj (Option.some.inj h)
      have hlength := ih hread
      rw [(cut_eq_some hcut).1, List.length_append, List.length_cons, List.map_cons, List.sum_cons,
        length_unescape hfield]
      omega

/-- A header read in plain tokens has no bar, and leaves plain tokens. -/
theorem plain_of_read_header {count : Nat} {ts rest : List (Token PyChar)} {header : List PyStr}
    (h : readHeader count ts = some (header, rest)) (hplain : ∀ t ∈ ts, t.1 = false) :
    (∀ field ∈ header, pyChar '|' ∉ field) ∧ ∀ t ∈ rest, t.1 = false := by
  induction count generalizing ts header with
  | zero =>
      obtain ⟨rfl, rfl⟩ := Prod.mk.inj (Option.some.inj h)
      exact ⟨fun _ h ↦ absurd h List.not_mem_nil, hplain⟩
  | succ count ih =>
      obtain ⟨⟨piece, following⟩, hcut, h⟩ := Option.bind_eq_some_iff.mp h
      obtain ⟨field, hfield, h⟩ := Option.bind_eq_some_iff.mp h
      obtain ⟨⟨fields, rest'⟩, hread, h⟩ := Option.bind_eq_some_iff.mp h
      obtain ⟨rfl, rfl⟩ := Prod.mk.inj (Option.some.inj h)
      obtain ⟨rfl, hbar⟩ := cut_eq_some hcut
      obtain ⟨hpiece, hafter⟩ := List.forall_mem_append.mp hplain
      obtain ⟨hfields, hrest⟩ := ih hread (List.forall_mem_cons.mp hafter).2
      refine ⟨List.forall_mem_cons.mpr ⟨fun hmem ↦ ?_, hfields⟩, hrest⟩
      rw [← Option.some.inj ((unescape_plain hpiece).symm.trans hfield)] at hmem
      obtain ⟨t, ht, hchar⟩ := List.mem_map.mp hmem
      exact hbar (by rwa [← hchar, ← hpiece t ht])

/-- A key is as long as its tokens. -/
theorem length_of_read_key {ts : List (Token PyChar)} {key : PyStr} (h : readKey ts = some key) :
    key.length = ts.length := by
  rw [readKey] at h
  split_ifs at h
  rw [← Option.some.inj h, List.length_map]

/-- What was read in the pairs, by its length. -/
theorem length_of_read_pairs {key : PyStr} {pieces : List (List (Token PyChar))}
    {pairs : List (PyStr × PyStr)} (h : readPairs key pieces = some pairs) :
    (pieces.map fun piece ↦ piece.length + 1).sum + key.length + 1 =
      (pairs.map fun pair ↦ pair.1.length + pair.2.length + 2).sum := by
  induction pieces generalizing key pairs with
  | nil => cases h
  | cons piece pieces ih =>
      cases pieces with
      | nil =>
          obtain ⟨value, hvalue, h⟩ := Option.bind_eq_some_iff.mp h
          rw [← Option.some.inj h]
          simp only [List.map_cons, List.map_nil, List.sum_cons, List.sum_nil,
            length_unescape hvalue]
          omega
      | cons next pieces =>
          obtain ⟨⟨before, name⟩, hcut, h⟩ := Option.bind_eq_some_iff.mp h
          obtain ⟨value, hvalue, h⟩ := Option.bind_eq_some_iff.mp h
          obtain ⟨following, hkey, h⟩ := Option.bind_eq_some_iff.mp h
          obtain ⟨rest, hread, h⟩ := Option.bind_eq_some_iff.mp h
          have hlength := ih hread
          rw [length_of_read_key hkey, List.map_cons, List.sum_cons] at hlength
          rw [← Option.some.inj h, cut_last_eq_some hcut]
          simp only [List.map_cons, List.sum_cons, List.length_append, List.length_cons,
            length_unescape hvalue]
          omega

/-- Values read in plain tokens have no equals sign. -/
theorem plain_of_read_pairs {key : PyStr} {pieces : List (List (Token PyChar))}
    {pairs : List (PyStr × PyStr)} (h : readPairs key pieces = some pairs)
    (hpieces : ∀ piece ∈ pieces, (false, pyChar '=') ∉ piece ∧ ∀ t ∈ piece, t.1 = false) :
    ∀ pair ∈ pairs, pyChar '=' ∉ pair.2 := by
  have hvalueOf : ∀ (ts : List (Token PyChar)) (value : PyStr),
      unescape extensionEscape ts = some value → (∀ t ∈ ts, t.1 = false) →
        (false, pyChar '=') ∉ ts → pyChar '=' ∉ value := by
    intro ts value hvalue hplain hsign hmem
    rw [← Option.some.inj ((unescape_plain hplain).symm.trans hvalue)] at hmem
    obtain ⟨t, ht, hchar⟩ := List.mem_map.mp hmem
    exact hsign (by rwa [← hchar, ← hplain t ht])
  induction pieces generalizing key pairs with
  | nil => cases h
  | cons piece pieces ih =>
      obtain ⟨⟨hsign, hplain⟩, hrest⟩ := List.forall_mem_cons.mp hpieces
      cases pieces with
      | nil =>
          obtain ⟨value, hvalue, h⟩ := Option.bind_eq_some_iff.mp h
          rw [← Option.some.inj h]
          exact List.forall_mem_singleton.mpr (hvalueOf piece value hvalue hplain hsign)
      | cons next pieces =>
          obtain ⟨⟨before, name⟩, hcut, h⟩ := Option.bind_eq_some_iff.mp h
          obtain ⟨value, hvalue, h⟩ := Option.bind_eq_some_iff.mp h
          obtain ⟨following, hkey, h⟩ := Option.bind_eq_some_iff.mp h
          obtain ⟨rest, hread, h⟩ := Option.bind_eq_some_iff.mp h
          rw [cut_last_eq_some hcut] at hsign hplain
          rw [← Option.some.inj h]
          refine List.forall_mem_cons.mpr ⟨?_, ih hread hrest⟩
          refine hvalueOf before value hvalue (List.forall_mem_append.mp hplain).1 fun hmem ↦ ?_
          exact hsign (List.mem_append_left _ hmem)

/-- The extension that was read, by its length. -/
theorem length_of_read_extension {ts : List (Token PyChar)} {extension : List (PyStr × PyStr)}
    (h : readExtension ts = some extension) (hne : extension ≠ []) :
    ts.length + 1 = (extension.map fun pair ↦ pair.1.length + pair.2.length + 2).sum := by
  have hlength := length_of_segments (pyChar '=') ts
  rw [readExtension] at h
  split at h
  · cases h
  · split_ifs at h
    exact absurd (Option.some.inj h).symm hne
  · next name pieces _ hsegments =>
      obtain ⟨key, hkey, hread⟩ := Option.bind_eq_some_iff.mp h
      rw [hsegments, List.map_cons, List.sum_cons, ← length_of_read_key hkey] at hlength
      rw [← length_of_read_pairs hread, ← hlength]
      omega

/-- An extension read in plain tokens has no value with an equals sign. -/
theorem plain_of_read_extension {ts : List (Token PyChar)} {extension : List (PyStr × PyStr)}
    (h : readExtension ts = some extension) (hplain : ∀ t ∈ ts, t.1 = false) :
    ∀ pair ∈ extension, pyChar '=' ∉ pair.2 := by
  rw [readExtension] at h
  split at h
  · cases h
  · split_ifs at h
    rw [← Option.some.inj h]
    exact fun _ h ↦ absurd h List.not_mem_nil
  · next name pieces _ hsegments =>
      obtain ⟨key, -, hread⟩ := Option.bind_eq_some_iff.mp h
      refine plain_of_read_pairs hread fun piece hpiece ↦ ?_
      have hmem : piece ∈ segments (pyChar '=') ts := hsegments ▸ List.mem_cons_of_mem _ hpiece
      exact ⟨not_mem_of_mem_segments hmem, fun t ht ↦ hplain t (mem_of_mem_segments hmem ht)⟩

/-- A line no longer than what is read in it has no escapes, and nothing that would need one. -/
theorem plain_of_parse {line : PyStr} {event : Event} (h : parse line = some event)
    (hne : event.extension ≠ []) (hweight : line.length + 1 = event.weight) :
    mark ∉ line ∧ (∀ field ∈ event.header, pyChar '|' ∉ field) ∧
      ∀ pair ∈ event.extension, pyChar '=' ∉ pair.2 := by
  obtain ⟨ts, htokens, h⟩ := Option.bind_eq_some_iff.mp h
  obtain ⟨⟨header, rest⟩, hheader, h⟩ := Option.bind_eq_some_iff.mp h
  obtain ⟨extension, hextension, h⟩ := Option.bind_eq_some_iff.mp h
  obtain rfl := Option.some.inj h
  have hcount : ts.countP Prod.fst = 0 := by
    have hline := length_eq_of_tokens htokens
    have hread := length_of_read_header hheader
    have hrest := length_of_read_extension hextension hne
    simp only [Event.weight] at hweight
    omega
  have hplain : ∀ t ∈ ts, t.1 = false := fun t ht ↦
    Bool.eq_false_iff.mpr (List.countP_eq_zero.mp hcount t ht)
  obtain ⟨hbar, hrest⟩ := plain_of_read_header hheader hplain
  exact ⟨(eq_of_tokens_plain htokens hplain).2, hbar, plain_of_read_extension hextension hrest⟩

/-! ## Lines written without escapes -/

/-- The line of an event, with nothing escaped. -/
def Event.writePlain (event : Event) : PyStr :=
  PyStr.join (py "|") event.header ++ py "|" ++
    PyStr.join (py " ") (event.extension.map fun pair ↦ pair.1 ++ py "=" ++ pair.2)

/-- A field of the header with nothing to escape. -/
structure PlainField (field : PyStr) : Prop where
  one_line : OneLine field
  no_mark : mark ∉ field
  no_bar : pyChar '|' ∉ field

/-- A value with nothing to escape. -/
structure PlainValue (value : PyStr) : Prop where
  one_line : OneLine value
  no_mark : mark ∉ value
  no_sign : pyChar '=' ∉ value

theorem write_field_of_plain {field : PyStr} (h : PlainField field) : writeField field = field := by
  rw [writeField, List.flatMap_map]
  refine (List.flatMap_congr fun c hc ↦ ?_).trans (List.flatMap_singleton' field)
  have hmark : c ≠ mark := fun heq ↦ h.no_mark (heq ▸ hc)
  have hbar : c ≠ pyChar '|' := fun heq ↦ h.no_bar (heq ▸ hc)
  simp [headerToken, written, hmark, hbar]

theorem write_value_of_plain {value : PyStr} (h : PlainValue value) : writeValue value = value := by
  rw [writeValue, List.flatMap_map]
  refine (List.flatMap_congr fun c hc ↦ ?_).trans (List.flatMap_singleton' value)
  have hmark : c ≠ mark := fun heq ↦ h.no_mark (heq ▸ hc)
  have hsign : c ≠ pyChar '=' := fun heq ↦ h.no_sign (heq ▸ hc)
  simp [valueToken, written, hmark, hsign, (h.one_line c hc).1, (h.one_line c hc).2]

/-- The length of a joined text. -/
theorem length_join {separator : PyChar} {parts : List PyStr} (h : parts ≠ []) :
    (PyStr.join [separator] parts).length + 1 = (parts.map fun part ↦ part.length + 1).sum := by
  induction parts using PyStr.join.induct with
  | case1 => exact absurd rfl h
  | case2 part => simp [PyStr.join]
  | case3 part next parts ih =>
      have hlength := ih (List.cons_ne_nil _ _)
      rw [PyStr.join, List.map_cons, List.sum_cons, ← hlength]
      simp only [List.length_append, List.length_singleton]
      omega

/-- A line without escapes is as long as what is written in it. -/
theorem Event.length_write_plain {event : Event} (hheader : event.header ≠ [])
    (hextension : event.extension ≠ []) : event.writePlain.length + 1 = event.weight := by
  have hfields := @length_join (pyChar '|') _ hheader
  have hpairs := @length_join (pyChar ' ')
    (event.extension.map fun pair ↦ pair.1 ++ py "=" ++ pair.2) (by simpa using hextension)
  have hsum : ((event.extension.map fun pair ↦ pair.1 ++ py "=" ++ pair.2).map
      fun part ↦ part.length + 1) =
        event.extension.map fun pair ↦ pair.1.length + pair.2.length + 2 := by
    rw [List.map_map]
    refine List.map_congr_left fun pair _ ↦ ?_
    simp only [Function.comp_apply, List.length_append, show (py "=").length = 1 from rfl]
    omega
  have hbar : py "|" = [pyChar '|'] := rfl
  have hspace : py " " = [pyChar ' '] := rfl
  rw [hsum] at hpairs
  rw [Event.writePlain, Event.weight, ← hfields, ← hpairs, hbar, hspace]
  simp only [List.length_append, List.length_singleton]
  omega

/-- A line written without escapes is one line and read as it was meant exactly where nothing in it
needs an escape. -/
theorem write_plain_iff {event : Event} (hheader : event.header.length = 7)
    (hextension : event.extension ≠ []) (hkeys : ∀ pair ∈ event.extension, IsKey pair.1) :
    OneLine event.writePlain ∧ parse event.writePlain = some event ↔
      (∀ field ∈ event.header, PlainField field) ∧
        ∀ pair ∈ event.extension, PlainValue pair.2 := by
  have hne : event.header ≠ [] := fun h ↦ by
    rw [h] at hheader
    exact absurd hheader (by decide)
  have hfield : ∀ field ∈ event.header, ∀ c ∈ field, c ∈ event.writePlain :=
    fun field hfield c hc ↦ List.mem_append_left _ (List.mem_append_left _
      (PyStr.mem_join_of_mem hfield hc))
  have hvalue : ∀ pair ∈ event.extension, ∀ c ∈ pair.2, c ∈ event.writePlain :=
    fun pair hpair c hc ↦ List.mem_append_right _ (PyStr.mem_join_of_mem
      (List.mem_map_of_mem hpair) (List.mem_append_right _ hc))
  constructor
  · intro ⟨hline, hparse⟩
    obtain ⟨hmark, hbar, hsign⟩ :=
      plain_of_parse hparse hextension (Event.length_write_plain hne hextension)
    refine ⟨fun field hmem ↦ ⟨?_, ?_, hbar field hmem⟩, fun pair hmem ↦ ⟨?_, ?_, hsign pair hmem⟩⟩
    · exact fun c hc ↦ hline c (hfield field hmem c hc)
    · exact fun hc ↦ hmark (hfield field hmem _ hc)
    · exact fun c hc ↦ hline c (hvalue pair hmem c hc)
    · exact fun hc ↦ hmark (hvalue pair hmem _ hc)
  · intro ⟨hfields, hvalues⟩
    have hwrite : event.writePlain = event.write := by
      have hheaders : event.header.map writeField = event.header :=
        (List.map_congr_left fun field hmem ↦ write_field_of_plain (hfields field hmem)).trans
          (List.map_id _)
      have hpairs : event.extension.map writePair =
          event.extension.map fun pair ↦ pair.1 ++ py "=" ++ pair.2 :=
        List.map_congr_left fun pair hmem ↦ by
          rw [writePair, write_value_of_plain (hvalues pair hmem)]
      rw [Event.writePlain, Event.write, hheaders, hpairs]
    rw [hwrite]
    exact ⟨(Event.one_line_write hkeys).mpr fun field hmem ↦ (hfields field hmem).one_line,
      parse_write hheader hkeys⟩

end Aegis.Export.Cef
