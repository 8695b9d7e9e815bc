import Aegis.Server.Utf8

/-!
# URLs and paths

What `urllib.parse` makes of a URL and `pathlib` of a path, on POSIX. A path is compared by its
root and its parts, which leave out empty ones and single dots; `solid` counts the characters that
no comparison overlooks.
-/

namespace Aegis.Server

open Utf8

/-! ## Escapes -/

/-- The byte two hexadecimal digits stand for. -/
def hexByte (first second : PyChar) : Option UInt8 := do
  let high ← hexValue first
  let low ← hexValue second
  pure (16 * high + low).toUInt8

/-- The byte of the escape that the text begins with. -/
def escape : PyStr → Option UInt8
  | c :: first :: second :: _ => if c.val == 37 then hexByte first second else none
  | _ => none

/-- Whether the text has an escape. -/
def hasEscape : PyStr → Bool
  | [] => false
  | c :: rest => (escape (c :: rest)).isSome || hasEscape rest

/-- A character on its own: a byte of ASCII, or a character beyond it. -/
def plainToken (c : PyChar) : UInt8 ⊕ PyChar :=
  if c.val < 0x80 then .inl c.val.toUInt8 else .inr c

/-- The bytes and characters of the text after `skip` characters, which an escape has used up. -/
def tokensFrom (skip : Nat) : PyStr → List (UInt8 ⊕ PyChar)
  | [] => []
  | c :: rest =>
      if skip = 0 then
        match escape (c :: rest) with
        | some b => .inl b :: tokensFrom 2 rest
        | none => plainToken c :: tokensFrom 0 rest
      else tokensFrom (skip - 1) rest

/-- Bytes are decoded together up to the next character beyond ASCII. -/
def decodeTokens (state : Option Sequence) : List (UInt8 ⊕ PyChar) → PyStr
  | [] => flush state
  | .inl b :: rest => (feed state b).1 ++ decodeTokens (feed state b).2 rest
  | .inr c :: rest => flush state ++ c :: decodeTokens none rest

/-- `unquote(text)`. -/
def unquote (text : PyStr) : PyStr :=
  decodeTokens none (tokensFrom 0 text)

/-- Text without an escape is left as it is. -/
theorem unquote_of_not_escape {text : PyStr} (h : hasEscape text = false) : unquote text = text := by
  induction text with
  | nil => rfl
  | cons c rest ih =>
      rw [hasEscape, Bool.or_eq_false_iff, Option.isSome_eq_false_iff, Option.isNone_iff_eq_none] at h
      have htokens : tokensFrom 0 (c :: rest) = plainToken c :: tokensFrom 0 rest := by
        rw [tokensFrom, if_pos rfl, h.1]
      show decodeTokens none (tokensFrom 0 (c :: rest)) = _
      rw [htokens, plainToken]
      split
      · rename_i hascii
        have hbyte : c.val.toUInt8.toNat = c.val :=
          Nat.mod_eq_of_lt (by omega)
        show (feed none _).1 ++ decodeTokens (feed none _).2 _ = _
        rw [feed_of_ascii (by rw [hbyte]; exact hascii), hbyte]
        have hc : (Fin.ofNat 0x110000 c.val : PyChar) = c :=
          Fin.ext (Nat.mod_eq_of_lt c.isLt)
        rw [hc]
        exact congrArg (c :: ·) (ih h.2)
      · exact congrArg (c :: ·) (ih h.2)

/-! ## What no comparison overlooks -/

/-- A character other than a separator and a dot. -/
def isSolid (c : PyChar) : Bool :=
  c.val != 47 && c.val != 46

/-- How many such characters a text has. -/
def solid (text : PyStr) : Nat :=
  text.countP isSolid

@[simp] theorem solid_cons (c : PyChar) (text : PyStr) :
    solid (c :: text) = solid text + if isSolid c then 1 else 0 :=
  List.countP_cons

@[simp] theorem solid_append (a b : PyStr) : solid (a ++ b) = solid a + solid b :=
  List.countP_append

/-- How many such characters a byte or a character stands for at most. -/
def tokenSolid : UInt8 ⊕ PyChar → Nat
  | .inl b => if b.toNat = 47 ∨ b.toNat = 46 then 0 else 1
  | .inr _ => 1

/-- A sequence that has begun yields one character at most. -/
def owed : Option Sequence → Nat
  | none => 0
  | some _ => 1

/-- A character yields one at most. -/
theorem solid_singleton_le (c : PyChar) : solid [c] ≤ 1 :=
  List.countP_le_length

theorem solid_start (b : UInt8) : solid (start b).1 + owed (start b).2 ≤ tokenSolid (.inl b) := by
  have hb := b.toNat_lt
  have hval : (Fin.ofNat 0x110000 b.toNat : PyChar).val = b.toNat := Nat.mod_eq_of_lt (by omega)
  show _ ≤ if b.toNat = 47 ∨ b.toNat = 46 then 0 else 1
  unfold start
  split
  · simp only [solid, List.countP_singleton, isSolid, hval, owed]
    split <;> simp_all
  · rw [if_neg (by omega)]
    split
    · rfl
    · exact solid_singleton_le REPLACEMENT

theorem solid_feed (state : Option Sequence) (b : UInt8) :
    solid (feed state b).1 + owed (feed state b).2 ≤ owed state + tokenSolid (.inl b) := by
  cases state with
  | none =>
      have := solid_start b
      simpa [feed, owed] using this
  | some sequence =>
      unfold feed
      dsimp only
      split
      · split
        · have := solid_singleton_le (Fin.ofNat _ (sequence.value * 0x40 + b.toNat % 0x40))
          simp only [owed]
          omega
        · exact Nat.le_add_right 1 _
      · have := solid_start b
        have hreplacement := solid_singleton_le REPLACEMENT
        show solid ([REPLACEMENT] ++ (start b).1) + owed (start b).2 ≤ 1 + _
        rw [solid_append]
        omega

/-- Decoding makes nothing solid. -/
theorem solid_decode_tokens (state : Option Sequence) (tokens : List (UInt8 ⊕ PyChar)) :
    solid (decodeTokens state tokens) ≤ owed state + (tokens.map tokenSolid).sum := by
  have hflush : ∀ state, solid (flush state) ≤ owed state := by
    intro state
    cases state with
    | none => rfl
    | some sequence => exact solid_singleton_le _
  induction tokens generalizing state with
  | nil => exact hflush state
  | cons token rest ih =>
      rw [List.map_cons, List.sum_cons]
      cases token with
      | inl b =>
          have hfeed := solid_feed state b
          have hrest := ih (feed state b).2
          rw [decodeTokens, solid_append]
          omega
      | inr c =>
          have hrest := ih none
          have hc := solid_singleton_le c
          have hstate := hflush state
          rw [decodeTokens, solid_append, ← List.singleton_append, solid_append]
          simp only [owed, tokenSolid] at *
          omega

/-- A digit is solid. -/
theorem is_solid_of_hex_value {c : PyChar} {n : Nat} (h : hexValue c = some n) :
    isSolid c = true := by
  have hc : c.val ≠ 47 ∧ c.val ≠ 46 := by
    unfold hexValue at h
    split at h
    · omega
    · split at h
      · omega
      · split at h
        · omega
        · cases h
  simpa [isSolid] using hc

/-- An escape is three solid characters. -/
theorem escape_eq_some {text : PyStr} {b : UInt8} (h : escape text = some b) :
    ∃ c first second rest, text = c :: first :: second :: rest ∧ isSolid c = true ∧
      isSolid first = true ∧ isSolid second = true := by
  match text, h with
  | c :: first :: second :: rest, h =>
      rw [escape] at h
      split at h
      swap
      · cases h
      rename_i hc
      obtain ⟨high, hhigh, h⟩ := Option.bind_eq_some_iff.mp h
      obtain ⟨low, hlow, -⟩ := Option.bind_eq_some_iff.mp h
      refine ⟨c, first, second, rest, rfl, ?_, is_solid_of_hex_value hhigh,
        is_solid_of_hex_value hlow⟩
      rw [beq_iff_eq] at hc
      simp [isSolid, hc]

theorem token_solid_plain (c : PyChar) : tokenSolid (plainToken c) ≤ if isSolid c then 1 else 0 := by
  unfold plainToken
  split
  · rename_i hascii
    have hbyte : c.val.toUInt8.toNat = c.val := Nat.mod_eq_of_lt (by omega)
    show (if c.val.toUInt8.toNat = 47 ∨ c.val.toUInt8.toNat = 46 then 0 else 1) ≤ _
    rw [hbyte]
    by_cases hc : c.val = 47 ∨ c.val = 46
    · rw [if_pos hc]
      exact Nat.zero_le _
    · rw [if_neg hc, if_pos]
      simpa [isSolid, not_or] using hc
  · rw [if_pos]
    · rfl
    · simp only [isSolid, Bool.and_eq_true, bne_iff_ne, ne_eq]
      omega

/-- The bytes and characters of a text are no more solid than the text. -/
theorem solid_tokens_from (skip : Nat) (text : PyStr) :
    ((tokensFrom skip text).map tokenSolid).sum ≤ solid (text.drop skip) := by
  induction text generalizing skip with
  | nil => exact Nat.zero_le _
  | cons c rest ih =>
      cases skip with
      | succ skip => exact ih skip
      | zero =>
          rw [tokensFrom, if_pos rfl, List.drop_zero]
          split
          · rename_i b hescape
            obtain ⟨_, first, second, after, htext, hc, hfirst, hsecond⟩ := escape_eq_some hescape
            obtain ⟨rfl, rfl⟩ := List.cons.inj htext
            have hafter := ih 2
            have hb : tokenSolid (.inl b) ≤ 1 := by
              show (if _ then 0 else 1) ≤ 1
              split <;> omega
            rw [List.map_cons, List.sum_cons]
            simp only [List.drop_succ_cons, List.drop_zero] at hafter
            simp only [solid_cons, hc, hfirst, hsecond, if_true]
            omega
          · have hrest := ih 0
            have hc := token_solid_plain c
            rw [List.drop_zero] at hrest
            rw [List.map_cons, List.sum_cons, solid_cons]
            omega

/-- Nothing becomes solid that was not. -/
theorem solid_unquote_le (text : PyStr) : solid (unquote text) ≤ solid text := by
  have hdecode := solid_decode_tokens none (tokensFrom 0 text)
  have htokens := solid_tokens_from 0 text
  rw [owed, Nat.zero_add] at hdecode
  exact hdecode.trans htokens

/-- An escape makes a text less solid. -/
theorem solid_unquote_lt {text : PyStr} (h : hasEscape text = true) :
    solid (unquote text) < solid text := by
  have hdecode := solid_decode_tokens none (tokensFrom 0 text)
  rw [owed, Nat.zero_add] at hdecode
  refine Nat.lt_of_le_of_lt hdecode ?_
  clear hdecode
  induction text with
  | nil => cases h
  | cons c rest ih =>
      rw [tokensFrom, if_pos rfl]
      split
      · rename_i b hescape
        obtain ⟨_, first, second, after, htext, hc, hfirst, hsecond⟩ := escape_eq_some hescape
        obtain ⟨rfl, rfl⟩ := List.cons.inj htext
        have hafter := solid_tokens_from 2 (first :: second :: after)
        have hb : tokenSolid (.inl b) ≤ 1 := by
          show (if _ then 0 else 1) ≤ 1
          split <;> omega
        rw [List.map_cons, List.sum_cons]
        simp only [List.drop_succ_cons, List.drop_zero] at hafter
        simp only [solid_cons, hc, hfirst, hsecond, if_true]
        omega
      · rename_i hescape
        rw [hasEscape, hescape, Option.isSome_none, Bool.false_or] at h
        have hrest := ih h
        have hc := token_solid_plain c
        rw [List.map_cons, List.sum_cons, solid_cons]
        omega

/-! ## URLs -/

/-- What `urlsplit` returns, without the scheme. -/
structure SplitResult where
  netloc : PyStr
  path : PyStr
  query : PyStr
  fragment : PyStr
  deriving DecidableEq

/-- The text before the first separator, and the text after it. -/
def cut (separator : PyChar) (text : PyStr) : PyStr × PyStr :=
  (text.takeWhile (· != separator), (text.dropWhile (· != separator)).drop 1)

/-- A tab or the end of a line, which `urlsplit` removes wherever it is. -/
def isUnsafe (c : PyChar) : Bool :=
  c.val == 9 || c.val == 10 || c.val == 13

/-- An ASCII letter. -/
def isAsciiLetter (c : PyChar) : Bool :=
  (65 ≤ c.val && c.val ≤ 90) || (97 ≤ c.val && c.val ≤ 122)

/-- A character of a scheme. -/
def isSchemeChar (c : PyChar) : Bool :=
  isAsciiLetter c || (48 ≤ c.val && c.val ≤ 57) || c.val == 43 || c.val == 45 || c.val == 46

/-- The URL without its scheme. -/
def afterScheme (url : PyStr) : PyStr :=
  let scheme := url.takeWhile (· != 58)
  if scheme.length < url.length && scheme.head?.any isAsciiLetter && scheme.all isSchemeChar then
    url.drop (scheme.length + 1)
  else url

/-- The authority of a URL without its scheme, and the rest. -/
def splitNetloc (url : PyStr) : PyStr × PyStr :=
  if url.take 2 = [47, 47] then
    let inside := fun c : PyChar ↦ c.val != 47 && c.val != 63 && c.val != 35
    ((url.drop 2).takeWhile inside, (url.drop 2).dropWhile inside)
  else ([], url)

/-- `urlsplit(url)`. `isNetloc` says which authorities it takes. -/
def urlsplit (isNetloc : PyStr → Bool) (url : PyStr) : Except PyException SplitResult :=
  let url := afterScheme ((url.dropWhile fun c ↦ c.val ≤ 32).filter fun c ↦ !isUnsafe c)
  let located := splitNetloc url
  if isNetloc located.1 then
    let marked := cut 35 located.2
    let asked := cut 63 marked.1
    .ok ⟨located.1, asked.1, asked.2, marked.2⟩
  else .error .ValueError

/-- `url2pathname(pathname)`. -/
def url2pathname (pathname : PyStr) : PyStr :=
  unquote pathname

/-! ## Paths -/

/-- A `PurePosixPath`. Two of them are equal when their roots and their parts are. -/
structure PosixPath where
  root : PyStr
  parts : List PyStr
  deriving DecidableEq

namespace PosixPath

/-- Whether a part of a path names something. -/
def isName (part : PyStr) : Bool :=
  part != [] && part != [46]

/-- `Path(text)`. Two slashes at the start are a root of their own. -/
def ofStr (text : PyStr) : PosixPath where
  root :=
    if text.head? = some 47 then
      if (text.takeWhile (· == 47)).length = 2 then [47, 47] else [47]
    else []
  parts := (text.splitOn 47).filter isName

/-- `path.name`. -/
def name (path : PosixPath) : PyStr :=
  path.parts.getLast?.getD []

/-- `path.with_name(name)`, for a name without a separator. -/
def withName (path : PosixPath) (name : PyStr) : Except PyException PosixPath :=
  if path.parts = [] then .error .ValueError
  else .ok { path with parts := path.parts.dropLast ++ [name] }

/-- The parts of a path have what is solid of its text. -/
theorem sum_solid_parts (text : PyStr) : ((ofStr text).parts.map solid).sum = solid text := by
  have hfilter : ∀ parts : List PyStr,
      ((parts.filter isName).map solid).sum = (parts.map solid).sum := by
    intro parts
    induction parts with
    | nil => rfl
    | cons part parts ih =>
        rw [List.filter_cons]
        split
        · rw [List.map_cons, List.map_cons, List.sum_cons, List.sum_cons, ih]
        · rename_i hpart
          have hempty : solid part = 0 := by
            by_cases hnil : part = []
            · rw [hnil]
              rfl
            · have hdot : part = [46] := by simpa [isName, hnil] using hpart
              rw [hdot]
              rfl
          rw [ih, List.map_cons, List.sum_cons, hempty, Nat.zero_add]
  have hhead : ∀ (c : PyChar) (parts : List PyStr), parts ≠ [] →
      ((parts.modifyHead (List.cons c)).map solid).sum =
        (parts.map solid).sum + if isSolid c then 1 else 0 := by
    intro c parts hparts
    cases parts with
    | nil => exact absurd rfl hparts
    | cons part parts =>
        rw [List.modifyHead_cons, List.map_cons, List.map_cons, List.sum_cons, List.sum_cons,
          solid_cons]
        omega
  refine (hfilter _).trans ?_
  induction text with
  | nil => rfl
  | cons c rest ih =>
      have ih : ((rest.splitOnP (· == 47)).map solid).sum = solid rest := ih
      rw [List.splitOn, List.splitOnP_cons_eq_if_modifyHead]
      split
      · rename_i hc
        rw [List.map_cons, List.sum_cons, ih, solid_cons, if_neg]
        · exact Nat.zero_add _
        · rw [beq_iff_eq.mp hc]
          decide
      · rw [hhead c _ (List.splitOnP_ne_nil _ _), ih, solid_cons]

end PosixPath

end Aegis.Server
