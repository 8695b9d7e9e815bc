import Mathlib.Data.List.Count
import Mathlib.Data.Set.Function
import Aegis.Api.FindingQueries
import Aegis.Server.Utf8

/-!
# What an identity tells apart

`finding_identity` joins its normalised arguments with a separator and takes the digest. A
signature loses everything from its first colon on, not only a line number, and a rule key may
hold the separator. Where the identities of two argument tuples still agree exactly for one defect
is the result of this module.
-/

namespace Aegis.Server

namespace PyStr

/-- The words of a text hold no white space. -/
theorem is_space_of_mem_split_from {word s : PyStr} (hword : ∀ c ∈ word, isSpace c = false) :
    ∀ part ∈ splitFrom word s, ∀ c ∈ part, isSpace c = false := by
  induction s generalizing word with
  | nil =>
      intro part hpart
      rw [splitFrom] at hpart
      split at hpart
      · cases hpart
      · rw [List.mem_singleton.mp hpart]
        exact hword
  | cons d rest ih =>
      have hnil : ∀ c ∈ ([] : PyStr), isSpace c = false := fun c hc ↦ nomatch hc
      intro part hpart
      rw [splitFrom] at hpart
      split at hpart
      case isTrue hspace =>
        split at hpart
        · exact ih hnil part hpart
        · rcases List.mem_cons.mp hpart with rfl | hpart
          · exact hword
          · exact ih hnil part hpart
      case isFalse hspace =>
        refine ih ?_ part hpart
        intro c hc
        rcases List.mem_append.mp hc with hc | hc
        · exact hword c hc
        · rw [List.mem_singleton.mp hc]
          exact Bool.eq_false_of_not_eq_true hspace

/-- A digit of hexadecimal names its value. -/
theorem hex_digit_inj {n m : Nat} (hn : n < 16) (hm : m < 16) (h : hexDigit n = hexDigit m) :
    n = m := by
  have hval := congrArg Fin.val h
  unfold hexDigit at hval
  split at hval <;> split at hval <;> simp only [Fin.ofNat] at hval <;> omega

/-- A number that fits its digits is named by them. -/
theorem hex_inj {width n m : Nat} (hn : n < 16 ^ width) (hm : m < 16 ^ width)
    (h : hex width n = hex width m) : n = m := by
  induction width generalizing n m with
  | zero =>
      rw [pow_zero] at hn hm
      omega
  | succ width ih =>
      rw [pow_succ] at hn hm
      obtain ⟨hrest, hdigit⟩ := List.append_inj' h rfl
      have hquotient : n / 16 = m / 16 := ih (by omega) (by omega) hrest
      have hremainder : n % 16 = m % 16 :=
        hex_digit_inj (Nat.mod_lt _ (by decide)) (Nat.mod_lt _ (by decide))
          (List.singleton_inj.mp hdigit)
      omega

end PyStr

/-- A digest is named by its digits. -/
theorem Library.hexdigest_inj {lib : Library} {data data' : PyBytes} :
    lib.hexdigest data = lib.hexdigest data' ↔ lib.sha256 data = lib.sha256 data' := by
  refine ⟨fun h ↦ BitVec.eq_of_toNat_eq (PyStr.hex_inj ?_ ?_ h), fun h ↦ ?_⟩
  · exact lt_of_lt_of_eq (lib.sha256 data).isLt (by norm_num)
  · exact lt_of_lt_of_eq (lib.sha256 data').isLt (by norm_num)
  · rw [hexdigest, hexdigest, h]

end Aegis.Server

namespace Aegis.Api

open Server

/-- Texts before a separator are told apart by how often they hold it themselves. -/
theorem append_separator_inj {α : Type*} [DecidableEq α] {separator : α} {before before' : List α}
    (hcount : before.count separator = before'.count separator) (after after' : List α) :
    before ++ separator :: after = before' ++ separator :: after' ↔
      before = before' ∧ after = after' := by
  refine ⟨fun h ↦ ?_, fun ⟨hbefore, hafter⟩ ↦ by rw [hbefore, hafter]⟩
  induction before generalizing before' with
  | nil =>
      cases before' with
      | nil => exact ⟨rfl, (List.cons.inj h).2⟩
      | cons c rest =>
          rw [← (List.cons.inj h).1, List.count_nil, List.count_cons_self] at hcount
          omega
  | cons c rest ih =>
      cases before' with
      | nil =>
          rw [(List.cons.inj h).1, List.count_nil, List.count_cons_self] at hcount
          omega
      | cons c' rest' =>
          obtain ⟨rfl, htail⟩ := List.cons.inj h
          rw [List.count_cons, List.count_cons] at hcount
          obtain ⟨rfl, hafter⟩ := ih (by omega) htail
          exact ⟨rfl, hafter⟩

/-! ## Argument tuples -/

/-- The character between the parts of an identity. -/
def SEPARATOR : PyChar := 0x1F

/-- The arguments of `finding_identity`, with a stack hash in hexadecimal. -/
structure DefectKey where
  organizationId : Uuid
  applicationId : Uuid
  ruleKey : PyStr
  sinkSignature : PyStr
  sourceKind : PyStr
  stackHash : PyStr
  hexadecimal : ∀ c ∈ stackHash, c ∈ py "0123456789abcdefABCDEF"

/-- Text with its white space collapsed to single blanks. -/
def collapse (s : PyStr) : PyStr :=
  PyStr.join (py " ") s.split

/-- Text without a `:line` number at its end. -/
def withoutLine (text : PyStr) : PyStr :=
  let rest := text.rdropWhile fun c ↦ 48 ≤ c.val && c.val ≤ 57
  if rest.length < text.length ∧ rest.getLast? = some 58 then rest.dropLast else text

namespace DefectKey

/-- The identity of a tuple. -/
def identity (lib : Library) (key : DefectKey) : Except PyException PyStr :=
  findingIdentity lib key.organizationId key.applicationId key.ruleKey key.sinkSignature
    key.sourceKind key.stackHash

/-- The rule key up to surrounding white space and letter case. -/
def rule (lib : Library) (key : DefectKey) : PyStr :=
  lib.lower key.ruleKey.strip

/-- The source kind up to surrounding white space and letter case. -/
def source (lib : Library) (key : DefectKey) : PyStr :=
  lib.upper key.sourceKind.strip

/-- The signature up to white space, letter case and a trailing `:line` number. -/
def signature (lib : Library) (key : DefectKey) : PyStr :=
  lib.lower (withoutLine (collapse key.sinkSignature)).strip

/-- The signature before its first colon, up to white space and letter case. -/
def head (lib : Library) (key : DefectKey) : PyStr :=
  lib.lower (PyStr.before 58 (collapse key.sinkSignature)).strip

/-- The rule key, the signature and the source as they are joined. -/
def middle (lib : Library) (key : DefectKey) : PyStr :=
  key.rule lib ++ SEPARATOR :: (key.head lib ++ SEPARATOR :: key.source lib)

/-- The text the digest is taken of. -/
def text (lib : Library) (key : DefectKey) : PyStr :=
  PyStr.join [SEPARATOR] (identityParts lib key.organizationId key.applicationId key.ruleKey
    key.sinkSignature key.sourceKind key.stackHash)

/-- Two tuples of one organization, application and stack. -/
def SameSite (key other : DefectKey) : Prop :=
  key.organizationId = other.organizationId ∧ key.applicationId = other.applicationId ∧
    key.stackHash = other.stackHash

instance (key other : DefectKey) : Decidable (key.SameSite other) :=
  inferInstanceAs (Decidable (_ ∧ _ ∧ _))

/-- Two tuples that are about one defect. -/
def SameDefect (lib : Library) (key other : DefectKey) : Prop :=
  key.SameSite other ∧ key.rule lib = other.rule lib ∧ key.source lib = other.source lib ∧
    key.signature lib = other.signature lib

instance (lib : Library) (key other : DefectKey) : Decidable (key.SameDefect lib other) :=
  inferInstanceAs (Decidable (_ ∧ _ ∧ _ ∧ _))

/-- Two tuples that get one identity. -/
def SameIdentity (lib : Library) (key other : DefectKey) : Prop :=
  ∃ identity, key.identity lib = .ok identity ∧ other.identity lib = .ok identity

/-- SHA-256 tells the texts of two tuples apart. -/
def NoCollision (lib : Library) (key other : DefectKey) : Prop :=
  Set.InjOn lib.sha256 {data | (key.text lib).encode = .ok data ∨ (other.text lib).encode = .ok data}

/-- Where the identities of two tuples agree exactly when they are about one defect. -/
structure Separable (lib : Library) (key other : DefectKey) : Prop where
  /-- A defect that both are about has text that can be encoded. -/
  encodable : key.SameDefect lib other →
    PyStr.Encodable (key.text lib) ∧ PyStr.Encodable (other.text lib)
  /-- At one site, the signatures lose no more than a line number of what tells them apart, and no
  separator in a rule key makes up for one between the parts. -/
  apart : PyStr.Encodable (key.text lib) → PyStr.Encodable (other.text lib) →
    key.SameSite other →
      if (key.rule lib).count SEPARATOR = (other.rule lib).count SEPARATOR then
        key.rule lib = other.rule lib → key.source lib = other.source lib →
          (key.head lib = other.head lib ↔ key.signature lib = other.signature lib)
      else key.middle lib ≠ other.middle lib

end DefectKey

/-! ## What the text tells apart -/

/-- Text without the separator counts none. -/
theorem count_separator_eq_zero {s : PyStr} (h : SEPARATOR ∉ s) : s.count SEPARATOR = 0 :=
  List.count_eq_zero.mpr h

/-- No separator is in the text of an id. -/
theorem separator_not_mem_to_str (id : Uuid) : SEPARATOR ∉ id.toStr := by
  intro h
  rcases Uuid.mem_to_str h with h | ⟨digit, hdigit, h⟩
  · exact absurd (List.mem_singleton.mp h) (by decide)
  · have hval := (PyStr.val_hex_digit hdigit).1
    rw [← h] at hval
    exact absurd hval (by decide)

/-- No separator is in collapsed text: it is white space. -/
theorem separator_not_mem_collapse (s : PyStr) : SEPARATOR ∉ collapse s := by
  intro h
  rcases PyStr.mem_of_mem_join h with h | ⟨part, hpart, h⟩
  · exact absurd (List.mem_singleton.mp h) (by decide)
  · have hnil : ∀ c ∈ ([] : PyStr), PyStr.isSpace c = false := fun c hc ↦ nomatch hc
    exact absurd (PyStr.is_space_of_mem_split_from hnil part hpart _ h) (by decide)

namespace DefectKey

variable {lib : Library} {key other : DefectKey}

/-- No separator is in a stack hash. -/
theorem separator_not_mem_stack_hash (key : DefectKey) : SEPARATOR ∉ key.stackHash :=
  fun h ↦ absurd (key.hexadecimal _ h) (by decide)

/-- The text is that of the site around the middle. -/
theorem text_eq (lib : Library) (key : DefectKey) :
    key.text lib = key.organizationId.toStr ++ SEPARATOR ::
      (key.applicationId.toStr ++ SEPARATOR :: (key.middle lib ++ SEPARATOR :: key.stackHash)) := by
  simp only [text, identityParts, normalizeSignature, PyStr.join, middle, rule, head, source,
    collapse, List.append_assoc, List.cons_append, List.nil_append]

/-- No separator is in the head of a signature. -/
theorem separator_not_mem_head (hlower : ∀ s, SEPARATOR ∈ lib.lower s → SEPARATOR ∈ s)
    (key : DefectKey) : SEPARATOR ∉ key.head lib := by
  intro h
  have hbefore := PyStr.mem_of_mem_strip (hlower _ h)
  exact separator_not_mem_collapse _ ((List.takeWhile_sublist _).mem hbefore)

/-- The text names the site and the middle. -/
theorem text_eq_iff :
    key.text lib = other.text lib ↔ key.SameSite other ∧ key.middle lib = other.middle lib := by
  have hid : ∀ id id' : Uuid, id.toStr.count SEPARATOR = id'.toStr.count SEPARATOR := fun id id' ↦ by
    rw [count_separator_eq_zero (separator_not_mem_to_str id),
      count_separator_eq_zero (separator_not_mem_to_str id')]
  rw [text_eq, text_eq, append_separator_inj (hid _ _), append_separator_inj (hid _ _),
    to_str_inj, to_str_inj, SameSite]
  constructor
  · rintro ⟨horganization, happlication, h⟩
    have hcount := congrArg (List.count SEPARATOR) h
    simp only [List.count_append, List.count_cons_self,
      count_separator_eq_zero (separator_not_mem_stack_hash _)] at hcount
    obtain ⟨hmiddle, hstack⟩ := (append_separator_inj (by omega) _ _).mp h
    exact ⟨⟨horganization, happlication, hstack⟩, hmiddle⟩
  · rintro ⟨⟨horganization, happlication, hstack⟩, hmiddle⟩
    rw [hmiddle, hstack]
    exact ⟨horganization, happlication, rfl⟩

/-- The middle names its parts when the rule keys hold the separator equally often. -/
theorem middle_eq_iff (hlower : ∀ s, SEPARATOR ∈ lib.lower s → SEPARATOR ∈ s)
    (hcount : (key.rule lib).count SEPARATOR = (other.rule lib).count SEPARATOR) :
    key.middle lib = other.middle lib ↔ key.rule lib = other.rule lib ∧
      key.head lib = other.head lib ∧ key.source lib = other.source lib := by
  have hhead : (key.head lib).count SEPARATOR = (other.head lib).count SEPARATOR := by
    rw [count_separator_eq_zero (separator_not_mem_head hlower key),
      count_separator_eq_zero (separator_not_mem_head hlower other)]
  rw [middle, middle, append_separator_inj hcount, append_separator_inj hhead]

/-- A tuple has an identity when its text can be encoded. -/
theorem identity_eq_ok_iff {identity : PyStr} :
    key.identity lib = .ok identity ↔
      ∃ data, (key.text lib).encode = .ok data ∧ lib.hexdigest data = identity := by
  constructor
  · intro h
    obtain ⟨data, hdata, hidentity⟩ := Checked.bind_eq_ok.mp h
    exact ⟨data, hdata, Except.ok.inj hidentity⟩
  · rintro ⟨data, hdata, rfl⟩
    exact Checked.bind_eq_ok.mpr ⟨data, hdata, rfl⟩

/-- Two tuples get one identity when they have one text, and it can be encoded. -/
theorem same_identity_iff (hsha : key.NoCollision lib other) :
    key.SameIdentity lib other ↔
      PyStr.Encodable (key.text lib) ∧ key.text lib = other.text lib := by
  constructor
  · rintro ⟨identity, h, hother⟩
    obtain ⟨data, hdata, rfl⟩ := identity_eq_ok_iff.mp h
    obtain ⟨data', hdata', hdigest⟩ := identity_eq_ok_iff.mp hother
    have hsame := hsha (.inl hdata) (.inr hdata') (Library.hexdigest_inj.mp hdigest.symm)
    rw [← hsame] at hdata'
    exact ⟨(PyStr.exists_encode_iff _).mp ⟨data, hdata⟩, Utf8.encode_injective hdata hdata'⟩
  · rintro ⟨hencodable, htext⟩
    obtain ⟨data, hdata⟩ := (PyStr.exists_encode_iff _).mpr hencodable
    exact ⟨lib.hexdigest data, identity_eq_ok_iff.mpr ⟨data, hdata, rfl⟩,
      identity_eq_ok_iff.mpr ⟨data, htext ▸ hdata, rfl⟩⟩

end DefectKey

open DefectKey

/-- The identities of two tuples agree exactly for one defect when, at one site, the signatures
lose nothing but a line number that tells them apart and the separator stays between the parts. -/
theorem identity_separates_iff (lib : Library) (key other : DefectKey)
    (hlower : ∀ s, SEPARATOR ∈ lib.lower s → SEPARATOR ∈ s) (hsha : key.NoCollision lib other) :
    (key.SameIdentity lib other ↔ key.SameDefect lib other) ↔ key.Separable lib other := by
  rw [same_identity_iff hsha]
  constructor
  · intro h
    refine ⟨fun hsame ↦ ?_, fun hencodable _ hsite ↦ ?_⟩
    · obtain ⟨hencodable, htext⟩ := h.mpr hsame
      exact ⟨hencodable, htext ▸ hencodable⟩
    split
    case isTrue hcount =>
      intro hrule hsource
      constructor
      · intro hhead
        have hmiddle := (middle_eq_iff hlower hcount).mpr ⟨hrule, hhead, hsource⟩
        exact (h.mp ⟨hencodable, text_eq_iff.mpr ⟨hsite, hmiddle⟩⟩).2.2.2
      · intro hsignature
        obtain ⟨-, hmiddle⟩ := text_eq_iff.mp (h.mpr ⟨hsite, hrule, hsource, hsignature⟩).2
        exact ((middle_eq_iff hlower hcount).mp hmiddle).2.1
    case isFalse hcount =>
      intro hmiddle
      have hsame := h.mp ⟨hencodable, text_eq_iff.mpr ⟨hsite, hmiddle⟩⟩
      exact hcount (congrArg _ hsame.2.1)
  · intro hseparable
    constructor
    · rintro ⟨hencodable, htext⟩
      obtain ⟨hsite, hmiddle⟩ := text_eq_iff.mp htext
      have hapart := hseparable.apart hencodable (htext ▸ hencodable) hsite
      split at hapart
      case isTrue hcount =>
        obtain ⟨hrule, hhead, hsource⟩ := (middle_eq_iff hlower hcount).mp hmiddle
        exact ⟨hsite, hrule, hsource, (hapart hrule hsource).mp hhead⟩
      case isFalse => exact absurd hmiddle hapart
    · intro hsame
      obtain ⟨hencodable, hencodable'⟩ := hseparable.encodable hsame
      obtain ⟨hsite, hrule, hsource, hsignature⟩ := hsame
      have hcount := congrArg (List.count SEPARATOR) hrule
      have hapart := hseparable.apart hencodable hencodable' hsite
      rw [if_pos hcount] at hapart
      have hhead := (hapart hrule hsource).mpr hsignature
      exact ⟨hencodable, text_eq_iff.mpr
        ⟨hsite, (middle_eq_iff hlower hcount).mpr ⟨hrule, hhead, hsource⟩⟩⟩

/-! ## Runs -/

/-- A tuple of one application and one stack. -/
def signed (ruleKey sinkSignature sourceKind : String) : DefectKey where
  organizationId := 1
  applicationId := 2
  ruleKey := py ruleKey
  sinkSignature := py sinkSignature
  sourceKind := py sourceKind
  stackHash := []
  hexadecimal c hc := nomatch hc

/-- Tuples of one text have one digest to take. -/
theorem no_collision_of_text_eq {lib : Library} {key other : DefectKey}
    (h : key.text lib = other.text lib) : key.NoCollision lib other := by
  intro data hdata data' hdata' _
  rw [Set.mem_ofPred_eq, ← h, or_self] at hdata hdata'
  exact Except.ok.inj (hdata.symm.trans hdata')

/-- ASCII letters have lower case that is no separator. -/
theorem separator_of_plain_lower (s : PyStr) (h : SEPARATOR ∈ plainLibrary.lower s) :
    SEPARATOR ∈ s := by
  obtain ⟨c, hc, hlower⟩ := List.mem_map.mp h
  by_cases hupper : 65 ≤ c.val ∧ c.val ≤ 90
  · rw [asciiLower, if_pos hupper] at hlower
    have hval := congrArg Fin.val hlower
    rw [Fin.val_add] at hval
    change (c.val + 32) % 0x110000 = 0x1F at hval
    omega
  · rw [asciiLower, if_neg hupper] at hlower
    exact hlower ▸ hc

/-- A statement that moved by some lines is one defect and keeps its identity. -/
theorem identity_separates_lines :
    ((signed "sqli" "db.Cursor#execute:41" "header").SameIdentity plainLibrary
        (signed " SQLI " " db.Cursor#EXECUTE:57" "HEADER") ↔
      (signed "sqli" "db.Cursor#execute:41" "header").SameDefect plainLibrary
        (signed " SQLI " " db.Cursor#EXECUTE:57" "HEADER")) ↔
      (signed "sqli" "db.Cursor#execute:41" "header").Separable plainLibrary
        (signed " SQLI " " db.Cursor#EXECUTE:57" "HEADER") :=
  identity_separates_iff plainLibrary _ _ separator_of_plain_lower
    (no_collision_of_text_eq (by decide +kernel))

/-- What two tools report of one rule gets one identity: what follows the first colon is lost. -/
theorem identity_not_separated :
    ¬ ∀ key other : DefectKey, key.NoCollision plainLibrary other →
      (key.SameIdentity plainLibrary other ↔ key.SameDefect plainLibrary other) := by
  intro h
  have htext : (signed "sqli" "sarif:semgrep:taint" "").text plainLibrary =
      (signed "sqli" "sarif:codeql:taint" "").text plainLibrary := by decide +kernel
  have hsha := no_collision_of_text_eq htext
  have hsame := (same_identity_iff hsha).mpr ⟨by decide +kernel, htext⟩
  exact absurd ((h _ _ hsha).mp hsame) (by decide +kernel)

/-- A separator in a rule key stands for one between the parts. -/
example : (signed "1\x1f2" "3" "4").text plainLibrary =
    (signed "1" "2" "3\x1f4").text plainLibrary := by
  decide +kernel

end Aegis.Api
