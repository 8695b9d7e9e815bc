import Aegis.Agent.Platform
import Aegis.Agent.Taint.Range

/-!
# Attack signatures

`AttackSignatures` of the Java agent: one pattern for each rule class that has a signature. The
second part names the characters that play a part in some signature. The others are inert:
`looks_malicious_of_twins` says that exchanging them for each other changes no verdict.
-/

namespace Aegis.Agent.AttackSignatures

open Pattern

/-- `\s*`. -/
def anySpaces : Pattern JChar :=
  .many (oneOf spaces)

/-- `\s+`. -/
def someSpaces : Pattern JChar :=
  atLeast (oneOf spaces) 1

/-- A constant between word boundaries. -/
def wholeWord (s : String) : Pattern JChar :=
  all [wordBoundary, literal (java s), wordBoundary]

/-- A constant of a case-insensitive signature. -/
def keyword (s : String) : Pattern JChar :=
  literalIgnoreCase (java s)

/-- The signature of SQL injection. -/
def SQL : Pattern JChar :=
  firstOf
    (all [keyword "'", anySpaces, firstOf (keyword "or") [keyword "and"], anySpaces,
      optional (keyword "'"), oneOf digits])
    [all [wordBoundary, keyword "union", someSpaces, keyword "select", wordBoundary],
      all [keyword "--", anySpaces, endOfInput],
      all [keyword ";", anySpaces, keyword "drop", someSpaces, keyword "table"],
      all [wordBoundary, keyword "or", someSpaces, keyword "1", anySpaces, keyword "=", anySpaces,
        keyword "1", wordBoundary]]

/-- The signature of command injection. -/
def COMMAND : Pattern JChar :=
  firstOf (oneOf (java ";&|`"))
    [literal (java "$("), wholeWord "nc", wholeWord "curl", wholeWord "wget",
      all [literal (java "/bin/"), optional (literal (java "ba")), literal (java "sh")]]

/-- The signature of path traversal. -/
def TRAVERSAL : Pattern JChar :=
  firstOf (keyword "../") [keyword "..\\", all [keyword "%2e%2e", oneOf (java "/\\")]]

/-- The signature of reflected cross-site scripting. -/
def XSS : Pattern JChar :=
  firstOf (all [keyword "<script", wordBoundary])
    [keyword "javascript:", all [keyword "onerror", anySpaces, keyword "="],
      all [keyword "onload", anySpaces, keyword "="],
      all [keyword "<img", wordBoundary, .many (noneOf (java ">")), wordBoundary, keyword "on"]]

/-- The address of the metadata service, the signature of server-side request forgery. -/
def METADATA_ADDRESS : JString :=
  java "169.254.169.254"

/-- How much of a value is looked at. -/
def CANDIDATE_LENGTH : Nat := 4096

/-- The part of a value that is looked at. -/
def candidate (value : JString) : JString :=
  if value.length > CANDIDATE_LENGTH then value.take CANDIDATE_LENGTH else value

/-- An attack signature of the rule class matches the value. -/
def looksMalicious (platform : Platform) (value : Option JString) (rule : RuleClass) : Bool :=
  match value with
  | none | some [] => false
  | some value =>
      match rule with
      | .SQL_INJECTION => find SQL (candidate value)
      | .COMMAND_INJECTION => find COMMAND (candidate value)
      | .PATH_TRAVERSAL => find TRAVERSAL (candidate value)
      | .REFLECTED_XSS => find XSS (candidate value)
      | .SSRF => (platform.toLowerCase (candidate value)).contains METADATA_ADDRESS
      | _ => false

/-! ## Signatures as patterns -/

/-- The pattern whose occurrence makes a value malicious for a rule class. -/
def signature : RuleClass → Option (Pattern JChar)
  | .SQL_INJECTION => some SQL
  | .COMMAND_INJECTION => some COMMAND
  | .PATH_TRAVERSAL => some TRAVERSAL
  | .REFLECTED_XSS => some XSS
  | .SSRF => some (literal METADATA_ADDRESS)
  | _ => none

/-- The rule class has a signature that occurs in the part of the value that is looked at. -/
def SignatureOccurs (rule : RuleClass) (value : JString) : Prop :=
  ∃ pattern ∈ signature rule, Occurs pattern (candidate value)

/-- The search decides whether a signature occurs. -/
theorem find_signature_iff {rule : RuleClass} {pattern : Pattern JChar}
    (hsignature : signature rule = some pattern) (value : JString) :
    find pattern (candidate value) = true ↔ SignatureOccurs rule value := by
  simp [SignatureOccurs, hsignature, find_iff]

/-- No signature occurs in the empty string. -/
theorem not_signature_occurs_nil (rule : RuleClass) : ¬SignatureOccurs rule [] := by
  rintro ⟨pattern, hpattern, hoccurs⟩
  rw [← find_iff] at hoccurs
  cases rule <;> cases hpattern <;> revert hoccurs <;> decide

/-- A value looks malicious when a signature of the rule class occurs in it. -/
theorem looks_malicious_iff (platform : Platform) (value : JString) (rule : RuleClass) :
    looksMalicious platform (some value) rule = true ↔ SignatureOccurs rule value := by
  cases value with
  | nil => simpa [looksMalicious] using not_signature_occurs_nil rule
  | cons c value =>
      cases rule with
      | SQL_INJECTION => exact find_signature_iff rfl _
      | COMMAND_INJECTION => exact find_signature_iff rfl _
      | PATH_TRAVERSAL => exact find_signature_iff rfl _
      | REFLECTED_XSS => exact find_signature_iff rfl _
      | SSRF =>
          have hdigits : METADATA_ADDRESS ⊆ java "0123456789." := by decide
          simp only [looksMalicious, JString.contains, decide_eq_true_eq]
          rw [platform.infix_lower_iff _ _ fun _ hd ↦ hdigits hd]
          simp [SignatureOccurs, signature, occurs_literal_iff]
      | UNSAFE_DESERIALIZATION | XXE | LDAP_INJECTION | XPATH_INJECTION | OPEN_REDIRECT
      | LOG_INJECTION | HEADER_INJECTION =>
          simp [looksMalicious, SignatureOccurs, signature]

/-! ## Inert characters -/

/-- The characters that some signature names, or that a boundary or `$` depends on. -/
def signatureChars : List JChar :=
  wordChars ++ spaces ++ lineTerminators ++ java "';-=&|`$(/\\.%<>:"

/-- The character matches no part of any signature, negated classes aside. -/
def Inert (c : JChar) : Prop :=
  c ∉ signatureChars

instance (c : JChar) : Decidable (Inert c) :=
  inferInstanceAs (Decidable (_ ∉ _))

/-- A class made of characters that signatures name ignores inert characters. -/
theorem ignores_class {symbols : List JChar} (h : symbols ⊆ signatureChars) :
    Ignores Inert (oneOf symbols) :=
  ignores_one_of fun _ hc hinert ↦ hinert (h hc)

/-- The nearest character is a word character, or not, for twins alike. -/
theorem beside_word_of_twins {s t : List JChar} (h : List.Forall₂ (Twins Inert) s t) :
    besideWord s = besideWord t := by
  cases h with
  | nil => rfl
  | cons htwins _ =>
      rcases htwins with rfl | ⟨ha, hb⟩
      · rfl
      · have hnot (c : JChar) (hc : Inert c) : c ∉ wordChars := fun hmem ↦
          hc (by simp [signatureChars, hmem])
        simp [besideWord, hnot _ ha, hnot _ hb]

/-- A word boundary does not depend on inert characters. -/
theorem ignores_word_boundary : Ignores Inert wordBoundary := by
  intro past past' rest rest' hpast hrest
  show (besideWord past != besideWord rest) = (besideWord past' != besideWord rest')
  rw [beside_word_of_twins hpast, beside_word_of_twins hrest]

/-- Twins are equal to the same characters that a signature names. -/
theorem beq_of_twins {a b c : JChar} (h : Twins Inert a b) (hc : c ∈ signatureChars) :
    (a == c) = (b == c) := by
  rcases h with rfl | ⟨ha, hb⟩
  · rfl
  · have hne (d : JChar) (hd : Inert d) : d ≠ c := fun heq ↦ hd (heq ▸ hc)
    rw [beq_false_of_ne (hne a ha), beq_false_of_ne (hne b hb)]

/-- Twins are line terminators alike. -/
theorem terminator_of_twins {a b : JChar} (h : Twins Inert a b) :
    decide (a ∈ lineTerminators) = decide (b ∈ lineTerminators) := by
  rcases h with rfl | ⟨ha, hb⟩
  · rfl
  · have hnot (c : JChar) (hc : Inert c) : c ∉ lineTerminators := fun hmem ↦
      hc (by simp [signatureChars, hmem])
    rw [decide_eq_false (hnot a ha), decide_eq_false (hnot b hb)]

/-- The end of the input does not depend on inert characters. -/
theorem ignores_end_of_input : Ignores Inert endOfInput := by
  intro past past' rest rest' hpast hrest
  have hafter : (past.head? == some 0x0D) = (past'.head? == some 0x0D) := by
    cases hpast with
    | nil => rfl
    | cons htwins _ => exact beq_of_twins htwins (by decide)
  show atFinalTerminator past rest = atFinalTerminator past' rest'
  rcases hrest with _ | ⟨hfirst, _ | ⟨hsecond, _ | ⟨_, _⟩⟩⟩
  · rfl
  · simp only [atFinalTerminator, hafter, terminator_of_twins hfirst,
      beq_of_twins hfirst (show (0x0A : JChar) ∈ signatureChars by decide)]
  · simp only [atFinalTerminator,
      beq_of_twins hfirst (show (0x0D : JChar) ∈ signatureChars by decide),
      beq_of_twins hsecond (show (0x0A : JChar) ∈ signatureChars by decide)]
  · rfl

/-- Spaces are named by signatures. -/
theorem ignores_any_spaces : Ignores Inert anySpaces :=
  ignores_class (by decide)

/-- A constant made of characters that signatures name ignores inert characters. -/
theorem ignores_literal {s : JString} (h : s ⊆ signatureChars) :
    Ignores Inert (literal s) := by
  refine ignores_all fun p hp ↦ ?_
  obtain ⟨c, hc, rfl⟩ := List.mem_map.mp hp
  refine ignores_class fun d hd ↦ ?_
  rw [List.mem_singleton.mp hd]
  exact h hc

/-- So does one that is matched in either case. -/
theorem ignores_keyword {s : String}
    (h : (java s).flatMap eitherCase ⊆ signatureChars) : Ignores Inert (keyword s) := by
  refine ignores_all fun p hp ↦ ?_
  obtain ⟨c, hc, rfl⟩ := List.mem_map.mp hp
  exact ignores_class fun d hd ↦ h (List.mem_flatMap.mpr ⟨c, hc, hd⟩)

/-- A whole word made of characters that signatures name ignores inert characters. -/
theorem ignores_whole_word {s : String} (h : java s ⊆ signatureChars) :
    Ignores Inert (wholeWord s) :=
  ⟨ignores_word_boundary, ignores_literal h, ignores_word_boundary, trivial⟩

/-- One or more spaces are named by signatures too. -/
theorem ignores_some_spaces : Ignores Inert someSpaces :=
  ⟨⟨ignores_class (by decide), trivial⟩, ignores_any_spaces⟩

/-- The signature of SQL injection ignores inert characters. -/
theorem ignores_SQL : Ignores Inert SQL := by
  have hbefore := ignores_word_boundary
  have hany := ignores_any_spaces
  have hsome := ignores_some_spaces
  refine ⟨⟨?_, hany, ⟨?_, ?_⟩, hany, ⟨?_, trivial⟩, ?_, trivial⟩,
    ⟨hbefore, ?_, hsome, ?_, hbefore, trivial⟩, ⟨?_, hany, ignores_end_of_input, trivial⟩,
    ⟨?_, hany, ?_, hsome, ?_, trivial⟩, hbefore, ?_, hsome, ?_, hany, ?_, hany, ?_, hbefore,
    trivial⟩
  case refine_5 => exact ignores_class (by decide)
  all_goals exact ignores_keyword (by decide)

/-- The signature of command injection ignores inert characters. -/
theorem ignores_COMMAND : Ignores Inert COMMAND := by
  refine ⟨ignores_class (by decide), ignores_literal (by decide), ?_, ?_, ?_,
    ignores_literal (by decide), ⟨ignores_literal (by decide), trivial⟩,
    ignores_literal (by decide), trivial⟩
  all_goals exact ignores_whole_word (by decide)

/-- The signature of path traversal ignores inert characters. -/
theorem ignores_TRAVERSAL : Ignores Inert TRAVERSAL :=
  ⟨ignores_keyword (by decide), ignores_keyword (by decide), ignores_keyword (by decide),
    ignores_class (by decide), trivial⟩

/-- The signature of cross-site scripting ignores inert characters: its negated class accepts all
of them. -/
theorem ignores_XSS : Ignores Inert XSS := by
  have htag : Ignores Inert (.many (noneOf (java ">"))) :=
    ignores_none_of fun c hc hinert ↦ hinert (by
      have h : java ">" ⊆ signatureChars := by decide
      exact h hc)
  refine ⟨⟨?_, ignores_word_boundary, trivial⟩, ?_, ⟨?_, ignores_any_spaces, ?_, trivial⟩,
    ⟨?_, ignores_any_spaces, ?_, trivial⟩, ?_, ignores_word_boundary, htag, ignores_word_boundary,
    ?_, trivial⟩
  all_goals exact ignores_keyword (by decide)

/-- Every signature ignores inert characters. -/
theorem ignores_signature {rule : RuleClass} {pattern : Pattern JChar}
    (h : pattern ∈ signature rule) : Ignores Inert pattern := by
  cases rule <;> cases h
  · exact ignores_SQL
  · exact ignores_COMMAND
  · exact ignores_TRAVERSAL
  · exact ignores_XSS
  · exact ignores_literal (by decide)

/-- Exchanging inert characters for each other changes no verdict. -/
theorem signature_occurs_iff_of_twins (rule : RuleClass) {value value' : JString}
    (h : List.Forall₂ (Twins Inert) value value') :
    SignatureOccurs rule value ↔ SignatureOccurs rule value' := by
  have hcandidate : List.Forall₂ (Twins Inert) (candidate value) (candidate value') := by
    rw [candidate, candidate, h.length_eq]
    split
    · exact List.forall₂_take _ h
    · exact h
  constructor
  · rintro ⟨pattern, hpattern, hoccurs⟩
    exact ⟨pattern, hpattern,
      (occurs_iff_of_twins (ignores_signature hpattern) hcandidate).mp hoccurs⟩
  · rintro ⟨pattern, hpattern, hoccurs⟩
    exact ⟨pattern, hpattern,
      (occurs_iff_of_twins (ignores_signature hpattern) hcandidate).mpr hoccurs⟩

/-- Whether the signature occurs is decided by the search. -/
instance (rule : RuleClass) (value : JString) : Decidable (SignatureOccurs rule value) :=
  decidable_of_iff ((signature rule).any fun pattern ↦ find pattern (candidate value)) (by
    simp [SignatureOccurs, find_iff, Option.any_eq_true])

example : SignatureOccurs .SQL_INJECTION (java "id = '' OR '1'='1' --") := by decide

end Aegis.Agent.AttackSignatures
