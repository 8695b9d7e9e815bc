import Aegis.Agent.Platform

/-!
# The redactor

`Redactor` of the Java agent, the control meant to keep secrets inside the process: a deny-list of
key names, patterns of secret-looking values, and a capture mode that says how much of a value is
kept at all.
-/

namespace Aegis.Agent

open Pattern

/-- How much of a value is kept once it passes the key and pattern checks. -/
inductive CaptureMode where
  | NONE | HASHED | TRUNCATED | FULL
  deriving DecidableEq, Repr

/-- The settings of a redactor. -/
structure Redactor where
  deniedKeys : List JString
  captureMode : CaptureMode
  maxValueLength : Nat
  redactEmails : Bool

namespace Redactor

/-- What stands in place of a redacted value. -/
def PLACEHOLDER : JString :=
  java "[redacted]"

/-- The default deny-list. -/
def DEFAULT_KEYS : List JString :=
  ["password", "passwd", "pwd", "secret", "token", "access_token", "refresh_token", "api_key",
    "apikey", "authorization", "auth", "cookie", "set-cookie", "session", "sessionid",
    "jsessionid", "csrf", "ssn", "card", "cardnumber", "cvv", "cvc", "pan", "pin", "private_key",
    "client_secret"].map java

/-- The shape of a payment card: 13 to 19 digits with optional separators. -/
def CARD : Pattern JChar :=
  all [wordBoundary, between (all [oneOf digits, optional (oneOf (java " -"))]) 13 19,
    wordBoundary]

/-- One part of a token: at least five characters of base64url. -/
def tokenPart : Pattern JChar :=
  atLeast (oneOf (letters ++ digits ++ java "_-")) 5

/-- The shape of a signed token: three parts with dots between. -/
def JWT : Pattern JChar :=
  all [wordBoundary, literal (java "eyJ"), tokenPart, literal (java "."), tokenPart,
    literal (java "."), tokenPart, wordBoundary]

/-- The shape of an email address. -/
def EMAIL : Pattern JChar :=
  all [wordBoundary, between (oneOf (letters ++ digits ++ java "._%+-")) 1 64, literal (java "@"),
    between (oneOf (letters ++ digits ++ java ".-")) 1 255, literal (java "."),
    atLeast (oneOf letters) 2, wordBoundary]

variable (platform : Platform)

/-- The constructor. Null and blank extra keys are dropped and the others lower-cased. -/
def create (extraKeys : Option (List (Option JString))) (captureMode : CaptureMode)
    (maxValueLength : Int) (redactEmails : Bool) : Redactor where
  deniedKeys :=
    DEFAULT_KEYS ++ ((extraKeys.getD []).filterMap fun key ↦ key.filter fun key ↦
      !key.isBlank).map platform.toLowerCase
  captureMode := captureMode
  maxValueLength := maxValueLength.toNat
  redactEmails := redactEmails

/-- A field with this name must never have its value transmitted. -/
def isSensitiveKey (r : Redactor) (name : Option JString) : Bool :=
  match name with
  | none | some [] => false
  | some name => r.deniedKeys.any fun denied ↦ (platform.toLowerCase name).contains denied

/-- The value with everything that looks like a secret replaced. -/
def scrub (r : Redactor) (value : JString) : JString :=
  let scrubbed := replaceAll CARD PLACEHOLDER (replaceAll JWT PLACEHOLDER value)
  if r.redactEmails then replaceAll EMAIL PLACEHOLDER scrubbed else scrubbed

/-- Redact a bare value, used for sink arguments. -/
def redactValue (r : Redactor) (value : Option JString) : JString :=
  match value, r.captureMode with
  | none, _ => []
  | some _, .NONE => PLACEHOLDER
  | some value, .HASHED => java "sha256:" ++ (platform.sha256 value).take 32
  | some value, .TRUNCATED =>
      let scrubbed := r.scrub value
      if scrubbed.length > r.maxValueLength then scrubbed.take r.maxValueLength ++ java "…"
      else scrubbed
  | some value, .FULL => r.scrub value

/-- Redact by field name first, then by value shape. -/
def redact (r : Redactor) (name value : Option JString) : JString :=
  if r.isSensitiveKey platform name then PLACEHOLDER else r.redactValue platform value

/-- Redact a whole map of parameters or headers. -/
def redactAll (r : Redactor) (values : List (JString × JString)) : List (JString × JString) :=
  values.map fun entry ↦ (entry.1, r.redact platform (some entry.1) (some entry.2))

/-- Under the mode that captures nothing, nothing of a value is kept. -/
theorem redact_value_none {r : Redactor} (hmode : r.captureMode = .NONE) (value : JString) :
    r.redactValue platform (some value) = PLACEHOLDER := by
  simp [redactValue, hmode]

/-- Redacting a map hides the values of its sensitive keys. -/
theorem redact_all_congr {r : Redactor} {values values' : List (JString × JString)}
    (h : List.Forall₂ (fun entry entry' ↦ entry.1 = entry'.1 ∧
      (r.isSensitiveKey platform (some entry.1) = true ∨ entry.2 = entry'.2)) values values') :
    r.redactAll platform values = r.redactAll platform values' := by
  induction h with
  | nil => rfl
  | @cons entry entry' values values' hentry _ ih =>
      obtain ⟨hkey, hvalue⟩ := hentry
      rw [redactAll, List.map_cons, ← redactAll, ih, redactAll, redactAll, List.map_cons, ← hkey]
      rcases hvalue with hsensitive | hvalue
      · simp [redact, hsensitive]
      · rw [hvalue]

end Redactor

end Aegis.Agent
