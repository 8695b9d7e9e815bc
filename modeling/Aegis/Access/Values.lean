import Aegis.Access.Permissions

/-!
# Value objects

`domain/value_objects.py`: addresses and slugs, which are normalised when they are built, and the
canonical form of a recovery code.
-/

namespace Aegis.Access

open Aegis.Server

/-- Python's `unicodedata.normalize("NFKC", …)` and `("NFKD", …)`, and the case of letters. -/
structure Unicode where
  library : Library
  nfkc : PyStr → PyStr
  nfkd : PyStr → PyStr

/-- A letter or digit of ASCII. -/
def isAsciiAlnum (c : PyChar) : Bool :=
  (48 ≤ c.val && c.val ≤ 57) || (65 ≤ c.val && c.val ≤ 90) || (97 ≤ c.val && c.val ≤ 122)

namespace EmailAddress

/-- The characters `\s` matches. -/
def isBlank (c : PyChar) : Bool :=
  PyStr.isSpace c

/-- The domain of an address: letters, digits, hyphens and dots, with a letter or digit at each
end. -/
def isDomain (domain : PyStr) : Bool :=
  domain.head?.any isAsciiAlnum && domain.getLast?.any isAsciiAlnum && domain.length ≤ 253 &&
    domain.all fun c ↦ isAsciiAlnum c || c.val == 45 || c.val == 46

/-- `_EMAIL_RE.match(raw)`, with a dot in the domain. -/
def isAddress (raw : PyStr) : Bool :=
  let localPart := raw.takeWhile fun c ↦ c.val != 64
  let domain := raw.drop (localPart.length + 1)
  !localPart.isEmpty && localPart.length ≤ 64 && !localPart.any isBlank &&
    localPart.length < raw.length && isDomain domain && domain.any fun c ↦ c.val == 46

/-- `EmailAddress(value).value`. -/
def make (unicode : Unicode) (value : PyStr) : Except DomainError PyStr :=
  let raw := unicode.library.lower (unicode.nfkc value).strip
  if raw.isEmpty || 254 < raw.length || !isAddress raw then .error .InvalidEmailError else .ok raw

end EmailAddress

namespace Slug

/-- `_RESERVED_SLUGS`. -/
def reserved : List PyStr :=
  [py "api", py "app", py "admin", py "www", py "auth", py "login", py "static", py "assets",
    py "aegis", py "system"]

/-- Whether text is made of words of lower case letters and digits with single hyphens between
them. `word` says that the last character was of a word. -/
def isHyphenated (word : Bool) : PyStr → Bool
  | [] => word
  | c :: rest =>
      if c.val == 45 then word && isHyphenated false rest
      else (48 ≤ c.val && c.val ≤ 57 || 97 ≤ c.val && c.val ≤ 122) && isHyphenated true rest

/-- `Slug(value).value`. -/
def make (unicode : Unicode) (value : PyStr) : Except DomainError PyStr :=
  let raw := unicode.library.lower value.strip
  if raw.isEmpty || 63 < raw.length || !isHyphenated false raw || reserved.contains raw then
    .error .InvalidSlugError
  else .ok raw

/-- A character of a slug other than the hyphen. -/
def isSlugCharacter (c : PyChar) : Bool :=
  (48 ≤ c.val && c.val ≤ 57) || (97 ≤ c.val && c.val ≤ 122)

/-- Every run of other characters as one hyphen. `gap` says that the last character was one. -/
def hyphenate (gap : Bool) : PyStr → PyStr
  | [] => []
  | c :: rest =>
      if isSlugCharacter c then c :: hyphenate false rest
      else if gap then hyphenate true rest
      else 45 :: hyphenate true rest

/-- `text.strip("-")`. -/
def stripHyphens (text : PyStr) : PyStr :=
  ((text.dropWhile (· == 45)).reverse.dropWhile (· == 45)).reverse

/-- `Slug.from_name(name)`. -/
def fromName (unicode : Unicode) (name : PyStr) : Except DomainError PyStr :=
  let asciiName := unicode.library.lower ((unicode.nfkd name).filter fun c ↦ c.val < 128)
  let candidate := stripHyphens ((stripHyphens (hyphenate false asciiName)).take 63)
  if candidate.isEmpty then .error .InvalidSlugError
  else make unicode (if reserved.contains candidate then candidate ++ py "-org" else candidate)

end Slug

/-- `normalize_recovery_code(raw)`. -/
def normalizeRecoveryCode (unicode : Unicode) (raw : PyStr) : PyStr :=
  unicode.library.upper (raw.strip.filter fun c ↦ c.val != 32 && c.val != 45)

end Aegis.Access
