import Aegis.Access.Permissions
import Aegis.Server.IpAddress
import Aegis.Server.Paths

/-!
# Webhook destinations

`validate_destination` of `domain/entities/notifications.py`, which is to keep a webhook from an
address of the inside. `ip_address` reads an address of version 4 only in its plain spelling, and a
name with the dot of the root is another name; what gets past it is told by
`validate_destination_iff`.
-/

namespace Aegis.Export

open Server Access

/-! ## The parts of a URL -/

/-- The scheme of a URL, which `urlsplit` puts in lower case. -/
def urlScheme (url : PyStr) : PyStr :=
  let url := (url.dropWhile fun c ↦ c.val ≤ 32).filter fun c ↦ !isUnsafe c
  let scheme := url.takeWhile (· != 58)
  if scheme.length < url.length && scheme.head?.any isAsciiLetter && scheme.all isSchemeChar then
    scheme.map asciiLower
  else []

/-- The host of an authority as it is written: behind the user, in brackets or before the port. -/
def writtenHost (netloc : PyStr) : PyStr :=
  let hostinfo := (netloc.reverse.takeWhile (· != 64)).reverse
  if hostinfo.contains 91 then (cut 93 (cut 91 hostinfo).2).1 else (cut 58 hostinfo).1

/-- `parts.hostname`: the host in lower case, but for a zone. Nothing stands for `None`. -/
def hostname (library : Library) (netloc : PyStr) : PyStr :=
  let written := writtenHost netloc
  library.lower (written.takeWhile (· != 37)) ++ written.dropWhile (· != 37)

/-! ## Validation -/

/-- `_FORBIDDEN_HOSTS`. -/
def FORBIDDEN_HOSTS : List PyStr :=
  [py "metadata.google.internal", py "metadata", py "instance-data", py "localhost"]

/-- The error about a URL. -/
def urlError (message : PyStr) : DomainError :=
  .ValidationError message (py "url") []

/-- Whether an address is none to dial. -/
def isForbiddenAddress : IpAddress → Bool
  | .v4 number =>
      Ipv4.isPrivate number || Ipv4.isLoopback number || Ipv4.isLinkLocal number ||
        Ipv4.isReserved number || Ipv4.isMulticast number || Ipv4.isUnspecified number
  | .v6 number =>
      Ipv6.isPrivate number || Ipv6.isLoopback number || Ipv6.isLinkLocal number ||
        Ipv6.isReserved number || Ipv6.isMulticast number || Ipv6.isUnspecified number

/-- `validate_destination`. -/
def validateDestination (library : Library) (isNetloc : PyStr → Bool) (url : PyStr)
    (allowPrivate : Bool) : Except DomainError PyStr := do
  let parts ← (urlsplit isNetloc url.strip).mapError .BuiltinError
  if urlScheme url.strip ≠ py "https" then
    .error (urlError (py "A webhook URL must use https."))
  else if (hostname library parts.netloc).isEmpty then
    .error (urlError (py "A webhook URL must include a host."))
  else
    let host := library.lower (hostname library parts.netloc)
    if FORBIDDEN_HOSTS.contains host then
      .error (urlError (py "That host is not a permitted webhook destination."))
    else
      match ipAddress host with
      | none => .ok url.strip
      | some address =>
          if !allowPrivate && isForbiddenAddress address then
            .error (urlError
              (py "A webhook may not target a private, loopback or link-local address."))
          else .ok url.strip

/-! ## What a host names -/

/-- The host a URL of the right scheme is about, as it is written. -/
def destinationHost (isNetloc : PyStr → Bool) (url : PyStr) : Option PyStr :=
  match urlsplit isNetloc url.strip with
  | .ok parts =>
      if urlScheme url.strip = py "https" ∧ writtenHost parts.netloc ≠ [] then
        some (writtenHost parts.netloc)
      else none
  | .error _ => none

/-- A host without the dot of the root. -/
def rootless (host : PyStr) : PyStr :=
  if host.getLast? = some 46 then host.dropLast else host

/-- An address of version 4 that is private, loopback, link-local or unspecified. -/
def Ipv4Internal (number : Nat) : Prop :=
  Ipv4.isPrivate number = true ∨ Ipv4.isLoopback number = true ∨
    Ipv4.isLinkLocal number = true ∨ Ipv4.isUnspecified number = true

/-- The address of version 4 in one of version 6: mapped, compatible, translated by NAT64, or of
6to4. -/
def embedded (number : Nat) : Option Nat :=
  if number / 2 ^ 32 = 0xFFFF ∨ number / 2 ^ 32 = 0 ∨ number / 2 ^ 32 = 0x64FF9B * 2 ^ 64 then
    some (number % 2 ^ 32)
  else if number / 2 ^ 112 = 0x2002 then some (number / 2 ^ 80 % 2 ^ 32)
  else none

/-- An address of version 6 of these kinds, or with such an address in it. -/
def Ipv6Internal (number : Nat) : Prop :=
  Ipv6.isPrivate number = true ∨ Ipv6.isLoopback number = true ∨
    Ipv6.isLinkLocal number = true ∨ Ipv6.isUnspecified number = true ∨
    ∃ inner, embedded number = some inner ∧ Ipv4Internal inner

/-- Whether a resolver takes a host for an address or a name of the inside. It reads version 4 as
`inet_aton` does, is indifferent to the dot of the root, and to letter case. -/
def NamesInternal (written : PyStr) : Prop :=
  (∀ c ∈ written, c.val < 128) ∧
    (rootless (written.map asciiLower) ∈ FORBIDDEN_HOSTS ∨
      (∃ number, inetAton (rootless (written.map asciiLower)) = some number ∧
        Ipv4Internal number) ∨
      ∃ number, ipv6Address (written.map asciiLower) = some number ∧ Ipv6Internal number)

/-- A host of the inside in a spelling that is not seen through: an address of version 4 that is not
in four plain parts, or a forbidden name with the dot of the root. -/
def Evades (written : PyStr) : Prop :=
  (∀ c ∈ written, c.val < 128) ∧
    ((ipv4Address (written.map asciiLower) = none ∧
        ∃ number, inetAton (rootless (written.map asciiLower)) = some number ∧
          Ipv4Internal number) ∨
      ∃ name ∈ FORBIDDEN_HOSTS, written.map asciiLower = name ++ [46])

/-! ## What is seen through -/

section Validation

variable {library : Library} {isNetloc : PyStr → Bool} {url written : PyStr}

/-- What is validated of a host in ASCII is the host with its letters in lower case. -/
theorem lower_hostname (library : Library) {netloc : PyStr}
    (hascii : ∀ c ∈ writtenHost netloc, c.val < 128) :
    library.lower (hostname library netloc) = (writtenHost netloc).map asciiLower := by
  have hlower : ∀ c : PyChar, c.val < 128 →
      (asciiLower c).val < 128 ∧ asciiLower (asciiLower c) = asciiLower c := by
    intro c hc
    by_cases hupper : 65 ≤ c.val ∧ c.val ≤ 90
    · have hval : (c + 32).val = c.val + 32 := by
        show (c.val + 32) % 0x110000 = _
        omega
      rw [asciiLower, if_pos hupper, asciiLower, hval]
      exact ⟨by omega, if_neg (by omega)⟩
    · rw [asciiLower, if_neg hupper]
      exact ⟨hc, if_neg hupper⟩
  have hsplit := List.takeWhile_append_dropWhile (p := (· != (37 : PyChar))) (l := writtenHost netloc)
  have hname : ∀ c ∈ (writtenHost netloc).takeWhile (· != 37), c.val < 128 := fun c hc ↦
    hascii c ((List.takeWhile_sublist _).subset hc)
  have hzone : ∀ c ∈ (writtenHost netloc).dropWhile (· != 37), c.val < 128 := fun c hc ↦
    hascii c ((List.dropWhile_sublist _).subset hc)
  show library.lower (library.lower _ ++ _) = _
  rw [library.lower_ascii _ hname, library.lower_ascii, List.map_append, List.map_map]
  · have htwice : ((writtenHost netloc).takeWhile (· != 37)).map (asciiLower ∘ asciiLower) =
        ((writtenHost netloc).takeWhile (· != 37)).map asciiLower :=
      List.map_congr_left fun c hc ↦ (hlower c (hname c hc)).2
    rw [htwice, ← List.map_append, hsplit]
  · intro c hc
    rcases List.mem_append.mp hc with hc | hc
    · obtain ⟨d, hd, rfl⟩ := List.mem_map.mp hc
      exact (hlower d (hname d hd)).1
    · exact hzone c hc

theorem is_forbidden_address_v4 {number : Nat} (h : Ipv4Internal number) :
    isForbiddenAddress (.v4 number) = true := by
  rcases h with h | h | h | h <;> simp [isForbiddenAddress, h]

/-- An address with one of the inside in it is not dialled, nor is one of the inside. -/
theorem is_forbidden_address_v6 {number : Nat} (h : Ipv6Internal number) :
    isForbiddenAddress (.v6 number) = true := by
  rcases h with h | h | h | h | ⟨inner, hinner, -⟩
  · simp [isForbiddenAddress, h]
  · simp [isForbiddenAddress, h]
  · simp [isForbiddenAddress, h]
  · simp [isForbiddenAddress, h]
  rw [embedded] at hinner
  split at hinner
  · next hprefix =>
      -- the first byte is zero, and such addresses are reserved
      have hreserved : inNetwork 128 (Ipv6.network 0 0 8) number = true := by
        show (number / 2 ^ 120 == 0) = true
        rw [beq_iff_eq]
        omega
      have : Ipv6.isReserved number = true := by
        rw [Ipv6.isReserved, Ipv6.reservedNetworks, List.any_cons, hreserved, Bool.true_or]
      simp [isForbiddenAddress, this]
  · split at hinner
    · next hprefix h6to4 =>
        have hmapped : Ipv6.ipv4Mapped number = none := if_neg (by omega)
        have : Ipv6.isPrivate number = true := by
          have hprivate : Ipv6.privateNetworks.any (inNetwork 128 · number) = true := by
            refine List.any_eq_true.mpr ⟨Ipv6.network 0x2002 0 16, by decide, ?_⟩
            show (number / 2 ^ 112 == 0x2002) = true
            rw [h6to4]
            rfl
          have hexcepted : Ipv6.privateExceptions.any (inNetwork 128 · number) = false := by
            rw [List.any_eq_false]
            intro network hnetwork hin
            have hexceptions : ∀ network ∈ Ipv6.privateExceptions,
                128 - network.2 ≤ 112 ∧ network.1 / 2 ^ 112 = 0x2001 := by
              decide
            obtain ⟨hbits, hfirst⟩ := hexceptions network hnetwork
            have := div_of_in_network hin hbits
            omega
          rw [Ipv6.isPrivate, hmapped]
          show (_ && !_) = true
          rw [hprivate, hexcepted]
          rfl
        simp [isForbiddenAddress, this]
    · cases hinner

/-- A URL to a host in ASCII is accepted if the host is not forbidden and, read as an address, may be
dialled. -/
theorem validate_destination_eq_ok_iff (hhost : destinationHost isNetloc url = some written)
    (hascii : ∀ c ∈ written, c.val < 128) :
    (∃ accepted, validateDestination library isNetloc url false = .ok accepted) ↔
      written.map asciiLower ∉ FORBIDDEN_HOSTS ∧
        ∀ address, ipAddress (written.map asciiLower) = some address →
          isForbiddenAddress address = false := by
  rw [destinationHost] at hhost
  split at hhost
  swap
  · cases hhost
  next parts hparts =>
    split at hhost
    swap
    · cases hhost
    next hscheme =>
      obtain rfl := Option.some.inj hhost
      have hlower := lower_hostname library hascii
      have hnonempty : (hostname library parts.netloc).isEmpty = false := by
        rw [List.isEmpty_eq_false_iff]
        intro hempty
        rw [hempty, library.lower_ascii [] (List.forall_mem_nil _)] at hlower
        exact hscheme.2 (List.map_eq_nil_iff.mp hlower.symm)
      have hvalidate : validateDestination library isNetloc url false =
          if FORBIDDEN_HOSTS.contains ((writtenHost parts.netloc).map asciiLower) then
            .error (urlError (py "That host is not a permitted webhook destination."))
          else
            match ipAddress ((writtenHost parts.netloc).map asciiLower) with
            | none => .ok url.strip
            | some address =>
                if isForbiddenAddress address then
                  .error (urlError
                    (py "A webhook may not target a private, loopback or link-local address."))
                else .ok url.strip := by
        rw [validateDestination, hparts]
        show (if urlScheme url.strip ≠ py "https" then _ else if _ then _ else _) = _
        rw [if_neg (not_not.mpr hscheme.1), hnonempty, if_neg (by decide), hlower]
        rfl
      rw [hvalidate]
      by_cases hforbidden : (writtenHost parts.netloc).map asciiLower ∈ FORBIDDEN_HOSTS
      · rw [if_pos (List.contains_iff_mem.mpr hforbidden)]
        exact iff_of_false nofun fun h ↦ h.1 hforbidden
      · rw [if_neg (by simpa using hforbidden), and_iff_right hforbidden]
        cases haddress : ipAddress ((writtenHost parts.netloc).map asciiLower) with
        | none => exact iff_of_true ⟨_, rfl⟩ nofun
        | some address =>
            show (∃ accepted, (if isForbiddenAddress address then _ else _) = _) ↔ _
            cases hdial : isForbiddenAddress address with
            | true => exact iff_of_false nofun fun h ↦ by simpa [hdial] using h address rfl
            | false =>
                exact iff_of_true ⟨_, rfl⟩ fun other hother ↦ Option.some.inj hother ▸ hdial

theorem ip_address_eq_none {text : PyStr} (h4 : ipv4Address text = none)
    (hcolon : (58 : PyChar) ∉ text) : ipAddress text = none := by
  have h6 : ipv6Address text = none := by
    cases h6 : ipv6Address text with
    | none => rfl
    | some number => exact absurd (mem_of_ipv6_address h6) hcolon
  rw [ipAddress, h4, h6]
  rfl

/-- A host has the characters of its rootless form, and a dot perhaps. -/
theorem mem_rootless {text : PyStr} {c : PyChar} (h : c ∈ text) (hc : c ≠ 46) : c ∈ rootless text := by
  rw [rootless]
  split
  · next hlast =>
      obtain ⟨front, rfl⟩ := List.getLast?_eq_some_iff.mp hlast
      rw [List.dropLast_concat]
      rcases List.mem_append.mp h with h | h
      · exact h
      · exact absurd (List.mem_singleton.mp h) hc
  · exact h

/-- A host that evades is accepted. -/
theorem accepted_of_evades (h : Evades written) :
    written.map asciiLower ∉ FORBIDDEN_HOSTS ∧ ipAddress (written.map asciiLower) = none := by
  obtain ⟨-, ⟨h4, number, hread, -⟩ | ⟨name, hname, htext⟩⟩ := h
  · have hnames : ∀ name ∈ FORBIDDEN_HOSTS, inetAton (rootless name) = none := by decide +kernel
    refine ⟨fun hforbidden ↦ ?_, ip_address_eq_none h4 fun hcolon ↦ ?_⟩
    · cases hread.symm.trans (hnames _ hforbidden)
    · exact not_mem_of_inet_aton hread (mem_rootless hcolon (by decide))
  · have hnames : ∀ name ∈ FORBIDDEN_HOSTS, name ++ [46] ∉ FORBIDDEN_HOSTS ∧
        (58 : PyChar) ∉ name ++ [46] := by
      decide
    obtain ⟨hforbidden, hcolon⟩ := hnames name hname
    rw [htext]
    exact ⟨hforbidden, ip_address_eq_none (ipv4_address_concat name) hcolon⟩

theorem rootless_concat (text : PyStr) : rootless (text ++ [46]) = text := by
  rw [rootless, if_pos List.getLast?_concat, List.dropLast_concat]

/-- It names the inside. -/
theorem Evades.names_internal (h : Evades written) : NamesInternal written := by
  obtain ⟨hascii, ⟨-, hread⟩ | ⟨name, hname, htext⟩⟩ := h
  · exact ⟨hascii, .inr (.inl hread)⟩
  · refine ⟨hascii, .inl ?_⟩
    rw [htext, rootless_concat]
    exact hname

/-- Any other host of the inside is seen through. -/
theorem NamesInternal.evades (h : NamesInternal written)
    (hforbidden : written.map asciiLower ∉ FORBIDDEN_HOSTS)
    (haddress : ∀ address, ipAddress (written.map asciiLower) = some address →
      isForbiddenAddress address = false) : Evades written := by
  generalize htext : written.map asciiLower = text at *
  obtain ⟨hascii, hinside⟩ := h
  rw [htext] at hinside
  refine ⟨hascii, ?_⟩
  rw [htext]
  rcases hinside with hname | ⟨number, hread, hinternal⟩ | ⟨number, hread, hinternal⟩
  · -- a name that is forbidden without a dot has one
    rw [rootless] at hname
    split at hname
    · next hlast =>
        obtain ⟨front, rfl⟩ := List.getLast?_eq_some_iff.mp hlast
        rw [List.dropLast_concat] at hname
        exact .inr ⟨front, hname, rfl⟩
    · exact absurd hname hforbidden
  · cases h4 : ipv4Address text with
    | none => exact .inl ⟨rfl, number, hread, hinternal⟩
    | some plain =>
        -- a plain spelling is read as it is, and refused
        have hroot : rootless text = text := by
          refine if_neg fun hlast ↦ ?_
          obtain ⟨front, rfl⟩ := List.getLast?_eq_some_iff.mp hlast
          cases h4.symm.trans (ipv4_address_concat front)
        rw [hroot, inet_aton_of_ipv4 h4] at hread
        obtain rfl := Option.some.inj hread
        have hdial := haddress (.v4 plain) (by rw [ipAddress, h4]; rfl)
        cases (is_forbidden_address_v4 hinternal).symm.trans hdial
  · -- an address of version 6 is read as it is
    have h4 : ipv4Address text = none := by
      cases h4 : ipv4Address text with
      | none => rfl
      | some plain =>
          exact absurd (mem_of_ipv6_address hread) (not_mem_of_inet_aton (inet_aton_of_ipv4 h4))
    have hdial := haddress (.v6 number) (by rw [ipAddress, h4, hread]; rfl)
    cases (is_forbidden_address_v6 hinternal).symm.trans hdial

end Validation

end Aegis.Export
