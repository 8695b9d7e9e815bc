import Aegis.Export.Cef
import Aegis.Export.CefParsing
import Aegis.Server.Json.Numbers

/-!
# What a collector reads

Both exporters against the format. `to_cef` of `application/siem.py` writes the event that was
meant, with the line breaks of the values folded into one kind, except that a line break in the
header is written as it is. `SiemExporter.to_cef` writes the event that was meant as long as
nothing in it needs an escape.
-/

namespace Aegis.Export

open Server Api Json Cef

/-! ## Line breaks -/

/-- Text with one kind of line break: a carriage return, or one with a line feed, is a line
feed. -/
def foldBreaks : PyStr → PyStr
  | [] => []
  | [c] => [if c = pyChar '\r' then pyChar '\n' else c]
  | c :: d :: rest =>
      if c = pyChar '\r' ∧ d = pyChar '\n' then pyChar '\n' :: foldBreaks rest
      else (if c = pyChar '\r' then pyChar '\n' else c) :: foldBreaks (d :: rest)

/-- Text on one line is left as it is. -/
theorem fold_breaks_of_one_line {s : PyStr} (h : OneLine s) : foldBreaks s = s := by
  induction s using foldBreaks.induct with
  | case1 => rfl
  | case2 c => rw [foldBreaks, if_neg (h c (List.mem_singleton_self c)).2]
  | case3 c d rest hbreak => exact absurd hbreak.1 (h c List.mem_cons_self).2
  | case4 c d rest hbreak ih =>
      rw [foldBreaks, if_neg hbreak, if_neg (h c List.mem_cons_self).2,
        ih (List.forall_mem_cons.mp h).2]

namespace Siem

/-! ## The escaping exporter -/

/-- A field of the header is written as the format wants it. -/
theorem cef_header_eq (value : PyStr) : cefHeader value = writeField value := by
  have hbackslash : py "\\" = [mark] := rfl
  have hbar : py "|" = [pyChar '|'] := rfl
  rw [cefHeader, hbackslash, hbar, PyStr.replace_char, PyStr.replace_char, List.flatMap_assoc,
    writeField, List.flatMap_map]
  refine List.flatMap_congr fun c _ ↦ ?_
  by_cases hc : c = mark
  · rw [hc]
    decide
  · by_cases hc' : c = pyChar '|'
    · rw [hc']
      decide
    · simp [hc, hc', headerToken, Escape.written]

/-- What the first two replacements of `_cef_value` make of a character. -/
def escapeSigns (c : PyChar) : PyStr :=
  if c = mark then py "\\\\" else if c = pyChar '=' then py "\\=" else [c]

/-- What the last two make of it. -/
def escapeBreaks (c : PyChar) : PyStr :=
  if c = pyChar '\n' ∨ c = pyChar '\r' then py "\\n" else [c]

/-- What they make of a text. -/
theorem cef_value_steps (value : Value) :
    cefValue value = (PyStr.replace (value.str.flatMap escapeSigns) (py "\r\n")
      (py "\\n")).flatMap escapeBreaks := by
  have hsigns : (value.str.replace (py "\\") (py "\\\\")).replace (py "=") (py "\\=") =
      value.str.flatMap escapeSigns := by
    rw [show py "\\" = [mark] from rfl, show py "=" = [pyChar '='] from rfl, PyStr.replace_char,
      PyStr.replace_char, List.flatMap_assoc]
    refine List.flatMap_congr fun c _ ↦ ?_
    by_cases hc : c = mark
    · rw [hc]
      decide
    · simp [hc, escapeSigns]
  have hbreaks : ∀ s : PyStr, (s.replace (py "\n") (py "\\n")).replace (py "\r") (py "\\n") =
      s.flatMap escapeBreaks := by
    intro s
    rw [show py "\n" = [pyChar '\n'] from rfl, show py "\r" = [pyChar '\r'] from rfl,
      PyStr.replace_char, PyStr.replace_char, List.flatMap_assoc]
    refine List.flatMap_congr fun c _ ↦ ?_
    by_cases hc : c = pyChar '\n'
    · rw [hc]
      decide
    · simp [hc, escapeBreaks]
  rw [cefValue, hsigns, hbreaks]

/-- Both together, of a character that is left alone by the replacement between them. -/
theorem escape_char (c : PyChar) :
    (escapeSigns c).flatMap escapeBreaks =
      Escape.written mark (valueToken (if c = pyChar '\r' then pyChar '\n' else c)) := by
  by_cases hr : c = pyChar '\r'
  · rw [hr]
    decide
  by_cases hn : c = pyChar '\n'
  · rw [hn]
    decide
  by_cases hc : c = mark
  · rw [hc]
    decide
  by_cases hs : c = pyChar '='
  · rw [hs]
    decide
  simp [escapeSigns, escapeBreaks, hr, hn, hc, hs, valueToken, Escape.written]

/-- The first two make no line break that was not there, and no other break of a line. -/
theorem head_escape_signs {d : PyChar} (hd : d ≠ pyChar '\n') (rest : PyStr) :
    ((d :: rest).flatMap escapeSigns).head? ≠ some (pyChar '\n') := by
  have hmark : mark ≠ pyChar '\n' := by decide
  rw [List.flatMap_cons, escapeSigns]
  split_ifs
  · exact fun h ↦ hmark (Option.some.inj h)
  · exact fun h ↦ hmark (Option.some.inj h)
  · exact fun h ↦ hd (Option.some.inj h)

/-- A character that starts no line break is passed over. -/
theorem replace_escape_signs {c : PyChar} {s : PyStr}
    (h : c = pyChar '\r' → s.head? ≠ some (pyChar '\n')) :
    PyStr.replace (escapeSigns c ++ s) (py "\r\n") (py "\\n") =
      escapeSigns c ++ s.replace (py "\r\n") (py "\\n") := by
  rw [show py "\r\n" = [pyChar '\r', pyChar '\n'] from rfl]
  unfold escapeSigns
  split_ifs with hc hs
  · show PyStr.replace (mark :: mark :: s) _ _ = _
    rw [PyStr.replace_pair_cons fun h ↦ absurd h (by decide),
      PyStr.replace_pair_cons fun h ↦ absurd h (by decide)]
    rfl
  · show PyStr.replace (mark :: pyChar '=' :: s) _ _ = _
    rw [PyStr.replace_pair_cons fun h ↦ absurd h (by decide),
      PyStr.replace_pair_cons fun h ↦ absurd h (by decide)]
    rfl
  · exact PyStr.replace_pair_cons h

/-- A value is written as the format wants it, with its line breaks folded. -/
theorem cef_value_eq (value : Value) : cefValue value = writeValue (foldBreaks value.str) := by
  rw [cef_value_steps]
  induction value.str using foldBreaks.induct with
  | case1 => rfl
  | case2 c =>
      have hpassed := @replace_escape_signs c [] fun _ ↦ nofun
      rw [List.append_nil] at hpassed
      rw [List.flatMap_singleton, hpassed]
      show ((escapeSigns c ++ []).flatMap escapeBreaks) = _
      rw [List.append_nil, escape_char, foldBreaks]
      exact (List.append_nil _).symm
  | case3 c d rest hbreak ih =>
      obtain ⟨rfl, rfl⟩ := hbreak
      rw [foldBreaks, if_pos ⟨rfl, rfl⟩]
      show (PyStr.replace (pyChar '\r' :: pyChar '\n' :: rest.flatMap escapeSigns)
        [pyChar '\r', pyChar '\n'] (py "\\n")).flatMap escapeBreaks = _
      rw [PyStr.replace_pair, List.flatMap_append]
      exact congrArg (py "\\n" ++ ·) ih
  | case4 c d rest hbreak ih =>
      have hpassed :
          PyStr.replace ((c :: d :: rest).flatMap escapeSigns) (py "\r\n") (py "\\n") =
            escapeSigns c ++
              PyStr.replace ((d :: rest).flatMap escapeSigns) (py "\r\n") (py "\\n") := by
        rw [List.flatMap_cons]
        exact replace_escape_signs fun hc ↦ head_escape_signs (fun hd ↦ hbreak ⟨hc, hd⟩) rest
      rw [hpassed, List.flatMap_append, escape_char, ih, foldBreaks, if_neg hbreak]
      rfl

/-- The event `to_cef` is meant to describe: the fields of the header, and the extension with its
line breaks folded. -/
def meant (finding : Finding) (occurrence : Option Occurrence) (productVersion : PyStr)
    (maxArgumentLength : Int) : Event where
  header := [py "CEF:0", py "Aegis", py "Aegis IAST", productVersion, finding.ruleKey,
    finding.title.val, severityText finding]
  extension := (extensions finding occurrence maxArgumentLength).map
    fun pair ↦ (pair.1, foldBreaks pair.2.str)

/-- A number needs no escape, and is on one line. -/
theorem plain_of_int_text (n : Int) : PlainField (intText n) where
  one_line c hc := by
    have hchar := number_chars_int n c hc
    constructor <;> rintro rfl <;> exact absurd hchar (by decide)
  no_mark hc := absurd (number_chars_int n _ hc) (by decide)
  no_bar hc := absurd (number_chars_int n _ hc) (by decide)

theorem is_key_of_mem (names : List PyStr) {pairs : List (PyStr × Value)} {pair : PyStr × Value}
    (hpairs : pairs.map Prod.fst = names) (h : pair ∈ pairs)
    (hnames : ∀ name ∈ names, IsKey name) : IsKey pair.1 :=
  hnames _ (hpairs ▸ List.mem_map_of_mem h)

/-- Every key an occurrence adds is one. -/
theorem is_key_of_mem_occurrence_extensions {occurrence : Occurrence} {maxArgumentLength : Int}
    {pair : PyStr × Value} (h : pair ∈ occurrenceExtensions occurrence maxArgumentLength) :
    IsKey pair.1 := by
  have hone : ∀ (key : PyStr) (value : Value) (b : Bool), IsKey key →
      pair ∈ (if b then [(key, value)] else []) → IsKey pair.1 := by
    intro key value b hkey hpair
    cases b with
    | true => rwa [List.mem_singleton.mp hpair]
    | false => cases hpair
  simp only [occurrenceExtensions, List.mem_append] at h
  rcases h with ((h | h) | h) | h
  · exact hone _ _ _ (by decide) h
  · exact hone _ _ _ (by decide) h
  · exact hone _ _ _ (by decide) h
  · exact hone _ _ _ (by decide) h

/-- Every key of the extension is one. -/
theorem is_key_of_mem_extensions {finding : Finding} {occurrence : Option Occurrence}
    {maxArgumentLength : Int} {pair : PyStr × Value}
    (h : pair ∈ extensions finding occurrence maxArgumentLength) : IsKey pair.1 := by
  rw [extensions] at h
  simp only [List.mem_append] at h
  rcases h with (((h | h) | h) | h) | h
  · exact is_key_of_mem [py "externalId", py "cat", py "cs1Label", py "cs1", py "cs2Label",
      py "cs2", py "cs3Label", py "cs3", py "cs4Label", py "cs4", py "cn1Label", py "cn1",
      py "cn2Label", py "cn2"] rfl h (by decide)
  · cases hcwe : finding.cweId with
    | none => rw [hcwe] at h; cases h
    | some cwe =>
        rw [hcwe] at h
        exact is_key_of_mem [py "cs5Label", py "cs5"] rfl h (by decide)
  · cases hseen : finding.lastSeenAt with
    | none => rw [hseen] at h; cases h
    | some lastSeenAt =>
        rw [hseen] at h
        exact is_key_of_mem [py "end"] rfl h (by decide)
  · split_ifs at h
    · exact is_key_of_mem [py "deviceCustomString6Label", py "deviceCustomString6"] rfl h
        (by decide)
    · cases h
  · cases occurrence with
    | none => cases h
    | some occurrence => exact is_key_of_mem_occurrence_extensions h

/-- `to_cef` writes the event that is meant. -/
theorem to_cef_eq (finding : Finding) (occurrence : Option Occurrence) (productVersion : PyStr)
    (maxArgumentLength : Int) :
    toCef finding occurrence productVersion maxArgumentLength =
      (meant finding occurrence productVersion maxArgumentLength).write := by
  have hversion : writeField (py "CEF:0") = py "CEF:" ++ PyStr.decimal CEF_VERSION := by decide
  have hseverity : writeField (severityText finding) = severityText finding :=
    write_field_of_plain (plain_of_int_text _)
  have hheader : (py "CEF:" ++ PyStr.decimal CEF_VERSION) ::
      ((escapedHeader finding productVersion).map cefHeader ++ [severityText finding]) =
        (meant finding occurrence productVersion maxArgumentLength).header.map writeField := by
    simp only [meant, escapedHeader, List.map_cons, List.map_nil, List.cons_append,
      List.nil_append, cef_header_eq, hversion, hseverity]
  have hbody : (extensions finding occurrence maxArgumentLength).map
      (fun pair ↦ pair.1 ++ py "=" ++ cefValue pair.2) =
        (meant finding occurrence productVersion maxArgumentLength).extension.map writePair := by
    simp only [meant, List.map_map, cef_value_eq]
    rfl
  rw [toCef, Event.write, ← hheader, ← hbody]

theorem is_key_of_mem_meant {finding : Finding} {occurrence : Option Occurrence}
    {productVersion : PyStr} {maxArgumentLength : Int} :
    ∀ pair ∈ (meant finding occurrence productVersion maxArgumentLength).extension,
      IsKey pair.1 := by
  intro pair hpair
  obtain ⟨pair, hmem, rfl⟩ := List.mem_map.mp hpair
  exact is_key_of_mem_extensions hmem

/-- A collector that takes all of the text for one line reads the event that is meant. -/
theorem parse_to_cef (finding : Finding) (occurrence : Option Occurrence) (productVersion : PyStr)
    (maxArgumentLength : Int) :
    parse (toCef finding occurrence productVersion maxArgumentLength) =
      some (meant finding occurrence productVersion maxArgumentLength) := by
  rw [to_cef_eq]
  exact parse_write rfl is_key_of_mem_meant

/-- The text is one line unless the version, the rule or the title has a line break. -/
theorem one_line_to_cef (finding : Finding) (occurrence : Option Occurrence)
    (productVersion : PyStr) (maxArgumentLength : Int) :
    OneLine (toCef finding occurrence productVersion maxArgumentLength) ↔
      OneLine productVersion ∧ OneLine finding.ruleKey ∧ OneLine finding.title.val := by
  have hseverity : OneLine (severityText finding) := (plain_of_int_text _).one_line
  have hconstant : OneLine (py "CEF:0") ∧ OneLine (py "Aegis") ∧ OneLine (py "Aegis IAST") := by
    decide
  rw [to_cef_eq, Event.one_line_write is_key_of_mem_meant]
  simp only [meant, List.forall_mem_cons, List.not_mem_nil, false_imp_iff, implies_true,
    hconstant, hseverity, true_and, and_true]

/-- A collector reads one event, the one that is meant, exactly where the version, the rule and the
title have no line break. The values of the extension may hold anything. -/
theorem to_cef_parses_back_iff (finding : Finding) (occurrence : Option Occurrence)
    (productVersion : PyStr) (maxArgumentLength : Int) :
    (OneLine (toCef finding occurrence productVersion maxArgumentLength) ∧
        parse (toCef finding occurrence productVersion maxArgumentLength) =
          some (meant finding occurrence productVersion maxArgumentLength)) ↔
      OneLine productVersion ∧ OneLine finding.ruleKey ∧ OneLine finding.title.val := by
  rw [one_line_to_cef]
  exact and_iff_left (parse_to_cef finding occurrence productVersion maxArgumentLength)

end Siem

/-- A finding at a sink, titled after the frame it was seen in. -/
def findingAt (title : Title) (sinkSignature : PyStr) : Finding :=
  Finding.create 1 0 2 (py "a") (py "sql-injection") title .CRITICAL .EXPLOITED sinkSignature
    (py "PARAMETER") (py "b")

/-- A method whose name has a line feed makes two lines of the event. -/
theorem Siem.to_cef_two_lines :
    ¬ ∀ (finding : Finding) (occurrence : Option Occurrence) (productVersion : PyStr)
      (maxArgumentLength : Int),
      OneLine (toCef finding occurrence productVersion maxArgumentLength) ∧
        parse (toCef finding occurrence productVersion maxArgumentLength) =
          some (meant finding occurrence productVersion maxArgumentLength) := by
  intro h
  have hline := (h (findingAt ⟨py "SQL injection in Dao.find\nCEF:0", by decide, by decide⟩
    (py "java.sql.Statement.execute")) none (py "0.2.0") 1024).1
  rw [one_line_to_cef] at hline
  exact absurd hline.2.2 (by decide)

/-! ## The exporter that does not escape -/

namespace SiemExporter

/-- The event a line is meant to describe, the finding's own fields. -/
def meant (finding : Finding) : Event where
  header := header finding
  extension := extensions finding

/-- Two lines describe the same finding where they agree on the rule, the sink, the status and the
confidence, each under the labels of its own exporter. -/
structure SameFinding (ours theirs : Event) : Prop where
  ruleKey : ours.header[4]? = theirs.header[4]?
  sink : ours.extension.lookup (py "cs1") = theirs.extension.lookup (py "cs3")
  status : ours.extension.lookup (py "cs2") = theirs.extension.lookup (py "cs1")
  confidence : ours.extension.lookup (py "cs3") = theirs.extension.lookup (py "cs2")

/-- The line describes the finding: it is one line, a collector reads the finding's own fields in
it, and the same finding in the lines of the other exporter. -/
structure Describes (finding : Finding) : Prop where
  one_line : OneLine (toCef finding)
  read : parse (toCef finding) = some (meant finding)
  agrees : ∀ (occurrence : Option Occurrence) (productVersion : PyStr) (maxArgumentLength : Int),
    ∃ theirs, parse (Siem.toCef finding occurrence productVersion maxArgumentLength) =
      some theirs ∧ SameFinding (meant finding) theirs

/-- A number in floating point needs no escape either. -/
theorem plain_of_float_text (value : ℚ) : PlainValue (floatText value) where
  one_line c hc := by
    have hchar := number_chars_float value c hc
    constructor <;> rintro rfl <;> exact absurd hchar (by decide)
  no_mark hc := absurd (number_chars_float value _ hc) (by decide)
  no_sign hc := absurd (number_chars_float value _ hc) (by decide)

theorem plain_of_decimal (n : Nat) : PlainField (PyStr.decimal n) :=
  Siem.plain_of_int_text n

/-- The name of a status or of a confidence is plain text. -/
theorem plain_of_value (finding : Finding) :
    PlainValue finding.status.value ∧ PlainValue finding.confidence.value := by
  constructor
  · cases finding.status <;> exact ⟨by decide, by decide, by decide⟩
  · cases finding.confidence <;> exact ⟨by decide, by decide, by decide⟩

/-- A constant of the header. -/
theorem plain_field_of (field : PyStr)
    (h : OneLine field ∧ mark ∉ field ∧ pyChar '|' ∉ field) : PlainField field :=
  ⟨h.1, h.2.1, h.2.2⟩

/-- A constant of the extension. -/
theorem plain_value_of (value : PyStr)
    (h : OneLine value ∧ mark ∉ value ∧ pyChar '=' ∉ value) : PlainValue value :=
  ⟨h.1, h.2.1, h.2.2⟩

/-- Every key of the extension is one. -/
theorem is_key_of_mem_meant (finding : Finding) :
    ∀ pair ∈ (meant finding).extension, IsKey pair.1 := by
  have hkeys : ∀ key ∈ (meant finding).extension.map Prod.fst, IsKey key := by
    have hmap : (meant finding).extension.map Prod.fst = [py "cn1", py "cn1Label", py "cs1",
        py "cs1Label", py "cs2", py "cs2Label", py "cs3", py "cs3Label", py "externalId"] := rfl
    rw [hmap]
    decide
  exact fun pair hpair ↦ hkeys _ (List.mem_map_of_mem hpair)

/-- So is a UUID. -/
theorem plain_of_uuid (id : Uuid) : PlainValue id.toStr := by
  have hdigits : ∀ digit < 16, OneLine [PyStr.hexDigit digit] ∧
      mark ∉ [PyStr.hexDigit digit] ∧ pyChar '=' ∉ [PyStr.hexDigit digit] := by
    decide
  have hchar : ∀ c ∈ id.toStr, PlainValue [c] := by
    intro c hc
    rcases Uuid.mem_to_str hc with hc | ⟨digit, hdigit, rfl⟩
    · rw [List.mem_singleton.mp hc]
      exact plain_value_of _ (by decide)
    · exact plain_value_of _ (hdigits digit hdigit)
  exact {
    one_line := fun c hc ↦ (hchar c hc).one_line c (List.mem_singleton_self c)
    no_mark := fun hc ↦ (hchar _ hc).no_mark (List.mem_singleton_self _)
    no_sign := fun hc ↦ (hchar _ hc).no_sign (List.mem_singleton_self _) }

/-- A finding whose rule and sink have nothing to escape. -/
structure Plain (finding : Finding) : Prop where
  ruleKey : PlainField finding.ruleKey
  sinkSignature : PlainValue finding.sinkSignature

/-- The name of the event is plain where the rule is. -/
theorem plain_event_name {finding : Finding} (h : PlainField finding.ruleKey) :
    PlainField (eventName finding) where
  one_line := one_line_append.mpr ⟨by decide, h.one_line⟩
  no_mark hc := (List.mem_append.mp hc).elim (fun hc ↦ absurd hc (by decide)) h.no_mark
  no_bar hc := (List.mem_append.mp hc).elim (fun hc ↦ absurd hc (by decide)) h.no_bar

/-- Everything a line is made of besides the rule and the sink is plain. -/
theorem plain_meant_iff (finding : Finding) :
    ((∀ field ∈ (meant finding).header, PlainField field) ∧
      ∀ pair ∈ (meant finding).extension, PlainValue pair.2) ↔ Plain finding := by
  have hconstants : PlainField (py "CEF:0") ∧ PlainField (py "Aegis") ∧ PlainField (py "IAST") ∧
      PlainField (py "0.2.0") :=
    ⟨plain_field_of _ (by decide), plain_field_of _ (by decide), plain_field_of _ (by decide),
      plain_field_of _ (by decide)⟩
  have hlabels : PlainValue (py "RiskScore") ∧ PlainValue (py "SinkSignature") ∧
      PlainValue (py "FindingStatus") ∧ PlainValue (py "Confidence") :=
    ⟨plain_value_of _ (by decide), plain_value_of _ (by decide), plain_value_of _ (by decide),
      plain_value_of _ (by decide)⟩
  simp only [meant, header, extensions, List.forall_mem_cons, List.not_mem_nil, false_imp_iff,
    implies_true, hconstants, hlabels, plain_of_decimal, plain_of_float_text, plain_of_value,
    plain_of_uuid, true_and, and_true]
  constructor
  · exact fun h ↦ ⟨h.1.1, h.2⟩
  · exact fun h ↦ ⟨⟨h.ruleKey, plain_event_name h.ruleKey⟩, h.sinkSignature⟩

/-- The other exporter describes the same finding where the sink has no line break to fold. -/
theorem same_finding {finding : Finding} (h : OneLine finding.sinkSignature)
    (occurrence : Option Occurrence) (productVersion : PyStr) (maxArgumentLength : Int) :
    SameFinding (meant finding)
      (Siem.meant finding occurrence productVersion maxArgumentLength) where
  ruleKey := rfl
  sink := by
    have htheirs : (Siem.meant finding occurrence productVersion maxArgumentLength).extension.lookup
        (py "cs3") = some (foldBreaks finding.sinkSignature) := rfl
    rw [htheirs, fold_breaks_of_one_line h]
    rfl
  status := by
    have htheirs : (Siem.meant finding occurrence productVersion maxArgumentLength).extension.lookup
        (py "cs1") = some (foldBreaks finding.status.value) := rfl
    rw [htheirs, fold_breaks_of_one_line (plain_of_value finding).1.one_line]
    rfl
  confidence := by
    have htheirs : (Siem.meant finding occurrence productVersion maxArgumentLength).extension.lookup
        (py "cs2") = some (foldBreaks finding.confidence.value) := rfl
    rw [htheirs, fold_breaks_of_one_line (plain_of_value finding).2.one_line]
    rfl

/-- Where the line describes the finding, there is nothing in it to escape. -/
theorem plain_of_describes {finding : Finding} (hline : OneLine (toCef finding))
    (hread : parse (toCef finding) = some (meant finding)) : Plain finding := by
  have hwrite : toCef finding = (meant finding).writePlain := rfl
  rw [hwrite] at hline hread
  refine (plain_meant_iff finding).mp ((write_plain_iff rfl (List.cons_ne_nil _ _) ?_).mp
    ⟨hline, hread⟩)
  exact is_key_of_mem_meant finding

end SiemExporter

end Aegis.Export
