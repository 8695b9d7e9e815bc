import Aegis.Api.Finding
import Aegis.Server.Json.Dumps
import Aegis.Server.Strings

/-!
# CEF lines

`application/siem.py` and `SiemExporter` of `application/export.py`: the two places that write a
finding in the Common Event Format. The first escapes what it is given, the second does not.
-/

namespace Aegis.Export

open Server Api Json

/-! ## The escaping exporter -/

namespace Siem

/-- `CEF_VERSION`. -/
def CEF_VERSION : Nat := 0

/-- What an extension may be: a string or an integer. -/
inductive Value where
  | text (value : PyStr)
  | int (value : Int)

/-- `str(value)`. -/
def Value.str : Value → PyStr
  | text value => value
  | int value => intText value

/-- `_millis` of a time that is known, computed in floating point. -/
def millis (value : Instant) : Int :=
  let timestamp := nearestDouble (value / 10 ^ 6)
  let scaled := nearestDouble (timestamp * 1000)
  scaled.num.tdiv scaled.den

/-- `_cef_header`. -/
def cefHeader (value : PyStr) : PyStr :=
  (value.replace (py "\\") (py "\\\\")).replace (py "|") (py "\\|")

/-- `_cef_value`, of a value that is not `None`. -/
def cefValue (value : Value) : PyStr :=
  ((((value.str.replace (py "\\") (py "\\\\")).replace (py "=") (py "\\=")).replace
    (py "\r\n") (py "\\n")).replace (py "\n") (py "\\n")).replace (py "\r") (py "\\n")

/-- The pairs an occurrence adds to the extension. -/
def occurrenceExtensions (occurrence : Occurrence) (maxArgumentLength : Int) :
    List (PyStr × Value) :=
  (if !occurrence.remoteAddress.isEmpty then [(py "src", .text occurrence.remoteAddress)]
    else []) ++
  (if !occurrence.requestMethod.isEmpty then
    [(py "requestMethod", .text occurrence.requestMethod)] else []) ++
  (if !occurrence.requestPath.isEmpty then [(py "request", .text occurrence.requestPath)]
    else []) ++
  if !occurrence.sinkArgument.isEmpty then
    [(py "msg", .text (occurrence.sinkArgument.sliceTo maxArgumentLength))]
  else []

/-- The dictionary `extensions` of `to_cef`, in the order of insertion. -/
def extensions (finding : Finding) (occurrence : Option Occurrence) (maxArgumentLength : Int) :
    List (PyStr × Value) :=
  [(py "externalId", .text finding.identityHash),
    (py "cat", .text finding.ruleKey),
    (py "cs1Label", .text (py "status")),
    (py "cs1", .text finding.status.value),
    (py "cs2Label", .text (py "confidence")),
    (py "cs2", .text finding.confidence.value),
    (py "cs3Label", .text (py "sink")),
    (py "cs3", .text finding.sinkSignature),
    (py "cs4Label", .text (py "sourceKind")),
    (py "cs4", .text finding.sourceKind),
    (py "cn1Label", .text (py "occurrences")),
    (py "cn1", .int finding.occurrenceCount),
    (py "cn2Label", .text (py "wouldBlock")),
    (py "cn2", .int finding.wouldBlockCount)] ++
  finding.cweId.elim [] (fun cwe ↦
    [(py "cs5Label", .text (py "cwe")), (py "cs5", .text (py "CWE-" ++ PyStr.decimal cwe))]) ++
  finding.lastSeenAt.elim [] (fun lastSeenAt ↦ [(py "end", .int (millis lastSeenAt))]) ++
  (if !finding.environmentsSeen.isEmpty then
    [(py "deviceCustomString6Label", .text (py "environments")),
      (py "deviceCustomString6", .text (PyStr.join (py ",") finding.environmentsSeen))]
  else []) ++
  occurrence.elim [] (occurrenceExtensions · maxArgumentLength)

/-- The fields of the header that are escaped, in order. -/
def escapedHeader (finding : Finding) (productVersion : PyStr) : List PyStr :=
  [py "Aegis", py "Aegis IAST", productVersion, finding.ruleKey, finding.title.val]

/-- `str(round(finding.risk_score))`. -/
def severityText (finding : Finding) : PyStr :=
  intText (roundHalfEven (nearestDouble finding.riskScore))

/-- `to_cef`. -/
def toCef (finding : Finding) (occurrence : Option Occurrence) (productVersion : PyStr)
    (maxArgumentLength : Int) : PyStr :=
  let header := PyStr.join (py "|")
    ((py "CEF:" ++ PyStr.decimal CEF_VERSION) ::
      ((escapedHeader finding productVersion).map cefHeader ++ [severityText finding]))
  let body := PyStr.join (py " ") ((extensions finding occurrence maxArgumentLength).map
    fun pair ↦ pair.1 ++ py "=" ++ cefValue pair.2)
  header ++ py "|" ++ body

end Siem

/-! ## The exporter that does not escape -/

namespace SiemExporter

/-- `_OCSF_SEVERITY_ID_MAP`. -/
def ocsfSeverityId : Severity → Nat
  | .INFO => 1
  | .LOW => 2
  | .MEDIUM => 3
  | .HIGH => 4
  | .CRITICAL => 5

/-- The name a line of `SiemExporter.to_cef` gives the event. -/
def eventName (finding : Finding) : PyStr :=
  py "Aegis IAST Finding: " ++ finding.ruleKey

/-- The fields of the header, in order. -/
def header (finding : Finding) : List PyStr :=
  [py "CEF:0", py "Aegis", py "IAST", py "0.2.0", finding.ruleKey, eventName finding,
    PyStr.decimal (ocsfSeverityId finding.severity * 2)]

/-- The pairs of the extension, in order. -/
def extensions (finding : Finding) : List (PyStr × PyStr) :=
  [(py "cn1", floatText (nearestDouble finding.riskScore)),
    (py "cn1Label", py "RiskScore"),
    (py "cs1", finding.sinkSignature),
    (py "cs1Label", py "SinkSignature"),
    (py "cs2", finding.status.value),
    (py "cs2Label", py "FindingStatus"),
    (py "cs3", finding.confidence.value),
    (py "cs3Label", py "Confidence"),
    (py "externalId", finding.id.toStr)]

/-- `SiemExporter.to_cef`. -/
def toCef (finding : Finding) : PyStr :=
  PyStr.join (py "|") (header finding) ++ py "|" ++
    PyStr.join (py " ") ((extensions finding).map fun pair ↦ pair.1 ++ py "=" ++ pair.2)

end SiemExporter

end Aegis.Export
