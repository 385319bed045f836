import PatternRules.Analysis.Validate
import PatternRules.Diagnostic.Codec

/-!
Diagnostics and analyses as JSON. A suggestion that is not there is left out.
-/

namespace PatternRules

/-- A diagnostic code from JSON. -/
def Code.ofJson? (levels : Nat) (j : Json) : Option Code := (j.tag? levels).bind Code.ofTag?

def Severity.ofJson? (levels : Nat) (j : Json) : Option Severity :=
  (j.tag? levels).bind Severity.ofTag?

namespace Diagnostic

def toJson (d : Diagnostic) : Json :=
  .ofMembers <|
    [("span", d.span.toJson), ("message", .text d.message), ("severity", .text d.severity.tag),
     ("code", .text d.code.tag), ("source", .text d.source)] ++
    d.suggestion.toList.map fun s => ("suggestion", .text s)

def ofJson? (levels : Nat) (j : Json) : Option Diagnostic :=
  match levels, Json.record? ["span", "message", "severity", "code", "source", "suggestion"] j with
  | levels + 1,
    some [some span, some message, some severity, some code, some source, suggestion] => do
    return ⟨← Span.ofJson? levels span, ← message.text?, ← Severity.ofJson? levels severity,
      ← Code.ofJson? levels code, ← source.text?, ← Json.optional? Json.text? suggestion⟩
  | _, _ => none

end Diagnostic

/-- An analysis in JSON. -/
def Analysis.toJson (a : Analysis) : Json :=
  .ofMembers
    [("parse", a.reading.toJson), ("diagnostics", .array (a.diagnostics.map Diagnostic.toJson))]

end PatternRules
