import RuleLang.Diagnostic
import RuleLang.Json

/-!
Spans and diagnostics as JSON values.
-/
namespace RuleLang

def Span.record (s : Span) : Json :=
  .object [("start", .int s.start), ("end", .int s.stop), ("line", .int s.line),
    ("column", .int s.column), ("end_line", .int s.stopLine), ("end_column", .int s.stopColumn)]

/-- The fields of a diagnostic, with its span where that is shown. -/
def Diagnostic.record (d : Diagnostic) : Except Span.LengthError Json := do
  let shown ← d.shownSpan
  return .object [("severity", .string d.severity.label), ("message", .string d.message),
    ("span", (shown.map Span.record).getD .null),
    ("production", (d.production.map Json.string).getD .null)]

end RuleLang
