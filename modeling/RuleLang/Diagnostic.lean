import RuleLang.Span

/-!
Diagnostics: messages about a source text, each with the place it is about and the rule of the
grammar that was being read, where there is one. They are collected in the order of their discovery.
-/
namespace RuleLang

inductive Severity where
  | error
  deriving DecidableEq, Repr

namespace Severity

def all : List Severity := [.error]

def label : Severity → String
  | .error => "error"

end Severity

structure Diagnostic where
  severity : Severity
  message : String
  span : Option Span
  production : Option String
  deriving DecidableEq

namespace Diagnostic

def error (message : String) (span : Option Span) (production : Option String) : Diagnostic :=
  ⟨.error, message, span, production⟩

/-- The span that is shown: an empty one is not. -/
def shownSpan (d : Diagnostic) : Except Span.LengthError (Option Span) :=
  match d.span with
  | none => .ok none
  | some s =>
    match s.isEmpty with
    | .ok true => .ok none
    | .ok false => .ok (some s)
    | .error e => .error e

/-- The severity and the message, behind the place where it is shown. -/
def text (d : Diagnostic) : Except Span.LengthError String :=
  match d.shownSpan with
  | .ok (some s) => .ok (s.location ++ ": " ++ d.severity.label ++ ": " ++ d.message)
  | .ok none => .ok (d.severity.label ++ ": " ++ d.message)
  | .error e => .error e

end Diagnostic

/-- The texts of the diagnostics, one after the other on lines of their own. -/
def report (ds : List Diagnostic) : Except Span.LengthError String :=
  match ds.mapM Diagnostic.text with
  | .ok lines => .ok ("\n".intercalate lines)
  | .error e => .error e

end RuleLang
