import TinyPascal.Diagnostic.Problem
import TinyPascal.Token.Basic

/-!
# Diagnostics

A diagnostic is a finding with a weight and a place. Lists of diagnostics are
in reporting order; `sorted` gives the order of the text.
-/

namespace TinyPascal

set_option autoImplicit false

inductive Severity where
  | error | warning
deriving DecidableEq, Repr, Inhabited

def Severity.label : Severity → String
  | error => "error"
  | warning => "warning"

structure Diagnostic where
  severity : Severity
  line : Nat
  column : Nat
  problem : Problem
deriving DecidableEq, Repr

namespace Diagnostic

def phase (diagnostic : Diagnostic) : Phase := diagnostic.problem.phase

def message (diagnostic : Diagnostic) : String := diagnostic.problem.message

def isError (diagnostic : Diagnostic) : Bool := diagnostic.severity = .error

/-- A finding about `token`, placed where the token starts. -/
def about (severity : Severity) (token : Token) (problem : Problem) : Diagnostic :=
  ⟨severity, token.line, token.column, problem⟩

def lexical (place : Position) (problem : LexicalProblem) : Diagnostic :=
  ⟨.error, place.line, place.column, .lexical problem⟩

/-- `line:column: severity: message` -/
def describe (diagnostic : Diagnostic) : String :=
  toString diagnostic.line ++ ":" ++ toString diagnostic.column ++ ": " ++
    diagnostic.severity.label ++ ": " ++ diagnostic.message

def render (path : String) (diagnostic : Diagnostic) : String :=
  path ++ ":" ++ diagnostic.describe

/-- Whether `first` may stand before `second` in the order of the text. -/
def notAfter (first second : Diagnostic) : Bool :=
  first.line < second.line || (first.line = second.line && first.column ≤ second.column)

end Diagnostic

abbrev Diagnostics := List Diagnostic

namespace Diagnostics

def errors (found : Diagnostics) : Diagnostics := found.filter Diagnostic.isError

def warnings (found : Diagnostics) : Diagnostics := found.filter fun diagnostic => !diagnostic.isError

def hasErrors (found : Diagnostics) : Bool := found.any Diagnostic.isError

def messages (found : Diagnostics) : List String := found.map Diagnostic.message

/-- Ordered by line, then by column. Diagnostics at one place keep their
reporting order, because merging is stable. -/
def sorted (found : Diagnostics) : Diagnostics := found.mergeSort Diagnostic.notAfter

end Diagnostics

end TinyPascal
