import TinyPascal.Diagnostic.Basic
import TinyPascal.Scope.Table

/-!
# Analyses

An analysis walks a tree, keeps the table of visible names and notes what it
meets. It never fails: a problem is reported, and the walk goes on.
-/

namespace TinyPascal

set_option autoImplicit false

/-- What an observer of the analysis gets to see. -/
inductive WalkEvent where
  | reported (diagnostic : Diagnostic)
  | entered (depth : Nat)
  | left (depth names : Nat)
  | arithmetic (op : Token) (type : ScalarType)
deriving DecidableEq, Repr

def WalkEvent.diagnostic? : WalkEvent → Option Diagnostic
  | reported diagnostic => some diagnostic
  | _ => none

/-- `trace` lists what has happened, latest first. -/
structure WalkState where
  table : SymbolTable
  trace : List WalkEvent
deriving DecidableEq, Repr

def WalkState.start : WalkState := ⟨.empty, []⟩

abbrev Walk (α : Type) : Type := StateM WalkState α

namespace Walk

def note (event : WalkEvent) : Walk Unit :=
  modify fun s => { s with trace := event :: s.trace }

def report (token : Token) (problem : SemanticProblem) : Walk Unit :=
  note (.reported (.about .error token (.semantic problem)))

def table : Walk SymbolTable := return (← get).table

def setTable (table : SymbolTable) : Walk Unit :=
  modify fun s => { s with table }

/-- The entry that `name` stands for here. -/
def lookup (name : String) : Walk (Option Entry) := return (← table).lookup name

def markUsed (name : String) : Walk Unit := do
  setTable ((← table).markUsed name)

def markInitialized (name : String) : Walk Unit := do
  setTable ((← table).markInitialized name)

/-- Declares a name in the innermost scope, or reports that it is taken. -/
def define (token : Token) (entry : Entry) (taken : SemanticProblem) : Walk Unit := do
  let (fresh, table) := (← table).define token.lexeme entry
  setTable table
  if !fresh then report token taken

/-- Reports every name of a closed scope that was never used, at its
declaration. -/
def reportUnused (scope : Scope) : Walk Unit :=
  scope.unused.forM fun (name, entry) =>
    report entry.token (if entry.isProcedure then .unusedProcedure name else .unusedVariable name)

def enterScope : Walk Unit := do
  let table := (← table).push
  setTable table
  note (.entered table.depth)

/-- Closes the innermost scope and reports what was unused in it. -/
def leaveScope : Walk Unit := do
  let before ← table
  match before.pop with
  | .ok (scope, table) =>
      setTable table
      note (.left before.depth scope.length)
      reportUnused scope
  | .error _ => return ()

end Walk

end TinyPascal
