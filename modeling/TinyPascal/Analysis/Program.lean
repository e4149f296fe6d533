import TinyPascal.Analysis.Command

/-!
# Checking programs

A program is walked in the order in which its names come into being: its own
name, its variables, its procedures one by one, and its body last. A procedure
opens a scope for its parameters, variables and procedures; what was unused in
a scope is reported when the scope is closed.
-/

namespace TinyPascal

set_option autoImplicit false

namespace Walk

/-- Declares names of a known type; a name whose type is no type declares
nothing. -/
def declare (entryOf : Token → ScalarType → Entry) (vars : Option Variables) : Walk Unit :=
  ((vars.map Variables.entries).getD []).forM fun (name, typeToken) =>
    match ScalarType.ofKind? typeToken.kind with
    | some type => define name (entryOf name type) (.redeclaredVariable name.lexeme)
    | none => return ()

def paramTypes (params : Option Variables) : List ScalarType :=
  ((params.map Variables.entries).getD []).filterMap fun (_, type) => ScalarType.ofKind? type.kind

/-- Declares a procedure in the scope around it. One without a name is not
declared. -/
def declareProcedure (name : Token) (params : Option Variables) : Walk Unit :=
  if name.lexeme.isEmpty then return ()
  else define name (.ofProcedure name (paramTypes params)) (.redeclaredProcedure name.lexeme)

mutual

def procedure : Program → Walk Program
  | ⟨keyword, name, params, locals, nested, opening, body⟩ => do
      declareProcedure name params
      enterScope
      declare .ofParam params
      declare .ofVariable locals
      let nested ← procedures nested
      let body ← commands body
      leaveScope
      return ⟨keyword, name, params, locals, nested, opening, body⟩

def procedures : List Program → Walk (List Program)
  | [] => return []
  | first :: others => do
      let first ← procedure first
      return first :: (← procedures others)

end

def program (program : Program) : Walk Program := do
  let (_, table) := (← table).define program.name.lexeme (.ofProgram program.name)
  setTable table
  declare .ofVariable program.locals
  let procedures ← procedures program.procedures
  let body ← commands program.body
  reportUnused (← Walk.table).global
  return { program with procedures, body }

end Walk

/-- What an analysis leaves behind: the tree with the types filled in, and what
happened on the way, in order. -/
structure Analysis where
  program : Program
  events : List WalkEvent
deriving Repr

namespace Analysis

/-- Every analysis starts from an empty table. -/
def ofProgram (program : Program) : Analysis :=
  let (annotated, final) := (Walk.program program).run .start
  ⟨annotated, final.trace.reverse⟩

def diagnostics (analysis : Analysis) : Diagnostics :=
  analysis.events.filterMap WalkEvent.diagnostic?

end Analysis

end TinyPascal
