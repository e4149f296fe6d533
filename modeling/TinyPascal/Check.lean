import TinyPascal.Analysis.Program
import TinyPascal.Recorder

/-!
# Checks

A check parses a text and then analyses the tree. A tree with parts missing is
analysed only on request, because much of what would be found only follows from
what is missing.
-/

namespace TinyPascal

set_option autoImplicit false

structure Check where
  parse : Parse
  analysis : Option Analysis
deriving Repr

namespace Check

def ofParse (analyzeBroken : Bool) (parse : Parse) : Check :=
  ⟨parse, if !parse.hadError || analyzeBroken then some (.ofProgram parse.program) else none⟩

def ofText (analyzeBroken : Bool) (source : String) : Check :=
  ofParse analyzeBroken (.ofText source)

def semanticDiagnostics (check : Check) : Diagnostics :=
  (check.analysis.map Analysis.diagnostics).getD []

def diagnostics (check : Check) : Diagnostics :=
  check.parse.diagnostics ++ check.semanticDiagnostics

def program (check : Check) : Program :=
  (check.analysis.map Analysis.program).getD check.parse.program

end Check

end TinyPascal
