import TinyPascal.Check
import TinyPascal.Report.Options
import TinyPascal.SourceFile
import TinyPascal.Tree.Outline
import TinyPascal.Tree.Printer

/-!
# Reports

What the command line prints about a file, and its verdict: zero if there is
nothing to complain about, one if there are errors, two if the file cannot be
read. Options change what is printed, never the verdict.
-/

namespace TinyPascal

set_option autoImplicit false

structure Timings where
  parsing : Nat
  analysis : Nat
  total : Nat
deriving DecidableEq, Repr

structure Report where
  exitCode : UInt32
  output : String
  errors : String
deriving DecidableEq, Repr

namespace Report

def lines (texts : List String) : String :=
  texts.foldl (fun written text => written ++ text ++ "\n") ""

def linesIf (asked : Bool) (texts : Unit → List String) : String :=
  if asked then lines (texts ()) else ""

def seconds (thousandths : Nat) : String :=
  let rest := toString (thousandths % 1000)
  toString (thousandths / 1000) ++ "." ++ String.ofList (List.replicate (3 - rest.length) '0') ++
    rest ++ "s"

/-- A duration set flush right in a column of the timing table. -/
def column (thousandths : Nat) : String :=
  let text := seconds thousandths
  String.ofList (List.replicate (9 - text.length) ' ') ++ text

def opening (options : Options) (path : String) : String :=
  linesIf options.verbose fun _ => ["Checking " ++ path]

def parsing (options : Options) (parse : Parse) (timings : Timings) : String :=
  let recorder := parse.recorder
  linesIf options.verbose (fun _ =>
    ["Parsing completed in " ++ seconds timings.parsing,
     "  " ++ toString recorder.tokens.length ++ " tokens, " ++
       toString recorder.comments.length ++ " comments, " ++
       toString parse.program.countProcedures ++ " procedures"]) ++
  linesIf options.listTokens fun _ =>
    "\nTokens:" :: recorder.interleaved.map fun token => "  " ++ token.describe

def analysis (options : Options) (check : Check) (timings : Timings) : String :=
  linesIf (options.verbose && check.analysis.isSome) fun _ =>
    ["Semantic analysis completed in " ++ seconds timings.analysis,
     "  " ++ toString check.semanticDiagnostics.length ++ " new diagnostics"]

def tree (options : Options) (program : Program) : String :=
  linesIf options.showTree (fun _ => ["\nAbstract Syntax Tree:", program.text]) ++
  linesIf (options.showTree && options.verbose) fun _ => [program.outline.text]

def timing (options : Options) (check : Check) (timings : Timings) : String :=
  linesIf options.timing fun _ =>
    ["\nTiming:",
     "  Scanning + parsing   " ++ column timings.parsing,
     if check.analysis.isSome then "  Semantic analysis    " ++ column timings.analysis
     else "  Semantic analysis     skipped",
     "  Total                " ++ column timings.total]

def ofCheck (options : Options) (path : String) (check : Check) (timings : Timings) : Report :=
  let found := check.diagnostics
  { exitCode := if found.hasErrors then 1 else 0
    output := opening options path ++ parsing options check.parse timings ++
      analysis options check timings ++ tree options check.program ++ timing options check timings ++
      linesIf (options.verbose && !found.hasErrors) fun _ => ["No errors found."]
    errors := lines (found.sorted.map (Diagnostic.render path)) }

def ofFailure (options : Options) (path : String) (failure : Failure) : Report :=
  ⟨2, opening options path, lines ["Error: " ++ failure.message]⟩

/-- The report on a file whose phases took `timings`. -/
def ofFile (options : Options) (file : SourceFile) (timings : Timings) : Report :=
  match file.read with
  | .error failure => ofFailure options file.path failure
  | .ok source => ofCheck options file.path (.ofText options.analyzeBroken source) timings

end Report

end TinyPascal
