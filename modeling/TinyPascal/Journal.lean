import TinyPascal.Analysis.Program
import TinyPascal.Parser.Program

/-!
# The journal

The events of a parse and of an analysis as lines of a journal, each with a
level that says how much detail it is.
-/

namespace TinyPascal

set_option autoImplicit false

inductive Level where
  | trace | debug | info | warn
deriving DecidableEq, Repr, Inhabited

namespace Level

def name : Level → String
  | trace => "TRACE"
  | debug => "DEBUG"
  | info => "INFO"
  | warn => "WARN"

/-- The more detail, the lower. -/
def rank : Level → Nat
  | trace => 0
  | debug => 1
  | info => 2
  | warn => 3

end Level

structure JournalLine where
  level : Level
  text : String
deriving DecidableEq, Repr

def Diagnostic.journalLine (diagnostic : Diagnostic) : JournalLine :=
  ⟨.debug, diagnostic.phase.name ++ " diagnostic " ++ diagnostic.describe⟩

/-- A comment passed on leaves no line of its own; it was scanned before. -/
def ParseEvent.journalLine? : ParseEvent → Option JournalLine
  | scanned token => some ⟨.trace, "scanned " ++ token.describe⟩
  | reported diagnostic => some diagnostic.journalLine
  | comment _ => none
  | consumed token => some ⟨.trace, "consumed " ++ token.describe⟩

def WalkEvent.journalLine : WalkEvent → JournalLine
  | reported diagnostic => diagnostic.journalLine
  | entered depth => ⟨.debug, "entered scope at depth " ++ toString depth⟩
  | left depth names =>
      ⟨.debug, "left scope at depth " ++ toString depth ++ " (" ++ toString names ++ " names)"⟩
  | arithmetic op type =>
      ⟨.debug, "arithmetic '" ++ op.lexeme ++ "' at " ++ toString op.line ++ ":" ++
        toString op.column ++ " resolved to " ++ type.name⟩

abbrev Journal := List JournalLine

namespace Journal

def upTo (level : Level) (journal : Journal) : Journal :=
  journal.filter fun line => level.rank ≤ line.level.rank

end Journal

def Parse.journal (parse : Parse) : Journal :=
  parse.events.filterMap ParseEvent.journalLine? ++
    [⟨.info, "parsed program '" ++ parse.program.name.lexeme ++ "' (" ++
      toString parse.program.procedures.length ++ " procedures, had_error = " ++
      toString parse.hadError ++ ")"⟩]

def Analysis.journal (analysis : Analysis) : Journal :=
  analysis.events.map WalkEvent.journalLine ++
    [⟨.info, "semantic analysis of '" ++ analysis.program.name.lexeme ++ "' finished"⟩]

end TinyPascal
