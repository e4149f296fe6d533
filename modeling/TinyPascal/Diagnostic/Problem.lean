import TinyPascal.ScalarType

/-!
# What can be wrong with a program

Each phase has its own list of findings, and each finding has one wording.
-/

namespace TinyPascal

set_option autoImplicit false

inductive Phase where
  | lexical | syntactic | semantic
deriving DecidableEq, Repr, Inhabited

def Phase.name : Phase → String
  | lexical => "Lexical"
  | syntactic => "Syntax"
  | semantic => "Semantic"

inductive LexicalProblem where
  | unrecognized (symbol : Char)
  | unopenedComment
  | unclosedComment
deriving DecidableEq, Repr

def LexicalProblem.message : LexicalProblem → String
  | unrecognized symbol => "Unrecognized symbol: '" ++ symbol.toString ++ "'."
  | unopenedComment => "there is no corresponding '\x7b'."
  | unclosedComment => "this comment wasn't closed."

/-- What the grammar asks for and the text lacks, followed by four matters of
style. A `found` is the text of the token that stands there instead. -/
inductive SyntacticProblem where
  | programKeyword
  | programName
  | programHeaderEnd
  | bodyStart
  | bodyEnd
  | programEnd
  | identifier (found : String)
  | typeColon
  | typeName (found : String)
  | declarationEnd
  | procedureName
  | procedureHeaderEnd
  | parametersEnd
  | command (found : String)
  | thenKeyword
  | whileDo
  | forVariable
  | forAssign
  | forDirection
  | forDo
  | argumentsEnd
  | parenthesisEnd
  | factor (found : String)
  | procedureEnd
  | emptyParameters
  | emptyArguments
  | trailingSemicolon
deriving DecidableEq, Repr

def SyntacticProblem.message : SyntacticProblem → String
  | programKeyword => "First word should be 'program'."
  | programName => "Expected program identifier."
  | programHeaderEnd => "Expected ';' after program declaration."
  | bodyStart => "Expected 'begin'."
  | bodyEnd => "Expected 'end' after command list"
  | programEnd => "Expected '.' after program block."
  | identifier found => "Expected identifier, got '" ++ found ++ "'"
  | typeColon => "Expected ':' after identifier list."
  | typeName found => "Expected type, got '" ++ found ++ "'"
  | declarationEnd => "Expected ';' after variable declaration"
  | procedureName => "Expected procedure identifier."
  | procedureHeaderEnd => "Expected ';' after procedure declaration."
  | parametersEnd => "Expected ')' after argument list."
  | command found => "Expected command. Got '" ++ found ++ "' instead."
  | thenKeyword => "Expected 'then' after if condition."
  | whileDo => "Expected 'do' after while condition."
  | forVariable => "Expected identifier after 'for'."
  | forAssign => "Expected assign operator after identifier."
  | forDirection => "Expected either 'to' or 'downto' after assignment."
  | forDo => "Expected 'do' after 'for' target expression."
  | argumentsEnd => "Expected ')' after expression list."
  | parenthesisEnd => "Expected ')'."
  | factor found => "Expected factor, got '" ++ found ++ "'."
  | procedureEnd => "Expected ';' after procedure end."
  | emptyParameters => "Procedures declared without args don't need '()'."
  | emptyArguments => "Procedure calls without args are made without '()'"
  | trailingSemicolon => "Remove the ';'."

/-- What the checker finds. A `name` is the name the finding is about. -/
inductive SemanticProblem where
  | redeclaredVariable (name : String)
  | redeclaredProcedure (name : String)
  | unusedVariable (name : String)
  | unusedProcedure (name : String)
  | procedureAssigned
  | programAssigned
  | undeclaredTarget (name : String)
  | undeclaredCallee (name : String)
  | undeclaredOperand (name : String)
  | controlNotInteger
  | controlNotLocal
  | calleeNotProcedure (name : String)
  | tooFewArguments (supplied expected : Nat)
  | tooManyArguments (supplied expected : Nat)
  | uninitialized (name : String)
  | procedureAsValue
  | programAsValue (name : String)
  | variableCalled (name : String)
  | booleanResult (expected : ScalarType)
  | numberResult
  | mismatch (expected actual : ScalarType)
deriving DecidableEq, Repr

def SemanticProblem.message : SemanticProblem → String
  | redeclaredVariable name => "Variable '" ++ name ++ "' already declared"
  | redeclaredProcedure name => "name '" ++ name ++ "' already in use."
  | unusedVariable name => "Variable '" ++ name ++ "' was never used."
  | unusedProcedure name => "Procedure '" ++ name ++ "' was never called."
  | procedureAssigned => "Cannot assign to procedure."
  | programAssigned => "Cannot assign to program."
  | undeclaredTarget name => name ++ " was not declared"
  | undeclaredCallee name => "'" ++ name ++ "' is not declared."
  | undeclaredOperand name => "Variable '" ++ name ++ "' never declared."
  | controlNotInteger => "'for' control variable must be integer."
  | controlNotLocal => "'for' control variable must be declared in the local scope."
  | calleeNotProcedure name => "'" ++ name ++ "' is not a procedure."
  | tooFewArguments supplied expected =>
      "Received too little arguments (" ++ toString supplied ++ "), expected " ++ toString expected
  | tooManyArguments supplied expected =>
      "Received too much arguments (" ++ toString supplied ++ "), expected " ++ toString expected
  | uninitialized name => "Variable '" ++ name ++ "' was not initialized."
  | procedureAsValue => "Procedures do not have return value."
  | programAsValue name => "'" ++ name ++ "' is not a variable."
  | variableCalled name => "Variable " ++ name ++ " is not a procedure."
  | booleanResult expected => "Expected '" ++ expected.name ++ "' but got 'boolean' instead."
  | numberResult => "Expected 'boolean' but got 'number' instead."
  | mismatch expected actual => "Expected " ++ expected.name ++ ", got " ++ actual.name

/-- A finding of any phase. A client of the library may also state one in its
own words. -/
inductive Problem where
  | lexical (problem : LexicalProblem)
  | syntactic (problem : SyntacticProblem)
  | semantic (problem : SemanticProblem)
  | stated (phase : Phase) (text : String)
deriving DecidableEq, Repr

namespace Problem

def phase : Problem → Phase
  | lexical _ => .lexical
  | syntactic _ => .syntactic
  | semantic _ => .semantic
  | stated phase _ => phase

def message : Problem → String
  | lexical problem => problem.message
  | syntactic problem => problem.message
  | semantic problem => problem.message
  | stated _ text => text

end Problem

end TinyPascal
