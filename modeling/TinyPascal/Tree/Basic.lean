import TinyPascal.ScalarType
import TinyPascal.Token.Basic

/-!
# Program trees

Every node keeps the tokens it was read from. The places marked `resolved` are
empty in a fresh tree; the checker writes into them the type it settled on.

A tree may have shapes that no text gives: operators of any kind, literals that
are not numbers, a program among the procedures. Everything that works on trees
works on those as well.
-/

namespace TinyPascal

set_option autoImplicit false

/-- A prefixed sign, `not` and a pair of parentheses are all unary; the operator
of the last is its opening parenthesis. -/
inductive Expr where
  | binary (op : Token) (left right : Expr) (resolved : Option ScalarType)
  | unary (op : Token) (operand : Expr)
  | name (name : Token) (resolved : Option ScalarType)
  | call (name : Token) (args : List Expr) (resolved : Option ScalarType)
  | literal (token : Token)
deriving Repr, Inhabited

structure Assignment where
  op : Token
  target : Token
  value : Expr
deriving Repr, Inhabited

inductive Direction where
  | up | down
deriving DecidableEq, Repr, Inhabited

def Direction.word : Direction → String
  | up => "to"
  | down => "downto"

inductive Command where
  | assign (assignment : Assignment)
  | call (name : Token) (args : Option (List Expr)) (resolved : Option ScalarType)
  | ifThen (keyword : Token) (condition : Expr) (branch : Command)
  | ifElse (keyword : Token) (condition : Expr) (branch otherwise : Command)
  | whileDo (keyword : Token) (condition : Expr) (body : Command)
  | forDo (keyword : Token) (start : Assignment) (direction : Direction) (bound : Expr)
      (body : Command)
  | block (opening : Token) (commands : List Command)
deriving Repr, Inhabited

/-- Names declared together, in order, with the one type they share. -/
structure Declaration where
  type : Token
  names : List Token
deriving DecidableEq, Repr, Inhabited

/-- The variables after `var`, or the parameters after an opening
parenthesis. -/
structure Variables where
  keyword : Token
  declarations : List Declaration
deriving DecidableEq, Repr, Inhabited

/-- The declared names in order, each with the token of its type. -/
def Variables.entries (vars : Variables) : List (Token × Token) :=
  vars.declarations.flatMap fun declaration =>
    declaration.names.map fun name => (name, declaration.type)

/-- A program, or a procedure inside one: both have a header, variables,
procedures of their own and a body between `begin` and `end`. -/
structure Program where
  keyword : Token
  name : Token
  params : Option Variables
  locals : Option Variables
  procedures : List Program
  opening : Token
  body : List Command
deriving Repr, Inhabited

namespace Program

/-- A procedure is told from a program by its keyword. -/
def isProcedure (program : Program) : Bool := program.keyword.kind = .procedureKw

mutual

def countProcedures : Program → Nat
  | ⟨_, _, _, _, procedures, _, _⟩ => countAll procedures

def countAll : List Program → Nat
  | [] => 0
  | first :: others => 1 + first.countProcedures + countAll others

end

end Program

namespace Expr

/-- The expression inside any number of enclosing parentheses. -/
def unparenthesized : Expr → Expr
  | unary op operand =>
      if op.kind = .lparen then operand.unparenthesized else unary op operand
  | expr => expr

end Expr

end TinyPascal
