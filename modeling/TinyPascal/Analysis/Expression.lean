import TinyPascal.Analysis.Basic
import TinyPascal.Tree.Basic

/-!
# Checking expressions

An expression is checked against the type its place expects, from the top down;
where nothing is expected, only the operators inside it constrain its parts.
Every part is visited, also behind a problem.
-/

namespace TinyPascal

set_option autoImplicit false

/-- Integer literals, integer variables, and signs, sums, differences and
products of such. -/
def Expr.isInteger (table : SymbolTable) : Expr → Bool
  | literal token => token.kind = .intLit
  | name token _ => (table.lookup token.lexeme).bind Entry.type? = some .integer
  | call .. => false
  | unary op operand => op.kind != .notOp && operand.isInteger table
  | binary op left right _ =>
      (op.kind = .plus || op.kind = .minus || op.kind = .times) &&
        left.isInteger table && right.isInteger table

namespace Walk

def compare (expected : Option ScalarType) (actual : Operand) (token : Token) : Walk Unit :=
  match expected with
  | none => return ()
  | some type =>
      if type.accepts actual then return () else report token (.mismatch type actual.type)

/-- Reports a truth value where a number is expected. -/
def giveBoolean (expected : Option ScalarType) (op : Token) : Walk Unit :=
  match expected with
  | none | some .boolean => return ()
  | some type => report op (.booleanResult type)

/-- The type of numbers that nothing else settles: integers as long as all of
`operands` are, reals otherwise. -/
def freeType (operands : List Expr) : Walk ScalarType := do
  let table ← table
  return if operands.all (Expr.isInteger table) then .integer else .real

/-- The type that the operands of an arithmetic operator have to have: the
expected one, or else `free`. A number where a truth value is expected is
reported, and its operands are checked as reals. -/
def giveNumber (expected : Option ScalarType) (op : Token) (free : Walk ScalarType) :
    Walk ScalarType :=
  match expected with
  | some .boolean => do
      report op .numberResult
      return .real
  | some type => return type
  | none => free

/-- The name in an expression: reports what is wrong with reading it, and marks
it as used. -/
def readName (token : Token) : Walk (Option Meaning) := do
  let name := token.lexeme
  match ← lookup name with
  | none =>
      report token (.undeclaredOperand name)
      return none
  | some entry =>
      if ((← table).lookupInCurrent name).isSome && !entry.initialized then
        report token (.uninitialized name)
      markUsed name
      return some entry.meaning

/-- Marks a procedure as called and compares the number of arguments with that
of its parameters. -/
def checkArity (token : Token) (supplied : Nat) (params : List ScalarType) : Walk Unit := do
  markUsed token.lexeme
  if supplied < params.length then
    report token (.tooFewArguments supplied params.length)
  else if params.length < supplied then
    report token (.tooManyArguments supplied params.length)

/-- The types that the arguments behind a name in an expression have to have. A
name with arguments is no value, whatever it stands for. -/
def checkCallee (token : Token) (supplied : Nat) : Walk (List ScalarType) := do
  match ← readName token with
  | none => return []
  | some (.procedureOn params) =>
      report token .procedureAsValue
      checkArity token supplied params
      return params
  | some .programName =>
      report token (.programAsValue token.lexeme)
      return []
  | some (.variableOf _) =>
      report token (.variableCalled token.lexeme)
      return []

def checkName (expected : Option ScalarType) (token : Token) : Walk (Option ScalarType) := do
  match ← readName token with
  | none => return none
  | some (.procedureOn params) =>
      report token .procedureAsValue
      checkArity token 0 params
      return none
  | some .programName =>
      report token (.programAsValue token.lexeme)
      return none
  | some (.variableOf type) =>
      compare expected (.typed type) token
      return some type

mutual

/-- Checks an expression in a place that expects a value of type `expected`, and
fills in the types settled on. -/
def expression (expected : Option ScalarType) : Expr → Walk Expr
  | .literal token => do
      if let some actual := Operand.ofLiteral? token.kind then
        compare expected actual token
      return .literal token
  | .name token resolved => do
      return .name token ((← checkName expected token).or resolved)
  | .call token args resolved => do
      let params ← checkCallee token args.length
      return .call token (← arguments params args) resolved
  | .unary op operand =>
      match op.kind with
      | .lparen => return .unary op (← expression expected operand)
      | .notOp => do
          giveBoolean expected op
          return .unary op (← expression (some .boolean) operand)
      | _ => do
          let type ← giveNumber expected op (freeType [operand])
          return .unary op (← expression (some type) operand)
  | .binary op left right _ =>
      if op.kind.isRelational || op.kind.isLogical then do
        giveBoolean expected op
        let operands := if op.kind.isLogical then some .boolean else none
        let left ← expression operands left
        let right ← expression operands right
        return .binary op left right (some .boolean)
      else do
        let free := if op.kind = .divide then pure .real else freeType [left, right]
        let type ← giveNumber expected op free
        note (.arithmetic op type)
        let left ← expression (some type) left
        let right ← expression (some type) right
        return .binary op left right (some type)

/-- Checks arguments against the types of the parameters. Arguments beyond the
last parameter are checked without an expected type. -/
def arguments (params : List ScalarType) : List Expr → Walk (List Expr)
  | [] => return []
  | first :: others => do
      let first ← expression params.head? first
      return first :: (← arguments params.tail others)

end

end Walk

end TinyPascal
