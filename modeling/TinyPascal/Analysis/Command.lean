import TinyPascal.Analysis.Expression

/-!
# Checking commands

Commands are checked in the order of the text, both branches of a choice one
after the other and the body of a loop once.
-/

namespace TinyPascal

set_option autoImplicit false

namespace Walk

/-- Marks a variable as assigned to, which is a use of it. -/
def markAssigned (name : String) : Walk Unit := do
  markInitialized name
  markUsed name

/-- The type of the variable that is assigned to, if the target is one. -/
def checkTarget (op target : Token) : Walk (Option ScalarType) := do
  match (← lookup target.lexeme).map Entry.meaning with
  | some (.variableOf type) => return some type
  | some (.procedureOn _) =>
      report op .procedureAssigned
      return none
  | some .programName =>
      report op .programAssigned
      return none
  | none =>
      report target (.undeclaredTarget target.lexeme)
      return none

/-- The target counts as assigned to only behind the value, so a variable that
is first assigned from itself is read uninitialized. -/
def assignment (node : Assignment) : Walk Assignment := do
  let type ← checkTarget node.op node.target
  let value ← expression type node.value
  if type.isSome then
    markAssigned node.target.lexeme
  return { node with value }

/-- The control variable of a counting loop has to be an integer of the
innermost scope. -/
def checkControl (op target : Token) : Walk Unit := do
  match (← lookup target.lexeme).map Entry.meaning with
  | none => report target (.undeclaredTarget target.lexeme)
  | some meaning =>
      match meaning with
      | .procedureOn _ => report op .procedureAssigned
      | .programName => report op .programAssigned
      | .variableOf .integer => pure ()
      | .variableOf _ => report target .controlNotInteger
      if ((← table).lookupInCurrent target.lexeme).isNone then
        report target .controlNotLocal

/-- The first value of a counting loop. A variable of any type counts as
assigned to from here on. -/
def loopStart (node : Assignment) : Walk Assignment := do
  checkControl node.op node.target
  let value ← expression (some .integer) node.value
  if ((← lookup node.target.lexeme).bind Entry.type?).isSome then
    markAssigned node.target.lexeme
  return { node with value }

/-- The types that the arguments of a call have to have. -/
def checkCall (token : Token) (supplied : Nat) : Walk (List ScalarType) := do
  match (← lookup token.lexeme).map Entry.meaning with
  | some (.procedureOn params) =>
      checkArity token supplied params
      return params
  | some _ =>
      report token (.calleeNotProcedure token.lexeme)
      return []
  | none =>
      report token (.undeclaredCallee token.lexeme)
      return []

def callCommand (token : Token) (args : Option (List Expr)) : Walk (Option (List Expr)) := do
  let params ← checkCall token (args.getD []).length
  match args with
  | none => return none
  | some args => return some (← arguments params args)

mutual

def command : Command → Walk Command
  | .assign node => return .assign (← assignment node)
  | .call token args resolved => return .call token (← callCommand token args) resolved
  | .ifThen keyword condition branch => do
      let condition ← expression (some .boolean) condition
      return .ifThen keyword condition (← command branch)
  | .ifElse keyword condition branch otherwise => do
      let condition ← expression (some .boolean) condition
      let branch ← command branch
      return .ifElse keyword condition branch (← command otherwise)
  | .whileDo keyword condition body => do
      let condition ← expression (some .boolean) condition
      return .whileDo keyword condition (← command body)
  | .forDo keyword start direction bound body => do
      let start ← loopStart start
      let bound ← expression (some .integer) bound
      return .forDo keyword start direction bound (← command body)
  | .block opening body => return .block opening (← commands body)

def commands : List Command → Walk (List Command)
  | [] => return []
  | first :: others => do
      let first ← command first
      return first :: (← commands others)

end

end Walk

end TinyPascal
