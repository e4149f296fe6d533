import TinyPascal.Proofs.Walk.Basic

/-!
# Operators in two steps

An operator is checked by settling on the types that its operands have to have, and then checking
the operands against them. Only the first step depends on what the operator is.
-/

namespace TinyPascal

set_option autoImplicit false

namespace Walk

/-- What the operand of a unary operator has to be. Parentheses pass on what is expected of
them. -/
def operandType (expected : Option ScalarType) (op : Token) (operand : Expr) :
    Walk (Option ScalarType) :=
  match op.kind with
  | .lparen => return expected
  | .notOp => do
      giveBoolean expected op
      return some .boolean
  | _ => return some (← giveNumber expected op (freeType [operand]))

/-- The type of a binary operator, and what both of its operands have to be. -/
def operandTypes (expected : Option ScalarType) (op : Token) (left right : Expr) :
    Walk (ScalarType × Option ScalarType) :=
  if op.kind.isRelational || op.kind.isLogical then do
    giveBoolean expected op
    return (.boolean, if op.kind.isLogical then some .boolean else none)
  else do
    let type ← giveNumber expected op
      (if op.kind = .divide then pure .real else freeType [left, right])
    note (.arithmetic op type)
    return (type, some type)

/-- Of its operand, a unary operator looks at nothing but the type it gives if nothing is
expected. -/
theorem operand_type_congr (expected : Option ScalarType) (op : Token) {operand operand' : Expr}
    (free : freeType [operand'] = freeType [operand]) :
    operandType expected op operand' = operandType expected op operand := by
  unfold operandType
  rw [free]

theorem operand_types_congr (expected : Option ScalarType) (op : Token)
    {left left' right right' : Expr} (free : freeType [left', right'] = freeType [left, right]) :
    operandTypes expected op left' right' = operandTypes expected op left right := by
  unfold operandTypes
  rw [free]

theorem expression_unary (expected : Option ScalarType) (op : Token) (operand : Expr) :
    expression expected (.unary op operand) = do
      let type ← operandType expected op operand
      return .unary op (← expression type operand) := by
  rw [expression]
  unfold operandType
  cases op.kind <;> rfl

theorem expression_binary (expected : Option ScalarType) (op : Token) (left right : Expr)
    (resolved : Option ScalarType) :
    expression expected (.binary op left right resolved) = do
      let types ← operandTypes expected op left right
      let left ← expression types.2 left
      let right ← expression types.2 right
      return .binary op left right (some types.1) := by
  rw [expression]
  unfold operandTypes
  split <;> rfl

end Walk

end TinyPascal
