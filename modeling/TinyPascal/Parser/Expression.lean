import TinyPascal.Parser.Step
import TinyPascal.Tree.Basic

/-!
# Expressions

```text
expr       = simple [ relop simple ]
simple     = [ "+" | "-" ] term { ( "+" | "-" | "or" ) term }
term       = factor { ( "*" | "/" | "and" ) factor }
factor     = literal | "not" factor | "(" expr ")" | ident [ arguments ]
arguments  = "(" [ expr { "," expr } ] ")"
```

Only `factor` leads back into itself, always behind a consumed token; the other
rules are given the factors they are made of.
-/

namespace TinyPascal.Rule

set_option autoImplicit false

variable {P : Nat → Type → Type} [∀ n, Monad (P n)] [Parsing P] {n : Nat}

/-- Operands joined by operators of a kind in `ops`, from left to right. -/
def chain (ops : Kind → Bool) (operand : RuleOf P n Expr) (first : Expr) :
    RuleOf P n Expr := do
  let links ← row ops fun op => do return (op, ← operand)
  return links.foldl (fun left (op, right) => .binary op left right none) first

def term (factor : RuleOf P n Expr) : RuleOf P n Expr :=
  trying .term do
    chain Kind.isMultiplicative factor (← factor)

/-- The sign belongs to the first term alone. -/
def simpleExpr (factor : RuleOf P n Expr) : RuleOf P n Expr :=
  trying .simpleExpr do
    let sign ← ofStep (Parsing.take Kind.isSign)
    let first ← term factor
    let signed := match sign with
      | some op => .unary op first
      | none => first
    chain Kind.isAdditive (term factor) signed

/-- Relational operators do not chain. -/
def expr (factor : RuleOf P n Expr) : RuleOf P n Expr :=
  trying .expr do
    let left ← simpleExpr factor
    match ← ofStep (Parsing.take Kind.isRelational) with
    | some op => return .binary op left (← simpleExpr factor) none
    | none => return left

def commaList {α : Type} (item : RuleOf P n α) : RuleOf P n (List α) :=
  trying .commaList do
    let first ← item
    return first :: (← row (· = .comma) fun _ => item)

/-- The arguments behind a name, if a parenthesis follows it. Parentheses around
nothing are let pass with a warning. -/
def arguments (expr : RuleOf P n Expr) : RuleOf P n (Option (List Expr)) :=
  trying .arguments do
    match ← ofStep (Parsing.take (· = .lparen)) with
    | none => return none
    | some opening =>
        let args ←
          if ← ofStep (Parsing.sees (· = .rparen)) then
            ofStep (Parsing.warn opening .emptyArguments)
            pure []
          else commaList expr
        let _ ← expect .rparen .argumentsEnd
        return some args

/-- A factor, given how the factors inside it are read. -/
def factorOf (inner : RuleOf P n Expr) : RuleOf P (n + 1) Expr :=
  trying .factor <|
  consuming Kind.isLiteral (fun token => return .literal token) <|
  consuming (· = .notOp) (fun op => return .unary op (← inner)) <|
  consuming (· = .lparen)
    (fun opening => do
      let enclosed ← expr inner
      let _ ← expect .rparen .parenthesisEnd
      return .unary opening enclosed) <|
  consuming (· = .ident)
    (fun name => do
      match ← arguments (expr inner) with
      | none => return .name name none
      | some args => return .call name args none) <|
  refuseQuoting .factor

def factor : (n : Nat) → RuleOf P n Expr
  | 0 => never
  | n + 1 => factorOf (factor n)

/-- An expression where fewer than `n` tokens are unread. -/
def expression (n : Nat) : RuleOf P n Expr := expr (factor n)

end TinyPascal.Rule
