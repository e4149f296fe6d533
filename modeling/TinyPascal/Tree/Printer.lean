import TinyPascal.Tree.Basic

/-!
# Trees as program text

The printer writes a tree on one line. What a text was read into is written so
that it reads back into the same tree: parentheses are nodes of their own, so
none are added and none are dropped.
-/

namespace TinyPascal

set_option autoImplicit false

namespace Expr

mutual

def text : Expr → String
  | binary op left right _ => left.text ++ " " ++ op.lexeme ++ " " ++ right.text
  | unary op operand =>
      match op.kind with
      | .lparen => "(" ++ operand.text ++ ")"
      | .notOp => "not " ++ operand.text
      | _ => op.lexeme ++ operand.text
  | name token _ => token.lexeme
  | call token args _ => token.lexeme ++ "(" ++ ", ".intercalate (texts args) ++ ")"
  | literal token => token.lexeme

def texts : List Expr → List String
  | [] => []
  | first :: others => first.text :: texts others

end

end Expr

def Assignment.text (assignment : Assignment) : String :=
  assignment.target.lexeme ++ " := " ++ assignment.value.text

namespace Command

def blockText : List String → String
  | [] => "begin end"
  | commands => "begin " ++ "; ".intercalate commands ++ " end"

/-- A call that is a command of its own shows parentheses only around
arguments. -/
def callText (name : Token) : Option (List Expr) → String
  | none | some [] => name.lexeme
  | some args => name.lexeme ++ "(" ++ ", ".intercalate (Expr.texts args) ++ ")"

mutual

def text : Command → String
  | assign assignment => assignment.text
  | call name args _ => callText name args
  | ifThen _ condition branch => "if " ++ condition.text ++ " then " ++ branch.text
  | ifElse _ condition branch otherwise =>
      "if " ++ condition.text ++ " then " ++ branch.text ++ " else " ++ otherwise.text
  | whileDo _ condition body => "while " ++ condition.text ++ " do " ++ body.text
  | forDo _ start direction bound body =>
      "for " ++ start.text ++ " " ++ direction.word ++ " " ++ bound.text ++ " do " ++ body.text
  | block _ commands => blockText (texts commands)

def texts : List Command → List String
  | [] => []
  | first :: others => first.text :: texts others

end

end Command

def Declaration.text (declaration : Declaration) : String :=
  ", ".intercalate (declaration.names.map Token.lexeme) ++ ": " ++ declaration.type.lexeme

/-- `var` and the declarations, each closed by a semicolon. -/
def Variables.text (vars : Variables) : String :=
  vars.declarations.foldl (fun written declaration => written ++ " " ++ declaration.text ++ ";")
    "var"

/-- The declarations between the parentheses of a procedure header. -/
def Variables.paramsText (vars : Variables) : String :=
  "(" ++ "; ".intercalate (vars.declarations.map Declaration.text) ++ ")"

namespace Program

mutual

def text : Program → String
  | ⟨keyword, name, params, locals, procedures, _, body⟩ =>
      let isProcedure := keyword.kind = .procedureKw
      (if isProcedure then "procedure " else "program ") ++ name.lexeme ++
        (params.map Variables.paramsText).getD "" ++ "; " ++
        (locals.map fun vars => vars.text ++ " ").getD "" ++
        texts procedures ++ Command.blockText (Command.texts body) ++
        (if isProcedure then ";" else ".")

def texts : List Program → String
  | [] => ""
  | first :: others => first.text ++ " " ++ texts others

end

end Program

end TinyPascal
