import TinyPascal.Number.Written
import TinyPascal.Token.Value
import TinyPascal.Tree.Basic

/-!
# Trees as outlines

An outline shows a tree in full, one part a line, each level indented by four
blanks. Literals are shown with the numbers they stand for.
-/

namespace TinyPascal

set_option autoImplicit false

/-- A text of nested groups, before it is laid out in lines. -/
inductive Outline where
  | atom (text : String)
  | field (label : String) (value : Outline)
  | group (opening closing : String) (parts : List Outline)

namespace Outline

def record (name : String) (fields : List Outline) : Outline := group (name ++ " \x7b") "\x7d" fields

def wrap (name : String) (inner : Outline) : Outline := group (name ++ "(") ")" [inner]

def option : Option Outline → Outline
  | none => atom "None"
  | some inner => wrap "Some" inner

def list : List Outline → Outline
  | [] => atom "[]"
  | parts => group "[" "]" parts

mutual

/-- Writes an outline behind `written`, its inner lines indented by `indent` and
four blanks more. -/
def write (indent written : String) : Outline → String
  | atom text => written ++ text
  | field label value => value.write indent (written ++ label ++ ": ")
  | group opening closing parts =>
      writeParts (indent ++ "    ") (written ++ opening ++ "\n") parts ++ indent ++ closing

def writeParts (indent written : String) : List Outline → String
  | [] => written
  | first :: others => writeParts indent (first.write indent (written ++ indent) ++ ",\n") others

end

def text (outline : Outline) : String := outline.write "" ""

end Outline

namespace Token

def outline (token : Token) : Outline :=
  .record "Token"
    [.field "kind" (.atom token.kind.name), .field "lexeme" (.atom ("\"" ++ token.lexeme ++ "\"")),
     .field "line" (.atom (toString token.line)), .field "column" (.atom (toString token.column)),
     .field "offset" (.atom (toString token.offset))]

end Token

def ScalarType.outline : ScalarType → Outline
  | integer => .atom "Integer"
  | real => .atom "Real"
  | boolean => .atom "Boolean"

def Direction.outline : Direction → Outline
  | up => .atom "To"
  | down => .atom "Downto"

namespace Outline

def resolved (type : Option ScalarType) : Outline :=
  field "resolved" (option (type.map ScalarType.outline))

def call (name : Token) (args : Option Outline) (type : Option ScalarType) : Outline :=
  wrap "ProcCall"
    (record "ProcCall" [field "name" name.outline, field "args" (option args), resolved type])

end Outline

namespace Expr

mutual

def outline : Expr → Outline
  | binary op left right type =>
      .wrap "Binary"
        (.record "Binary"
          [.field "op" op.outline, .field "left" left.outline, .field "right" right.outline,
           .resolved type])
  | unary op operand =>
      .wrap "Unary"
        (.record "Unary" [.field "op" op.outline, .field "child" operand.outline])
  | name token type => .call token none type
  | call token args type => .call token (some (.list (outlines args))) type
  | literal token =>
      .wrap "NumLit"
        (.record "NumLit"
          [.field "token" token.outline, .field "value" (.atom token.value.text)])

def outlines : List Expr → List Outline
  | [] => []
  | first :: others => first.outline :: outlines others

end

end Expr

def Assignment.outline (assignment : Assignment) : Outline :=
  .record "Assign"
    [.field "op" assignment.op.outline, .field "target" assignment.target.outline,
     .field "expr" assignment.value.outline]

namespace Command

def choiceOutline (keyword : Token) (condition : Expr) (branch : Outline)
    (otherwise : Option Outline) : Outline :=
  .wrap "If"
    (.record "IfStmt"
      [.field "keyword" keyword.outline, .field "condition" condition.outline,
       .field "then_branch" branch, .field "else_branch" (.option otherwise)])

def blockOutline (opening : Token) (commands : List Outline) : Outline :=
  .record "CmdBlock" [.field "begin" opening.outline, .field "commands" (.list commands)]

mutual

def outline : Command → Outline
  | assign assignment => .wrap "Assign" assignment.outline
  | call name args type => .call name (args.map fun args => .list (Expr.outlines args)) type
  | ifThen keyword condition branch => choiceOutline keyword condition branch.outline none
  | ifElse keyword condition branch otherwise =>
      choiceOutline keyword condition branch.outline (some otherwise.outline)
  | whileDo keyword condition body =>
      .wrap "While"
        (.record "WhileStmt"
          [.field "keyword" keyword.outline, .field "condition" condition.outline,
           .field "body" body.outline])
  | forDo keyword start direction bound body =>
      .wrap "For"
        (.record "ForStmt"
          [.field "keyword" keyword.outline, .field "init" start.outline,
           .field "direction" direction.outline, .field "bound" bound.outline,
           .field "body" body.outline])
  | block opening commands => .wrap "Block" (blockOutline opening (outlines commands))

def outlines : List Command → List Outline
  | [] => []
  | first :: others => first.outline :: outlines others

end

end Command

def Declaration.outline (declaration : Declaration) : Outline :=
  .record "Decl"
    [.field "type_token" declaration.type.outline,
     .field "ids" (.list (declaration.names.map Token.outline))]

def Variables.outline (vars : Variables) : Outline :=
  .record "VarDecl"
    [.field "keyword" vars.keyword.outline,
     .field "decls" (.list (vars.declarations.map Declaration.outline))]

namespace Program

mutual

def outline : Program → Outline
  | ⟨keyword, name, params, locals, procedures, opening, body⟩ =>
      .record "Program"
        [.field "keyword" keyword.outline, .field "name" name.outline,
         .field "params" (.option (params.map Variables.outline)),
         .field "locals" (.option (locals.map Variables.outline)),
         .field "procedures" (.list (outlines procedures)),
         .field "body" (Command.blockOutline opening (Command.outlines body))]

def outlines : List Program → List Outline
  | [] => []
  | first :: others => first.outline :: outlines others

end

end Program

end TinyPascal
