import TinyPascal.Tree.Basic

/-!
# Where the nodes of a tree stand

Every node is anchored at one of its tokens, the one that gives it its place in
the text. `Program.anchors` lists the anchors of a whole tree, each node before
its parts.
-/

namespace TinyPascal

set_option autoImplicit false

/-- What part of a tree a node is. -/
inductive Role where
  | program | procedure | varSection | declaration | body | command | start | expr
deriving DecidableEq, Repr, Inhabited

def Role.label : Role → String
  | program => "program"
  | procedure => "procedure"
  | varSection => "vardecl"
  | declaration => "decl"
  | body => "body"
  | command => "command"
  | start => "init"
  | expr => "expr"

structure Anchor where
  role : Role
  token : Token
deriving DecidableEq, Repr, Inhabited

namespace Expr

def anchor : Expr → Token
  | binary op .. => op
  | unary op _ => op
  | name token _ => token
  | call token .. => token
  | literal token => token

mutual

def anchors : Expr → List Anchor
  | binary op left right _ => ⟨.expr, op⟩ :: (left.anchors ++ right.anchors)
  | unary op operand => ⟨.expr, op⟩ :: operand.anchors
  | name token _ => [⟨.expr, token⟩]
  | call token args _ => ⟨.expr, token⟩ :: anchorsAll args
  | literal token => [⟨.expr, token⟩]

def anchorsAll : List Expr → List Anchor
  | [] => []
  | first :: others => first.anchors ++ anchorsAll others

end

end Expr

def Assignment.anchor (assignment : Assignment) : Token := assignment.op

namespace Command

def anchor : Command → Token
  | assign assignment => assignment.anchor
  | call name .. => name
  | ifThen keyword .. => keyword
  | ifElse keyword .. => keyword
  | whileDo keyword .. => keyword
  | forDo keyword .. => keyword
  | block opening _ => opening

mutual

def anchors : Command → List Anchor
  | assign assignment => ⟨.command, assignment.anchor⟩ :: assignment.value.anchors
  | call name args _ => ⟨.command, name⟩ :: Expr.anchorsAll (args.getD [])
  | ifThen keyword condition branch =>
      ⟨.command, keyword⟩ :: (condition.anchors ++ branch.anchors)
  | ifElse keyword condition branch otherwise =>
      ⟨.command, keyword⟩ :: (condition.anchors ++ branch.anchors ++ otherwise.anchors)
  | whileDo keyword condition body =>
      ⟨.command, keyword⟩ :: (condition.anchors ++ body.anchors)
  | forDo keyword start _ bound body =>
      ⟨.command, keyword⟩ :: ⟨.start, start.anchor⟩ ::
        (start.value.anchors ++ bound.anchors ++ body.anchors)
  | block opening commands => ⟨.command, opening⟩ :: anchorsAll commands

def anchorsAll : List Command → List Anchor
  | [] => []
  | first :: others => first.anchors ++ anchorsAll others

end

end Command

def Variables.anchors (vars : Variables) : List Anchor :=
  ⟨.varSection, vars.keyword⟩ ::
    vars.declarations.map fun declaration => ⟨.declaration, declaration.type⟩

namespace Program

def anchor (program : Program) : Token := program.keyword

mutual

def anchors : Program → List Anchor
  | ⟨keyword, _, params, locals, procedures, opening, body⟩ =>
      ⟨if keyword.kind = .procedureKw then .procedure else .program, keyword⟩ ::
        ((params.map Variables.anchors).getD [] ++ (locals.map Variables.anchors).getD [] ++
          anchorsAll procedures ++ ⟨.body, opening⟩ :: Command.anchorsAll body)

def anchorsAll : List Program → List Anchor
  | [] => []
  | first :: others => first.anchors ++ anchorsAll others

end

end Program

end TinyPascal
