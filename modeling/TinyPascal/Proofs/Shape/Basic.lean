import TinyPascal.Tree.Basic

/-!
# The shape of parsed trees

Trees can be built that no text gives. A parsed tree has the shape that the grammar gives it, at
every node: operators are of the kinds that belong at their level, and chains of them lean to the
left. No type has been filled in.
-/

namespace TinyPascal

set_option autoImplicit false

/-- How tightly the parts of an expression are bound, the loosest last. -/
inductive Expr.Level where
  | factor | term | simple | whole
deriving DecidableEq, Repr

/-- The expression may stand where the grammar asks for one of the level. -/
inductive Expr.FitsLevel : Expr.Level → Expr → Prop where
  | literal {token : Token} (isLiteral : token.kind.isLiteral = true) :
      FitsLevel .factor (.literal token)
  | name {token : Token} (isName : token.kind = .ident) : FitsLevel .factor (.name token none)
  | call {token : Token} {args : List Expr} (isName : token.kind = .ident)
      (fit : ∀ arg ∈ args, FitsLevel .whole arg) : FitsLevel .factor (.call token args none)
  | negation {op : Token} {operand : Expr} (isNot : op.kind = .notOp)
      (fits : FitsLevel .factor operand) : FitsLevel .factor (.unary op operand)
  | parentheses {op : Token} {operand : Expr} (isOpening : op.kind = .lparen)
      (fits : FitsLevel .whole operand) : FitsLevel .factor (.unary op operand)
  | ofFactor {expr : Expr} (fits : FitsLevel .factor expr) : FitsLevel .term expr
  | product {op : Token} {left right : Expr} (joins : op.kind.isMultiplicative = true)
      (first : FitsLevel .term left) (second : FitsLevel .factor right) :
      FitsLevel .term (.binary op left right none)
  | ofTerm {expr : Expr} (fits : FitsLevel .term expr) : FitsLevel .simple expr
  | signed {op : Token} {operand : Expr} (isSign : op.kind.isSign = true)
      (fits : FitsLevel .term operand) : FitsLevel .simple (.unary op operand)
  | sum {op : Token} {left right : Expr} (joins : op.kind.isAdditive = true)
      (first : FitsLevel .simple left) (second : FitsLevel .term right) :
      FitsLevel .simple (.binary op left right none)
  | ofSimple {expr : Expr} (fits : FitsLevel .simple expr) : FitsLevel .whole expr
  | comparison {op : Token} {left right : Expr} (joins : op.kind.isRelational = true)
      (first : FitsLevel .simple left) (second : FitsLevel .simple right) :
      FitsLevel .whole (.binary op left right none)

structure Assignment.Shaped (assignment : Assignment) : Prop where
  target : assignment.target.kind = .ident
  op : assignment.op.kind = .assign
  value : assignment.value.FitsLevel .whole

/-- Whether an `else` behind the command would belong to a choice at its end. -/
def Command.endsOpen : Command → Bool
  | assign _ | call _ _ _ | block _ _ => false
  | ifThen _ _ _ => true
  | ifElse _ _ _ otherwise => otherwise.endsOpen
  | whileDo _ _ body | forDo _ _ _ _ body => body.endsOpen

/-- A call has arguments, if only an empty list of them. An `else` belongs to the last `if` that
has none. -/
inductive Command.Shaped : Command → Prop where
  | assign {assignment : Assignment} (shaped : assignment.Shaped) : Shaped (.assign assignment)
  | call {name : Token} {args : List Expr} (isName : name.kind = .ident)
      (fit : ∀ arg ∈ args, arg.FitsLevel .whole) : Shaped (.call name (some args) none)
  | ifThen {keyword : Token} {condition : Expr} {branch : Command} (isIf : keyword.kind = .ifKw)
      (fits : condition.FitsLevel .whole) (shaped : Shaped branch) :
      Shaped (.ifThen keyword condition branch)
  | ifElse {keyword : Token} {condition : Expr} {branch otherwise : Command}
      (isIf : keyword.kind = .ifKw) (fits : condition.FitsLevel .whole) (first : Shaped branch)
      (closed : branch.endsOpen = false) (second : Shaped otherwise) :
      Shaped (.ifElse keyword condition branch otherwise)
  | whileDo {keyword : Token} {condition : Expr} {body : Command}
      (isWhile : keyword.kind = .whileKw) (fits : condition.FitsLevel .whole) (shaped : Shaped body) :
      Shaped (.whileDo keyword condition body)
  | forDo {keyword : Token} {start : Assignment} {direction : Direction} {bound : Expr}
      {body : Command} (isFor : keyword.kind = .forKw) (starts : start.Shaped)
      (fits : bound.FitsLevel .whole) (shaped : Shaped body) :
      Shaped (.forDo keyword start direction bound body)
  | block {opening : Token} {commands : List Command} (isBegin : opening.kind = .beginKw)
      (each : ∀ command ∈ commands, Shaped command) : Shaped (.block opening commands)

/-- At least one name is declared, and its type is a type. -/
structure Declaration.Shaped (declaration : Declaration) : Prop where
  type : declaration.type.kind.isTypeName = true
  nonempty : declaration.names ≠ []
  names : ∀ name ∈ declaration.names, name.kind = .ident

def Variables.Shaped? (vars : Option Variables) : Prop :=
  ∀ list ∈ vars, ∀ declaration ∈ list.declarations, declaration.Shaped

/-- A procedure, and every procedure inside it, starts with its keyword. -/
inductive Program.ShapedInside : Program → Prop where
  | intro {keyword name opening : Token} {params locals : Option Variables}
      {procedures : List Program} {body : List Command} (isProcedure : keyword.kind = .procedureKw)
      (paramsShaped : Variables.Shaped? params) (localsShaped : Variables.Shaped? locals)
      (inner : ∀ procedure ∈ procedures, ShapedInside procedure)
      (isBegin : opening.kind = .beginKw) (commands : ∀ command ∈ body, command.Shaped) :
      ShapedInside ⟨keyword, name, params, locals, procedures, opening, body⟩

/-- Only the whole program starts with `program`. It takes no parameters. -/
structure Program.Shaped (program : Program) : Prop where
  keyword : program.keyword.kind = .programKw
  params : program.params = none
  locals : Variables.Shaped? program.locals
  procedures : ∀ procedure ∈ program.procedures, procedure.ShapedInside
  opening : program.opening.kind = .beginKw
  body : ∀ command ∈ program.body, command.Shaped

end TinyPascal
