import TinyPascal.Tree.Basic

/-!
# Trees that lack one command

Only a command that is an element of a list can be taken out of a tree: of the body
of the program or a procedure, or of a block.
-/

namespace TinyPascal

set_option autoImplicit false

namespace Command

/-- The second command is the first without `lost`, an element of some list inside
it. -/
inductive Without (lost : Command) : Command → Command → Prop
  | element (opening : Token) (front behind : List Command) :
      Without lost (block opening (front ++ lost :: behind)) (block opening (front ++ behind))
  | block (opening : Token) (front behind : List Command) {whole left : Command}
      (inner : Without lost whole left) :
      Without lost (block opening (front ++ whole :: behind)) (block opening (front ++ left :: behind))
  | ifThen (keyword : Token) (condition : Expr) {whole left : Command}
      (inner : Without lost whole left) :
      Without lost (ifThen keyword condition whole) (ifThen keyword condition left)
  | thenBranch (keyword : Token) (condition : Expr) (otherwise : Command) {whole left : Command}
      (inner : Without lost whole left) :
      Without lost (ifElse keyword condition whole otherwise) (ifElse keyword condition left otherwise)
  | elseBranch (keyword : Token) (condition : Expr) (branch : Command) {whole left : Command}
      (inner : Without lost whole left) :
      Without lost (ifElse keyword condition branch whole) (ifElse keyword condition branch left)
  | whileDo (keyword : Token) (condition : Expr) {whole left : Command}
      (inner : Without lost whole left) :
      Without lost (whileDo keyword condition whole) (whileDo keyword condition left)
  | forDo (keyword : Token) (start : Assignment) (direction : Direction) (bound : Expr)
      {whole left : Command} (inner : Without lost whole left) :
      Without lost (forDo keyword start direction bound whole)
        (forDo keyword start direction bound left)

/-- The second list is the first without `lost`, an element of it or of some list
inside it. -/
inductive AllWithout (lost : Command) : List Command → List Command → Prop
  | element (front behind : List Command) :
      AllWithout lost (front ++ lost :: behind) (front ++ behind)
  | inside (front behind : List Command) {whole left : Command} (inner : Without lost whole left) :
      AllWithout lost (front ++ whole :: behind) (front ++ left :: behind)

end Command

/-- The second program is the first without `lost`, an element of its body, of the
body of one of its procedures, or of some list inside them. -/
inductive Program.Without (lost : Command) : Program → Program → Prop
  | body (program : Program) {whole left : List Command} (inner : Command.AllWithout lost whole left) :
      Without lost { program with body := whole } { program with body := left }
  | procedure (program : Program) (front behind : List Program) {whole left : Program}
      (inner : Without lost whole left) :
      Without lost { program with procedures := front ++ whole :: behind }
        { program with procedures := front ++ left :: behind }

end TinyPascal
