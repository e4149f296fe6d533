import TinyPascal.Tree.Basic

/-!
# The expressions of a tree

Commands hold expressions, and an expression holds others. They are listed here in the order of
the text; a tree can also be rewritten by changing every expression that a command holds and
leaving everything else as it is.
-/

namespace TinyPascal

set_option autoImplicit false

namespace Expr

mutual

/-- The expression itself and all expressions inside it. -/
def parts : Expr → List Expr
  | binary op left right resolved => binary op left right resolved :: (left.parts ++ right.parts)
  | unary op operand => unary op operand :: operand.parts
  | name token resolved => [name token resolved]
  | call token args resolved => call token args resolved :: partsAll args
  | literal token => [literal token]

def partsAll : List Expr → List Expr
  | [] => []
  | first :: others => first.parts ++ partsAll others

end

end Expr

namespace Command

mutual

/-- The expressions that a command holds, the arguments of a call one by one. -/
def exprs : Command → List Expr
  | assign assignment => [assignment.value]
  | call _ args _ => args.getD []
  | ifThen _ condition branch => condition :: branch.exprs
  | ifElse _ condition branch otherwise => condition :: (branch.exprs ++ otherwise.exprs)
  | whileDo _ condition body => condition :: body.exprs
  | forDo _ start _ bound body => start.value :: bound :: body.exprs
  | block _ commands => exprsAll commands

def exprsAll : List Command → List Expr
  | [] => []
  | first :: others => first.exprs ++ exprsAll others

end

end Command

namespace Program

mutual

def exprs : Program → List Expr
  | ⟨_, _, _, _, procedures, _, body⟩ => exprsAll procedures ++ Command.exprsAll body

def exprsAll : List Program → List Expr
  | [] => []
  | first :: others => first.exprs ++ exprsAll others

end

def parts (program : Program) : List Expr := program.exprs.flatMap Expr.parts

end Program

section Rewriting

variable (change : Expr → Expr)

def Assignment.rewritten (assignment : Assignment) : Assignment :=
  { assignment with value := change assignment.value }

namespace Command

mutual

def rewritten : Command → Command
  | assign assignment => assign (assignment.rewritten change)
  | call name args resolved => call name (args.map (List.map change)) resolved
  | ifThen keyword condition branch => ifThen keyword (change condition) branch.rewritten
  | ifElse keyword condition branch otherwise =>
      ifElse keyword (change condition) branch.rewritten otherwise.rewritten
  | whileDo keyword condition body => whileDo keyword (change condition) body.rewritten
  | forDo keyword start direction bound body =>
      forDo keyword (start.rewritten change) direction (change bound) body.rewritten
  | block opening commands => block opening (allRewritten commands)

def allRewritten : List Command → List Command
  | [] => []
  | first :: others => first.rewritten :: allRewritten others

end

theorem all_rewritten_eq (commands : List Command) :
    allRewritten change commands = commands.map (rewritten change) := by
  induction commands with
  | nil => rfl
  | cons first others induction => rw [allRewritten, List.map_cons, induction]

end Command

namespace Program

mutual

/-- The program with `change` applied to every expression that a command in it holds. -/
def rewritten : Program → Program
  | ⟨keyword, name, params, locals, procedures, opening, body⟩ =>
      ⟨keyword, name, params, locals, allRewritten procedures, opening,
        body.map (Command.rewritten change)⟩

def allRewritten : List Program → List Program
  | [] => []
  | first :: others => first.rewritten :: allRewritten others

end

theorem all_rewritten_eq (programs : List Program) :
    allRewritten change programs = programs.map (rewritten change) := by
  induction programs with
  | nil => rfl
  | cons first others induction => rw [allRewritten, List.map_cons, induction]

end Program

end Rewriting

end TinyPascal
