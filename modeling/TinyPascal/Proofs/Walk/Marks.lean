import TinyPascal.Tree.Basic

/-!
# The types that a tree holds

Names, calls and binary operators have room for a type. `marked` changes whatever is written
there and nothing else, so two trees that are the same once all of it is wiped out differ at
most in the types they hold.
-/

namespace TinyPascal

set_option autoImplicit false

variable (mark : Option ScalarType → Option ScalarType)

namespace Expr

mutual

/-- The expression with `mark` applied to each of its types. -/
def marked : Expr → Expr
  | binary op left right resolved => binary op left.marked right.marked (mark resolved)
  | unary op operand => unary op operand.marked
  | name token resolved => name token (mark resolved)
  | call token args resolved => call token (allMarked args) (mark resolved)
  | literal token => literal token

def allMarked : List Expr → List Expr
  | [] => []
  | first :: others => first.marked :: allMarked others

end

theorem all_marked_eq (args : List Expr) : allMarked mark args = args.map (marked mark) := by
  induction args with
  | nil => rfl
  | cons first others induction => rw [allMarked, List.map_cons, induction]

mutual

theorem marked_id : (expr : Expr) → expr.marked id = expr
  | binary op left right resolved => by
      rw [marked, marked_id left, marked_id right]
      rfl
  | unary op operand => by rw [marked, marked_id operand]
  | name _ _ => rfl
  | call token args resolved => by
      rw [marked, all_marked_id args]
      rfl
  | literal _ => rfl

theorem all_marked_id : (args : List Expr) → allMarked id args = args
  | [] => rfl
  | first :: others => by rw [allMarked, marked_id first, all_marked_id others]

end

theorem marked_id_eq : marked id = id := funext marked_id

end Expr

def Assignment.marked (assignment : Assignment) : Assignment :=
  { assignment with value := assignment.value.marked mark }

theorem Assignment.marked_id (assignment : Assignment) : assignment.marked id = assignment := by
  rw [marked, Expr.marked_id]

namespace Command

mutual

def marked : Command → Command
  | assign assignment => assign (assignment.marked mark)
  | call token args resolved => call token (args.map (·.map (Expr.marked mark))) (mark resolved)
  | ifThen keyword condition branch => ifThen keyword (condition.marked mark) branch.marked
  | ifElse keyword condition branch otherwise =>
      ifElse keyword (condition.marked mark) branch.marked otherwise.marked
  | whileDo keyword condition body => whileDo keyword (condition.marked mark) body.marked
  | forDo keyword start direction bound body =>
      forDo keyword (start.marked mark) direction (bound.marked mark) body.marked
  | block opening commands => block opening (allMarked commands)

def allMarked : List Command → List Command
  | [] => []
  | first :: others => first.marked :: allMarked others

end

theorem all_marked_eq (commands : List Command) :
    allMarked mark commands = commands.map (marked mark) := by
  induction commands with
  | nil => rfl
  | cons first others induction => rw [allMarked, List.map_cons, induction]

mutual

theorem marked_id : (command : Command) → command.marked id = command
  | assign assignment => by rw [marked, Assignment.marked_id]
  | call token args resolved => by
      rw [marked, Expr.marked_id_eq, List.map_id_fun, Option.map_id_fun]
      rfl
  | ifThen keyword condition branch => by rw [marked, Expr.marked_id, marked_id branch]
  | ifElse keyword condition branch otherwise => by
      rw [marked, Expr.marked_id, marked_id branch, marked_id otherwise]
  | whileDo keyword condition body => by rw [marked, Expr.marked_id, marked_id body]
  | forDo keyword start direction bound body => by
      rw [marked, Assignment.marked_id, Expr.marked_id, marked_id body]
  | block opening commands => by rw [marked, all_marked_id commands]

theorem all_marked_id : (commands : List Command) → allMarked id commands = commands
  | [] => rfl
  | first :: others => by rw [allMarked, marked_id first, all_marked_id others]

end

theorem marked_id_eq : marked id = id := funext marked_id

end Command

namespace Program

mutual

def marked : Program → Program
  | ⟨keyword, name, params, locals, procedures, opening, body⟩ =>
      ⟨keyword, name, params, locals, allMarked procedures, opening,
        body.map (Command.marked mark)⟩

def allMarked : List Program → List Program
  | [] => []
  | first :: others => first.marked :: allMarked others

end

theorem all_marked_eq (programs : List Program) :
    allMarked mark programs = programs.map (marked mark) := by
  induction programs with
  | nil => rfl
  | cons first others induction => rw [allMarked, List.map_cons, induction]

mutual

theorem marked_id : (program : Program) → program.marked id = program
  | ⟨keyword, name, params, locals, procedures, opening, body⟩ => by
      rw [marked, all_marked_id procedures, Command.marked_id_eq, List.map_id]

theorem all_marked_id : (programs : List Program) → allMarked id programs = programs
  | [] => rfl
  | first :: others => by rw [allMarked, marked_id first, all_marked_id others]

end

/-- The program as if no type had been settled on yet. -/
def unresolved (program : Program) : Program := program.marked fun _ => none

end Program

end TinyPascal
