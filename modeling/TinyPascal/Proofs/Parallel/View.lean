import TinyPascal.Tree.Basic

/-!
# Trees seen through a view

A view forgets something about a token, but neither its kind nor its text. Two
trees look alike through a view if they differ only in what it forgets. The view
`View.bare` forgets where tokens stand, and `View.whole` forgets nothing.
-/

namespace TinyPascal

set_option autoImplicit false

structure View where
  look : Token → Token
  kind : ∀ token, (look token).kind = token.kind
  lexeme : ∀ token, (look token).lexeme = token.lexeme
  standIn : ∀ (kind : Kind) (token other : Token), look token = look other →
    look (.standIn kind token) = look (.standIn kind other)

namespace View

variable (view : View) {token other : Token}

theorem kind_eq (alike : view.look token = view.look other) : token.kind = other.kind := by
  rw [← view.kind token, alike, view.kind]

theorem lexeme_eq (alike : view.look token = view.look other) : token.lexeme = other.lexeme := by
  rw [← view.lexeme token, alike, view.lexeme]

end View

def Token.bare (token : Token) : Token := { token with position := .start }

@[simp]
theorem Token.kind_bare (token : Token) : token.bare.kind = token.kind := rfl

@[simp]
theorem Token.lexeme_bare (token : Token) : token.bare.lexeme = token.lexeme := rfl

def View.bare : View where
  look := Token.bare
  kind _ := rfl
  lexeme _ := rfl
  standIn _ _ _ _ := rfl

def View.whole : View where
  look := id
  kind _ := rfl
  lexeme _ := rfl
  standIn kind _ _ same := congrArg (Token.standIn kind) same

namespace Expr

variable (view : View)

mutual

def seen : Expr → Expr
  | binary op left right resolved => binary (view.look op) left.seen right.seen resolved
  | unary op operand => unary (view.look op) operand.seen
  | name token resolved => name (view.look token) resolved
  | call token args resolved => call (view.look token) (allSeen args) resolved
  | literal token => literal (view.look token)

def allSeen : List Expr → List Expr
  | [] => []
  | first :: others => first.seen :: allSeen others

end

theorem all_seen_eq (args : List Expr) : allSeen view args = args.map (seen view) := by
  induction args with
  | nil => rfl
  | cons first others induction => rw [allSeen, List.map_cons, induction]

end Expr

def Assignment.seen (view : View) (assignment : Assignment) : Assignment :=
  ⟨view.look assignment.op, view.look assignment.target, assignment.value.seen view⟩

namespace Command

variable (view : View)

mutual

def seen : Command → Command
  | assign assignment => assign (assignment.seen view)
  | call token args resolved =>
      call (view.look token) (args.map (·.map (Expr.seen view))) resolved
  | ifThen keyword condition branch =>
      ifThen (view.look keyword) (condition.seen view) branch.seen
  | ifElse keyword condition branch otherwise =>
      ifElse (view.look keyword) (condition.seen view) branch.seen otherwise.seen
  | whileDo keyword condition body => whileDo (view.look keyword) (condition.seen view) body.seen
  | forDo keyword start direction bound body =>
      forDo (view.look keyword) (start.seen view) direction (bound.seen view) body.seen
  | block opening commands => block (view.look opening) (allSeen commands)

def allSeen : List Command → List Command
  | [] => []
  | first :: others => first.seen :: allSeen others

end

theorem all_seen_eq (commands : List Command) : allSeen view commands = commands.map (seen view) := by
  induction commands with
  | nil => rfl
  | cons first others induction => rw [allSeen, List.map_cons, induction]

end Command

def Declaration.seen (view : View) (declaration : Declaration) : Declaration :=
  ⟨view.look declaration.type, declaration.names.map view.look⟩

def Variables.seen (view : View) (vars : Variables) : Variables :=
  ⟨view.look vars.keyword, vars.declarations.map (Declaration.seen view)⟩

namespace Program

variable (view : View)

mutual

def seen : Program → Program
  | ⟨keyword, name, params, locals, procedures, opening, body⟩ =>
      ⟨view.look keyword, view.look name, params.map (Variables.seen view),
        locals.map (Variables.seen view), allSeen procedures, view.look opening,
        body.map (Command.seen view)⟩

def allSeen : List Program → List Program
  | [] => []
  | first :: others => first.seen :: allSeen others

end

theorem all_seen_eq (programs : List Program) : allSeen view programs = programs.map (seen view) := by
  induction programs with
  | nil => rfl
  | cons first others induction => rw [allSeen, List.map_cons, induction]

end Program

end TinyPascal
