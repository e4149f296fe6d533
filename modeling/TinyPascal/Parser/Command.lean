import TinyPascal.Parser.Expression

/-!
# Commands

```text
commands = [ command { ";" command } [ ";" ] ]
command  = ident ":=" expr
         | ident [ arguments ]
         | "begin" commands "end"
         | "if" expr "then" command [ "else" command ]
         | "while" expr "do" command
         | "for" ident ":=" expr ( "to" | "downto" ) expr "do" command
```

A list of commands is where a broken command ends: the list leaves it out and
goes on behind the next semicolon.
-/

namespace TinyPascal

set_option autoImplicit false

/-- A broken command reaches up to one of these, or to the end of the text. -/
def Kind.endsCommand : Kind → Bool
  | .semicolon | .endKw => true
  | _ => false

def Direction.ofKind : Kind → Direction
  | .downtoKw => .down
  | _ => .up

namespace Rule

variable {P : Nat → Type → Type} [∀ n, Monad (P n)] [Parsing P] {n : Nat}

/-- A command, or nothing if it is broken. Behind a broken one stands the token
that ended it. -/
def commandOrNone (command : RuleOf P n Command) : P n (Option Command) := do
  let read ← command.run
  Parsing.recover Kind.endsCommand
  return read

/-- What follows a semicolon: a command, or the end of the list, where the
semicolon was one too many. -/
def commandBehind (command : RuleOf P n Command) (semicolon : Token) :
    P n (Option Command) := do
  if ← Parsing.sees (· = .endKw) then
    Parsing.warn semicolon .trailingSemicolon
    return none
  else commandOrNone command

/-- The commands before `end`, without the broken ones. -/
def commandList (command : RuleOf P n Command) : P n (List Command) :=
  Parsing.passing .commandList do
    if ← Parsing.sees (· = .endKw) then return []
    else
      let first ← commandOrNone command
      let others ← Step.row (· = .semicolon)
        (fun semicolon => ofStep (commandBehind command semicolon)) n (Nat.le_succ n)
      return (first :: others.items).reduceOption

def block (command : RuleOf P n Command) (opening : Token) : RuleOf P n Command :=
  trying .block do
    let commands ← ofStep (commandList command)
    let _ ← expect .endKw .bodyEnd
    return .block opening commands

/-- What follows a name at the head of a command. -/
def assignmentOrCall (expr : RuleOf P n Expr) (name : Token) : RuleOf P n Command := do
  match ← ofStep (Parsing.take (· = .assign)) with
  | some op => return .assign ⟨op, name, ← expr⟩
  | none => return .call name (some ((← arguments expr).getD [])) none

def forLoop (expr : RuleOf P n Expr) (command : RuleOf P n Command) (keyword : Token) :
    RuleOf P n Command :=
  trying .forLoop do
    let target ← expect .ident .forVariable
    let op ← expect .assign .forAssign
    let start ← expr
    let direction ← expectAny (fun kind => kind = .toKw || kind = .downtoKw) (refuse .forDirection)
    let bound ← expr
    let _ ← expect .doKw .forDo
    return .forDo keyword ⟨op, target, start⟩ (.ofKind direction.kind) bound (← command)

/-- A command, given how the expressions and the commands inside it are read. -/
def commandOf (expr : RuleOf P n Expr) (inner : RuleOf P n Command) :
    RuleOf P (n + 1) Command :=
  trying .command <|
  consuming (· = .ident) (assignmentOrCall expr) <|
  consuming (· = .beginKw) (block inner) <|
  consuming (· = .ifKw)
    (fun keyword => do
      let condition ← expr
      let _ ← expect .thenKw .thenKeyword
      let branch ← inner
      match ← ofStep (Parsing.take (· = .elseKw)) with
      | some _ => return .ifElse keyword condition branch (← inner)
      | none => return .ifThen keyword condition branch) <|
  consuming (· = .whileKw)
    (fun keyword => do
      let condition ← expr
      let _ ← expect .doKw .whileDo
      return .whileDo keyword condition (← inner)) <|
  consuming (· = .forKw) (forLoop expr inner) <|
  refuseQuoting .command

def command : (n : Nat) → RuleOf P n Command
  | 0 => never
  | n + 1 => commandOf (expression n) (command n)

end Rule

/-- The commands of a body where fewer than `n` tokens are unread. -/
def Step.commands {P : Nat → Type → Type} [∀ n, Monad (P n)] [Parsing P] (n : Nat) :
    P n (List Command) :=
  Rule.commandList (Rule.command n)

end TinyPascal
