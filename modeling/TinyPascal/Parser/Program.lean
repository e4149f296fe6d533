import TinyPascal.Parser.Command
import TinyPascal.Parser.Declaration

/-!
# Programs and procedures

```text
program   = "program" ident ";" [ vars ] { procedure } "begin" commands "end" "."
procedure = "procedure" ident [ params ] ";" [ vars ] { procedure }
            "begin" commands "end" [ ";" ]
```

These rules are never abandoned: a part that is broken or missing leaves a
stand-in, and reading goes on with the next part. The text behind the final
point is not looked at.
-/

namespace TinyPascal

set_option autoImplicit false

/-- A broken header reaches up to one of these, or to the end of the text. -/
def Kind.endsHeader : Kind → Bool
  | .varKw | .procedureKw | .beginKw => true
  | _ => false

namespace Step

variable {P : Nat → Type → Type} [∀ n, Monad (P n)] [Parsing P] {n : Nat}

/-- The next token, which has to be of kind `kind`, or a stand-in for it. -/
def expectOr (kind : Kind) (problem : SyntacticProblem) (standIn : Kind) : P n Token := do
  let found ← Parsing.current
  return ((← (Rule.expect kind problem).run)).getD (.standIn standIn found)

/-- Takes a further step of a header unless it is already broken. -/
def unlessPanicking {α : Type} (otherwise : α) (step : P n α) : P n α := do
  if ← Parsing.panicking then return otherwise else step

/-- The body of a program or procedure, with `closing` behind its `end`. -/
def body (closing : P n Unit) : P n (Token × List Command) := do
  let found ← Parsing.current
  match ← (Rule.expect .beginKw .bodyStart).run with
  | none => return (.standIn .beginKw found, [])
  | some opening =>
      let commands ← commands n
      if (← (Rule.expect .endKw .bodyEnd).run).isSome then
        closing
      return (opening, commands)

/-- The semicolon behind a procedure is asked for, but not insisted on. -/
def procedureEnd : P n Unit := do
  if (← Parsing.take (· = .semicolon)).isNone then
    Parsing.warn (← Parsing.current) .procedureEnd

/-- The header of a procedure behind its keyword. A header that lacks only its
name is read on. -/
def procedureHeader : P n (Token × Option Variables) := do
  let name ← expectOr .ident .procedureName .unknown
  if ← Parsing.sees (fun kind => kind = .lparen || kind = .semicolon) then
    Parsing.calm
  let params ← unlessPanicking none do
    match ← Parsing.take (· = .lparen) with
    | some opening => params opening
    | none => return none
  unlessPanicking () do
    let _ ← (Rule.expect .semicolon .procedureHeaderEnd).run
  Parsing.recover Kind.endsHeader
  return (name, params)

/-- A procedure behind its keyword, with the procedures that `nested` reads
inside it. -/
def procedure (nested : P n (List Program)) (keyword : Token) : P n Program :=
  Parsing.passing .procedure do
    let (name, params) ← procedureHeader
    let locals ← varSection
    let procedures ← nested
    let (opening, commands) ← body procedureEnd
    Parsing.recover Kind.endsVariables
    return ⟨keyword, name, params, locals, procedures, opening, commands⟩

/-- The procedures that follow one another, with what `nested` reads inside each. -/
def procedureRow (nested : P n (List Program)) : P (n + 1) (List Program) :=
  Parsing.passing .procedures do
    let read ← row (· = .procedureKw) (fun keyword => Rule.ofStep (procedure nested keyword))
      (n + 1) (Nat.le_refl _)
    return read.items

def procedures : (n : Nat) → P n (List Program)
  | 0 => Parsing.never
  | n + 1 => procedureRow (procedures n)

def programHeader : P n (Token × Token) := do
  let keyword ← expectOr .programKw .programKeyword .programKw
  let found ← Parsing.current
  let name ← unlessPanicking (.missing found) (expectOr .ident .programName .unknown)
  unlessPanicking () do
    let _ ← (Rule.expect .semicolon .programHeaderEnd).run
  Parsing.recover Kind.endsHeader
  return (keyword, name)

def program (n : Nat) : P n Program := do
  let (keyword, name) ← programHeader
  let locals ← varSection
  let procedures ← procedures n
  let (opening, commands) ← body do
    let _ ← (Rule.expect .dot .programEnd).run
  return ⟨keyword, name, none, locals, procedures, opening, commands⟩

end Step

/-- What a parse leaves behind. The tree is always there; if there were errors
it may lack parts. The events are in the order in which they happened. -/
structure Parse where
  program : Program
  hadError : Bool
  events : List ParseEvent
deriving Repr, Inhabited

namespace Parse

def ofStream (stream : Stream) : Parse :=
  let start := ParseState.start stream
  let outcome := (Step.program _ : Step (start.unread.length + 1) Program) start
    (Nat.lt_succ_self _)
  ⟨outcome.value, outcome.state.hadError, outcome.state.trace.reverse⟩

def ofText (source : String) : Parse := ofStream (.ofText source)

def diagnostics (parse : Parse) : Diagnostics := parse.events.filterMap ParseEvent.diagnostic?

end Parse

end TinyPascal
