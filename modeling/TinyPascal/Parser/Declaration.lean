import TinyPascal.Parser.Expression

/-!
# Declarations

```text
vars      = "var" group ";" { group ";" }
params    = "(" [ group { ";" group } ] ")"
group     = ident { "," ident } ":" type
```

Groups read before an error are kept.
-/

namespace TinyPascal

set_option autoImplicit false

/-- A broken list of variables reaches up to one of these, or to the end of the
text. -/
def Kind.endsVariables : Kind → Bool
  | .procedureKw | .beginKw => true
  | _ => false

namespace Rule

variable {P : Nat → Type → Type} [∀ n, Monad (P n)] [Parsing P] {n : Nat}

def identifier : RuleOf P n Token := expectAny (· = .ident) (refuseQuoting .identifier)

def typeName : RuleOf P n Token := expectAny Kind.isTypeName (refuseQuoting .typeName)

/-- What follows the first name of a group. -/
def group (first : Token) : RuleOf P n Declaration := do
  let others ← row (· = .comma) fun _ => identifier
  let _ ← expect .colon .typeColon
  return ⟨← typeName, first :: others⟩

/-- A group of variables, closed by a semicolon. -/
def variableGroup (first : Token) : RuleOf P n Declaration := do
  let declaration ← group first
  let _ ← expect .semicolon .declarationEnd
  return declaration

def paramGroup : RuleOf P n Declaration := do
  group (← identifier)

end Rule

namespace Step

variable {P : Nat → Type → Type} [∀ n, Monad (P n)] [Parsing P] {n : Nat}

/-- The groups behind `var`; there has to be at least one. The row ends by itself
behind the last group. -/
def variableGroups : P n (Row Declaration) :=
  Parsing.trying .variableGroups (fun groups => !groups.complete) do
    if ← Parsing.sees (· = .ident) then row (· = .ident) Rule.variableGroup n (Nat.le_succ n)
    else
      let _ ← (Rule.refuseQuoting .identifier : RuleOf P n Unit).run
      return ⟨[], false⟩

/-- The variables of a program or procedure, if it has any. -/
def varSection : P n (Option Variables) :=
  Parsing.passing .varSection do
    match ← Parsing.take (· = .varKw) with
    | none => return none
    | some keyword =>
        let groups ← Row.items <$> variableGroups
        Parsing.recover Kind.endsVariables
        return some ⟨keyword, groups⟩

/-- The groups behind the opening parenthesis of a header, and the closing
parenthesis. The row ends by itself behind that. -/
def paramGroups : P n (Row Declaration) :=
  Parsing.trying .paramGroups (fun groups => !groups.complete) do
    match ← Rule.paramGroup.run with
    | none => return ⟨[], false⟩
    | some first =>
        let others ← row (· = .semicolon) (fun _ => Rule.paramGroup) n (Nat.le_succ n)
        if others.complete then
          let closed ← (Rule.expect .rparen .parametersEnd).run
          return ⟨first :: others.items, closed.isSome⟩
        else return ⟨first :: others.items, false⟩

/-- The parameters behind the opening parenthesis of a header. Parentheses
around nothing are let pass with a warning and count as no parameters. -/
def params (opening : Token) : P n (Option Variables) := do
  match ← Parsing.take (· = .rparen) with
  | some closing =>
      Parsing.warn closing .emptyParameters
      return none
  | none => return some ⟨opening, ← Row.items <$> paramGroups⟩

theorem items_variable_groups : Row.items <$> (variableGroups : Step n (Row Declaration)) = (do
    if ← sees (· = .ident) then
      let groups ← row (· = .ident) Rule.variableGroup n (Nat.le_succ n)
      return groups.items
    else
      let _ ← (Rule.refuseQuoting .identifier : Rule n Unit).run
      return []) := by
  unfold variableGroups
  simp only [Parsing.trying, Parsing.sees, map_bind]
  congr 1
  funext named
  cases named with
  | true => rfl
  | false => rfl

theorem items_param_groups : Row.items <$> (paramGroups : Step n (Row Declaration)) = (do
    match ← (Rule.paramGroup : Rule n Declaration).run with
    | none => return []
    | some first =>
        let others ← row (· = .semicolon) (fun _ => Rule.paramGroup) n (Nat.le_succ n)
        if others.complete then
          let _ ← (Rule.expect .rparen .parametersEnd : Rule n Token).run
        return first :: others.items) := by
  unfold paramGroups
  simp only [Parsing.trying, map_bind]
  congr 1
  funext first
  cases first with
  | none => rfl
  | some first =>
      dsimp only
      rw [map_bind]
      congr 1
      funext others
      cases others.complete with
      | true => rfl
      | false => rfl

end Step

end TinyPascal
