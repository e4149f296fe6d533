import TinyPascal.Analysis.Program

/-!
# The order in which names come up

A program is read as the list of all that happens to names in it: they are declared, mentioned
and assigned to, scopes are opened and closed. The list is read off the tree alone. Every stop
on it says in which scope it lies.
-/

namespace TinyPascal

set_option autoImplicit false

/-- The place of a scope: the number of its procedure among the procedures beside it, then the
number of the procedure around that one, and so on outwards. The global scope is `[]`, and the
scopes around a scope are its tails. -/
abbrev Address := List Nat

/-- A declaration that adds a name to a scope. -/
inductive Declared where
  | program (token : Token)
  | procedure (token : Token) (params : List ScalarType)
  | param (token : Token) (type : ScalarType)
  | var (token : Token) (type : ScalarType)
deriving DecidableEq, Repr

namespace Declared

def token : Declared → Token
  | program token => token
  | procedure token _ => token
  | param token _ => token
  | var token _ => token

def name (declared : Declared) : String := declared.token.lexeme

/-- What a scope holds right behind the declaration. -/
def entry : Declared → Entry
  | program token => .ofProgram token
  | procedure token params => .ofProcedure token params
  | param token type => .ofParam token type
  | var token type => .ofVariable token type

def meaning (declared : Declared) : Meaning := declared.entry.meaning

def isProgram : Declared → Bool
  | program _ => true
  | _ => false

/-- What is wrong with a declaration whose name is taken. Nothing is said about the program. -/
def clash? : Declared → Option SemanticProblem
  | program _ => none
  | procedure token _ => some (.redeclaredProcedure token.lexeme)
  | param token _ => some (.redeclaredVariable token.lexeme)
  | var token _ => some (.redeclaredVariable token.lexeme)

/-- Parameters or variables in order. A name whose type is no type declares nothing. -/
def ofVariables (kind : Token → ScalarType → Declared) (vars : Option Variables) : List Declared :=
  ((vars.map Variables.entries).getD []).filterMap fun (name, typeToken) =>
    (ScalarType.ofKind? typeToken.kind).map (kind name)

/-- A procedure without a name declares nothing. -/
def ofProcedure (name : Token) (params : Option Variables) : List Declared :=
  if name.lexeme.isEmpty then [] else [procedure name (Walk.paramTypes params)]

end Declared

/-- How a name occurs. `resolved` is the type that the tree holds at the occurrence. -/
inductive Mention where
  | target (op : Token)
  | control (op : Token)
  | callee (supplied : Nat) (resolved : Option ScalarType)
  | operand (resolved : Option ScalarType)
  | applied (supplied : Nat) (resolved : Option ScalarType)
deriving DecidableEq, Repr

namespace Mention

/-- What is wrong with a name that is not declared. -/
def undeclared (name : String) : Mention → SemanticProblem
  | target _ | control _ => .undeclaredTarget name
  | callee _ _ => .undeclaredCallee name
  | operand _ | applied _ _ => .undeclaredOperand name

/-- The type at the node of a call, which targets do not have. -/
def resolved? : Mention → Option (Option ScalarType)
  | target _ | control _ => none
  | callee _ resolved | operand resolved | applied _ resolved => some resolved

end Mention

/-- What happens to a name. A target is mentioned first, and assigned to behind its value. -/
inductive Naming where
  | declare (declared : Declared)
  | mention (how : Mention) (token : Token)
  | assigned (token : Token)
deriving DecidableEq, Repr

/-- What happens to names and scopes. The end of the whole program is `finish`. -/
inductive Act where
  | naming (naming : Naming)
  | enter
  | leave
  | finish
deriving DecidableEq, Repr

structure Stop where
  scope : Address
  act : Act
deriving DecidableEq, Repr

abbrev Stops := List Stop

namespace Stops

def within (scope : Address) (namings : List Naming) : Stops :=
  namings.map fun naming => ⟨scope, .naming naming⟩

def enclosed (scope : Address) (inner : Stops) : Stops :=
  ⟨scope, .enter⟩ :: (inner ++ [⟨scope, .leave⟩])

end Stops

namespace Expr

mutual

def namings : Expr → List Naming
  | binary _ left right _ => left.namings ++ right.namings
  | unary _ operand => operand.namings
  | name token resolved => [.mention (.operand resolved) token]
  | call token args resolved =>
      .mention (.applied args.length resolved) token :: namingsAll args
  | literal _ => []

def namingsAll : List Expr → List Naming
  | [] => []
  | first :: others => first.namings ++ namingsAll others

end

mutual

/-- The types at the calls of an expression in order, where names count as calls. -/
def callTypes : Expr → List (Option ScalarType)
  | binary _ left right _ => left.callTypes ++ right.callTypes
  | unary _ operand => operand.callTypes
  | name _ resolved => [resolved]
  | call _ args resolved => resolved :: callTypesAll args
  | literal _ => []

def callTypesAll : List Expr → List (Option ScalarType)
  | [] => []
  | first :: others => first.callTypes ++ callTypesAll others

end

end Expr

namespace Command

/-- The value of an assignment is read before its target counts as assigned to. -/
def assignmentNamings (how : Token → Mention) (node : Assignment) : List Naming :=
  .mention (how node.op) node.target :: (node.value.namings ++ [.assigned node.target])

mutual

def namings : Command → List Naming
  | assign node => assignmentNamings .target node
  | call token args resolved =>
      .mention (.callee (args.getD []).length resolved) token :: Expr.namingsAll (args.getD [])
  | ifThen _ condition branch => condition.namings ++ branch.namings
  | ifElse _ condition branch otherwise =>
      condition.namings ++ (branch.namings ++ otherwise.namings)
  | whileDo _ condition body => condition.namings ++ body.namings
  | forDo _ start _ bound body =>
      assignmentNamings .control start ++ (bound.namings ++ body.namings)
  | block _ body => namingsAll body

def namingsAll : List Command → List Naming
  | [] => []
  | first :: others => first.namings ++ namingsAll others

end

mutual

def callTypes : Command → List (Option ScalarType)
  | assign node => node.value.callTypes
  | call _ args resolved => resolved :: Expr.callTypesAll (args.getD [])
  | ifThen _ condition branch => condition.callTypes ++ branch.callTypes
  | ifElse _ condition branch otherwise =>
      condition.callTypes ++ (branch.callTypes ++ otherwise.callTypes)
  | whileDo _ condition body => condition.callTypes ++ body.callTypes
  | forDo _ start _ bound body =>
      start.value.callTypes ++ (bound.callTypes ++ body.callTypes)
  | block _ body => callTypesAll body

def callTypesAll : List Command → List (Option ScalarType)
  | [] => []
  | first :: others => first.callTypes ++ callTypesAll others

end

end Command

namespace Program

mutual

/-- A procedure that stands in `scope`, after `index` others. Its name belongs to the scope
around it, all else to a scope of its own. -/
def procedureStops (scope : Address) (index : Nat) : Program → Stops
  | ⟨_, name, params, locals, nested, _, body⟩ =>
      Stops.within scope ((Declared.ofProcedure name params).map .declare) ++
        Stops.enclosed (index :: scope)
          (Stops.within (index :: scope)
              ((Declared.ofVariables .param params ++
                Declared.ofVariables .var locals).map .declare) ++
            (proceduresStops (index :: scope) 0 nested ++
              Stops.within (index :: scope) (Command.namingsAll body)))

def proceduresStops (scope : Address) (index : Nat) : List Program → Stops
  | [] => []
  | first :: others => first.procedureStops scope index ++ proceduresStops scope (index + 1) others

end

def itinerary (program : Program) : Stops :=
  Stops.within []
      ((.program program.name :: Declared.ofVariables .var program.locals).map .declare) ++
    (proceduresStops [] 0 program.procedures ++
      Stops.within [] (Command.namingsAll program.body)) ++
    [⟨[], .finish⟩]

mutual

/-- The types at the calls of a program or procedure, those of the procedures in it first. -/
def callTypes : Program → List (Option ScalarType)
  | ⟨_, _, _, _, nested, _, body⟩ => callTypesAll nested ++ Command.callTypesAll body

def callTypesAll : List Program → List (Option ScalarType)
  | [] => []
  | first :: others => first.callTypes ++ callTypesAll others

end

end Program

end TinyPascal
