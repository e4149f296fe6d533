import TinyPascal.ScalarType
import TinyPascal.Token.Basic

/-!
# Scopes

A scope lists the names declared in it, in the order of their declaration, each
with what it stands for.
-/

namespace TinyPascal

set_option autoImplicit false

inductive Meaning where
  | variableOf (type : ScalarType)
  | procedureOn (params : List ScalarType)
  | programName
deriving DecidableEq, Repr

/-- A declared name. `token` is where it was declared. -/
structure Entry where
  token : Token
  meaning : Meaning
  initialized : Bool
  used : Bool
deriving DecidableEq, Repr

namespace Entry

/-- A variable holds nothing until it is assigned to. -/
def ofVariable (token : Token) (type : ScalarType) : Entry :=
  ⟨token, .variableOf type, false, false⟩

/-- A parameter is given its value by the caller. -/
def ofParam (token : Token) (type : ScalarType) : Entry :=
  ⟨token, .variableOf type, true, false⟩

def ofProcedure (token : Token) (params : List ScalarType) : Entry :=
  ⟨token, .procedureOn params, true, false⟩

/-- The name of the program never counts as unused. -/
def ofProgram (token : Token) : Entry :=
  ⟨token, .programName, true, true⟩

def type? (entry : Entry) : Option ScalarType :=
  match entry.meaning with
  | .variableOf type => some type
  | _ => none

def params? (entry : Entry) : Option (List ScalarType) :=
  match entry.meaning with
  | .procedureOn params => some params
  | _ => none

def isProcedure (entry : Entry) : Bool := entry.params?.isSome

/-- How many arguments a call needs; none where nothing can be called. -/
def arity (entry : Entry) : Nat := (entry.params?.getD []).length

end Entry

/-- The names of one scope in the order of their declaration. -/
abbrev Scope := List (String × Entry)

namespace Scope

def get? (scope : Scope) (name : String) : Option Entry := scope.lookup name

def contains (scope : Scope) (name : String) : Bool := (scope.get? name).isSome

def push (scope : Scope) (name : String) (entry : Entry) : Scope := scope ++ [(name, entry)]

/-- Changes what is known about `name`, and nothing else. -/
def modify (change : Entry → Entry) (name : String) (scope : Scope) : Scope :=
  scope.map fun (key, entry) => if key = name then (key, change entry) else (key, entry)

/-- The names that were never used, in the order of their declaration. -/
def unused (scope : Scope) : Scope := scope.filter fun (_, entry) => !entry.used

end Scope

end TinyPascal
