import TinyPascal.Token.Kind

/-!
# Scalar types

The three declared types, what an operand of an expression can be, and which
operands a place of a given type takes.
-/

namespace TinyPascal

set_option autoImplicit false

inductive ScalarType where
  | integer | real | boolean
deriving DecidableEq, Repr, Inhabited

namespace ScalarType

def name : ScalarType → String
  | integer => "integer"
  | real => "real"
  | boolean => "boolean"

def all : List ScalarType := [.integer, .real, .boolean]

def ofName? (word : String) : Option ScalarType :=
  all.find? fun type => type.name = word

def ofKind? : Kind → Option ScalarType
  | .integerKw => some integer
  | .realKw => some real
  | .booleanKw => some boolean
  | _ => none

end ScalarType

/-- A leaf of an expression as the checker sees it: a variable of a declared
type, or a literal. -/
inductive Operand where
  | typed (type : ScalarType)
  | intLit
  | realLit
  | boolLit
deriving DecidableEq, Repr

namespace Operand

def ofLiteral? : Kind → Option Operand
  | .intLit => some intLit
  | .realLit => some realLit
  | .trueLit | .falseLit => some boolLit
  | _ => none

def type : Operand → ScalarType
  | typed type => type
  | intLit => .integer
  | realLit => .real
  | boolLit => .boolean

end Operand

/-- Integers widen to reals; nothing narrows, and truth values meet only truth
values. -/
def ScalarType.accepts (expected : ScalarType) (actual : Operand) : Bool :=
  match expected, actual.type with
  | .integer, .integer => true
  | .real, .real => true
  | .real, .integer => true
  | .boolean, .boolean => true
  | _, _ => false

end TinyPascal
