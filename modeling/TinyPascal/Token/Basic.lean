import TinyPascal.Text.Position
import TinyPascal.Token.Kind

/-!
# Tokens

A token is a kind, the text it was read from, and the place of its first
character.
-/

namespace TinyPascal

set_option autoImplicit false

structure Token where
  kind : Kind
  lexeme : String
  position : Position
deriving DecidableEq, Repr, Inhabited

namespace Token

def line (token : Token) : Nat := token.position.line

def column (token : Token) : Nat := token.position.column

def offset (token : Token) : Nat := token.position.offset

/-- An empty token of the given kind, used in place of one the text lacks. It
stands where the token found instead stands. -/
def standIn (kind : Kind) (found : Token) : Token :=
  ⟨kind, "", found.position⟩

/-- The stand-in for a token of which not even the kind is known. -/
def missing (found : Token) : Token :=
  standIn .unknown found

/-- The mark for the end of a text, placed at `position`. -/
def endOfFile (position : Position) : Token :=
  ⟨.eof, "", position⟩

/-- `line:column Kind 'lexeme'` -/
def describe (token : Token) : String :=
  toString token.line ++ ":" ++ toString token.column ++ " " ++ token.kind.name ++
    " '" ++ token.lexeme ++ "'"

end Token

end TinyPascal
