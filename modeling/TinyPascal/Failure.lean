import TinyPascal.Token.Basic

/-!
# Failures

A failure ends the work at hand, unlike a diagnostic, which is only reported.
-/

namespace TinyPascal

set_option autoImplicit false

inductive ReadFault where
  | notFound
  | invalidUtf8
deriving DecidableEq, Repr

def ReadFault.message : ReadFault → String
  | notFound => "No such file or directory (os error 2)"
  | invalidUtf8 => "stream did not contain valid UTF-8"

inductive Failure where
  | fileRead (text : String)
  | io (fault : ReadFault)
  | syntactic (line column : Nat) (text : String)
  | internal (text : String)
deriving DecidableEq, Repr

namespace Failure

def atToken (token : Token) (text : String) : Failure :=
  syntactic token.line token.column text

def isSyntactic : Failure → Bool
  | syntactic .. => true
  | _ => false

def message : Failure → String
  | fileRead text => "File read error: " ++ text
  | io fault => "I/O error: " ++ fault.message
  | syntactic line column text =>
      "Syntax error at line " ++ toString line ++ " column " ++ toString column ++ ": " ++ text
  | internal text => "Internal error: " ++ text

end Failure

end TinyPascal
