import TinyPascal.Lexer.Basic

/-!
# Scanning a whole text

A scan lists every token of a text with the faults met on the way to it. The
end-of-file mark stands apart from the tokens, because it is none: it has no
text of its own.
-/

namespace TinyPascal

set_option autoImplicit false

/-- A token, and the faults met between the previous token and its own end. -/
structure Item where
  token : Token
  faults : Diagnostics
deriving DecidableEq, Repr, Inhabited

structure Scan where
  items : List Item
  ending : Item
  truncated : Bool
deriving DecidableEq, Repr, Inhabited

namespace Scan

def readFrom (here : Position) (cs : List Char) : Scan :=
  let reading := Reading.lookAt here cs
  match found : reading.found with
  | .token token after rest =>
      have := Reading.look_at_shortens found
      let following := readFrom after rest
      { following with items := ⟨token, reading.faults⟩ :: following.items }
  | .nothing => ⟨[], ⟨.endOfFile here, reading.faults⟩, false⟩
  | .unclosedComment => ⟨[], ⟨.endOfFile here, reading.faults⟩, true⟩
termination_by cs.length

def ofText (source : String) : Scan := readFrom .start source.toList

/-- All tokens in order, comments and the end-of-file mark included. -/
def tokens (scan : Scan) : List Token :=
  scan.items.map Item.token ++ [scan.ending.token]

def diagnostics (scan : Scan) : Diagnostics :=
  scan.items.flatMap Item.faults ++ scan.ending.faults

end Scan

end TinyPascal
