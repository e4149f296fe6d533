/-!
# Places in a source text

A place is counted three ways at once: by line, by column within the line, and
by bytes from the start of the text. Lines and columns start at one and count
characters; the offset starts at zero and counts the bytes of the UTF-8 form.
-/

namespace TinyPascal

set_option autoImplicit false

structure Position where
  line : Nat
  column : Nat
  offset : Nat
deriving DecidableEq, Repr, Inhabited

namespace Position

def start : Position := ⟨1, 1, 0⟩

/-- The place after one more character. Only a line feed opens a new line. -/
def step (place : Position) (c : Char) : Position :=
  if c = '\n' then ⟨place.line + 1, 1, place.offset + c.utf8Size⟩
  else ⟨place.line, place.column + 1, place.offset + c.utf8Size⟩

def advance (place : Position) (text : List Char) : Position :=
  text.foldl step place

@[simp]
theorem advance_nil (place : Position) : place.advance [] = place := rfl

@[simp]
theorem advance_cons (place : Position) (c : Char) (text : List Char) :
    place.advance (c :: text) = (place.step c).advance text := rfl

end Position

end TinyPascal
