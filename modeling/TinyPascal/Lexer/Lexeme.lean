import TinyPascal.Token.Kind

/-!
# Cutting one lexeme off a text

The first lexeme of a text is the longest prefix that belongs to a token class.
A cut returns the lexeme, its kind and the text behind it, and loses nothing:
the lexeme followed by the rest is the text that was cut.
-/

namespace TinyPascal

set_option autoImplicit false

structure Lexeme where
  kind : Kind
  text : List Char
  rest : List Char
deriving DecidableEq, Repr

namespace Lexeme

/-- Blanks are the space, the horizontal and vertical tab, the form feed, the
carriage return and the line feed. -/
def isBlank (c : Char) : Bool :=
  c = ' ' || c = '\t' || c = '\x0b' || c = '\x0c' || c = '\r' || c = '\n'

/-- What may stand between tokens: blanks, and closing braces that close
nothing. -/
def isFiller (c : Char) : Bool :=
  isBlank c || c = '}'

def isWordChar (c : Char) : Bool :=
  c.isAlphanum || c = '_'

/-- A letter and the letters, digits and underscores that follow it. -/
def word (c : Char) (cs : List Char) : Lexeme :=
  let text := c :: cs.takeWhile isWordChar
  ⟨.ofWord (String.ofList text), text, cs.dropWhile isWordChar⟩

/-- Digits, and a fraction when a point is followed by at least one more
digit. -/
def number (c : Char) (cs : List Char) : Lexeme :=
  let whole := c :: cs.takeWhile Char.isDigit
  match cs.dropWhile Char.isDigit with
  | '.' :: d :: more =>
      if d.isDigit then
        ⟨.realLit, whole ++ '.' :: d :: more.takeWhile Char.isDigit, more.dropWhile Char.isDigit⟩
      else ⟨.intLit, whole, '.' :: d :: more⟩
  | rest => ⟨.intLit, whole, rest⟩

/-- The kind of a symbol that stands alone. -/
def symbolKind : Char → Kind
  | ':' => .colon
  | '<' => .less
  | '>' => .greater
  | '+' => .plus
  | '-' => .minus
  | '*' => .times
  | '/' => .divide
  | '=' => .equal
  | ';' => .semicolon
  | '.' => .dot
  | ',' => .comma
  | '(' => .lparen
  | ')' => .rparen
  | _ => .unknown

/-- The kind of two symbols that form one operator. -/
def pairKind? : Char → Char → Option Kind
  | ':', '=' => some .assign
  | '<', '=' => some .lessEqual
  | '<', '>' => some .notEqual
  | '>', '=' => some .greaterEqual
  | _, _ => none

def symbol (c : Char) (cs : List Char) : Lexeme :=
  match cs with
  | [] => ⟨symbolKind c, [c], []⟩
  | d :: rest =>
      match pairKind? c d with
      | some kind => ⟨kind, [c, d], rest⟩
      | none => ⟨symbolKind c, [c], d :: rest⟩

/-- The lexeme that starts with `c`, neither filler nor the start of a
comment. -/
def cut (c : Char) (cs : List Char) : Lexeme :=
  if c.isAlpha then word c cs
  else if c.isDigit then number c cs
  else symbol c cs

/-- The remainder of an opened comment up to and including its closing brace,
and the text behind it. -/
def closeComment (cs : List Char) : Option (List Char × List Char) :=
  match cs.dropWhile fun c => c != '}' with
  | [] => none
  | brace :: rest => some (cs.takeWhile (fun c => c != '}') ++ [brace], rest)

theorem word_append (c : Char) (cs : List Char) :
    (word c cs).text ++ (word c cs).rest = c :: cs := by
  simp [word]

theorem number_append (c : Char) (cs : List Char) :
    (number c cs).text ++ (number c cs).rest = c :: cs := by
  have split : cs.takeWhile Char.isDigit ++ cs.dropWhile Char.isDigit = cs :=
    List.takeWhile_append_dropWhile
  unfold number
  split
  case h_1 d more behind =>
    rw [behind] at split
    by_cases digit : d.isDigit
    · have fraction : more.takeWhile Char.isDigit ++ more.dropWhile Char.isDigit = more :=
        List.takeWhile_append_dropWhile
      simp only [digit, ↓reduceIte, List.cons_append, List.append_assoc, fraction, split]
    · simp [digit, split]
  case h_2 => simp [split]

theorem symbol_append (c : Char) (cs : List Char) :
    (symbol c cs).text ++ (symbol c cs).rest = c :: cs := by
  cases cs with
  | nil => rfl
  | cons d rest =>
      unfold symbol
      cases pair : pairKind? c d <;> simp [pair]

theorem cut_append (c : Char) (cs : List Char) :
    (cut c cs).text ++ (cut c cs).rest = c :: cs := by
  unfold cut
  split
  · exact word_append c cs
  · split
    · exact number_append c cs
    · exact symbol_append c cs

theorem cut_text_ne_nil (c : Char) (cs : List Char) : (cut c cs).text ≠ [] := by
  unfold cut
  split
  · simp [word]
  · split
    · unfold number
      split
      · split <;> simp
      · simp
    · unfold symbol
      split
      · simp
      · split <;> simp

theorem close_comment_append {cs body rest : List Char}
    (closed : closeComment cs = some (body, rest)) : body ++ rest = cs := by
  have split : (cs.takeWhile fun c => c != '}') ++ (cs.dropWhile fun c => c != '}') = cs :=
    List.takeWhile_append_dropWhile
  unfold closeComment at closed
  split at closed
  · cases closed
  · next brace behind found =>
    cases closed
    rw [found] at split
    simpa using split

end Lexeme

end TinyPascal
