import TinyPascal.Diagnostic.Basic
import TinyPascal.Lexer.Lexeme

/-!
# The lexer

`Reading.lookAt` says what stands at a place of the text: the next token, or the
end. A `Lexer` asks it on demand, one token at a time, and goes on answering
with the end-of-file mark once the text is used up. The mark stands right
behind the last token, not behind the blanks that follow it.
-/

namespace TinyPascal

set_option autoImplicit false

inductive Found where
  | token (token : Token) (after : Position) (rest : List Char)
  | nothing
  | unclosedComment
deriving DecidableEq, Repr

/-- What stands at a place, and the faults met on the way there. -/
structure Reading where
  faults : Diagnostics
  found : Found
deriving DecidableEq, Repr

namespace Reading

/-- A closing brace outside every comment is reported and passed over. -/
def strayBraces (here : Position) : List Char → Diagnostics
  | [] => []
  | c :: cs =>
      if c = '}' then .lexical here .unopenedComment :: strayBraces (here.step c) cs
      else strayBraces (here.step c) cs

def token (kind : Kind) (place : Position) (text rest : List Char) : Found :=
  .token ⟨kind, String.ofList text, place⟩ (place.advance text) rest

/-- What stands at `here`, where `cs` is the text from there on. -/
def lookAt (here : Position) (cs : List Char) : Reading :=
  let filler := cs.takeWhile Lexeme.isFiller
  let place := here.advance filler
  let stray := strayBraces here filler
  match cs.dropWhile Lexeme.isFiller with
  | [] => ⟨stray, .nothing⟩
  | c :: rest =>
      if c = '{' then
        match Lexeme.closeComment rest with
        | some (body, behind) => ⟨stray, token .comment place (c :: body) behind⟩
        | none => ⟨stray ++ [.lexical place .unclosedComment], .unclosedComment⟩
      else
        let lexeme := Lexeme.cut c rest
        let strange := if lexeme.kind = .unknown then [.lexical place (.unrecognized c)] else []
        ⟨stray ++ strange, token lexeme.kind place lexeme.text lexeme.rest⟩

end Reading

theorem Reading.look_at_shortens {here after : Position} {cs rest : List Char} {token : Token}
    (found : (Reading.lookAt here cs).found = .token token after rest) :
    rest.length < cs.length := by
  have split : cs.takeWhile Lexeme.isFiller ++ cs.dropWhile Lexeme.isFiller = cs :=
    List.takeWhile_append_dropWhile
  have lengths := congrArg List.length split
  rw [List.length_append] at lengths
  unfold Reading.lookAt at found
  cases remaining : cs.dropWhile Lexeme.isFiller with
  | nil => simp [remaining] at found
  | cons c behind =>
      rw [remaining, List.length_cons] at lengths
      simp only [remaining] at found
      by_cases opening : c = '{'
      · rw [if_pos opening] at found
        cases closed : Lexeme.closeComment behind with
        | none => simp [closed] at found
        | some pair =>
            obtain ⟨body, tail⟩ := pair
            simp only [closed, Reading.token, Found.token.injEq] at found
            have whole := congrArg List.length (Lexeme.close_comment_append closed)
            rw [List.length_append] at whole
            rw [← found.2.2]
            omega
      · rw [if_neg opening] at found
        simp only [Reading.token, Found.token.injEq] at found
        have whole := congrArg List.length (Lexeme.cut_append c behind)
        rw [List.length_append, List.length_cons] at whole
        have nonempty := List.length_pos_iff.mpr (Lexeme.cut_text_ne_nil c behind)
        rw [← found.2.2]
        omega

/-- Whether there may be more tokens, and if not, whether an unclosed comment
hides the end of the text. -/
inductive Status where
  | scanning | finished | truncated
deriving DecidableEq, Repr, Inhabited

/-- A lexer stands at `here`, right behind the last token it delivered, with
the text `rest` before it. Faults wait in `pending` until they are taken. -/
structure Lexer where
  here : Position
  rest : List Char
  status : Status
  pending : Diagnostics
deriving DecidableEq, Repr

namespace Lexer

def ofText (source : String) : Lexer :=
  ⟨.start, source.toList, .scanning, []⟩

def endMark (lexer : Lexer) : Token := .endOfFile lexer.here

/-- The next token, comments included, or the end-of-file mark. -/
def next (lexer : Lexer) : Token × Lexer :=
  match lexer.status with
  | .scanning =>
      let reading := Reading.lookAt lexer.here lexer.rest
      let pending := lexer.pending ++ reading.faults
      match reading.found with
      | .token token after rest => (token, ⟨after, rest, .scanning, pending⟩)
      | .nothing => (lexer.endMark, { lexer with status := .finished, pending })
      | .unclosedComment => (lexer.endMark, { lexer with status := .truncated, pending })
  | .finished | .truncated => (lexer.endMark, lexer)

def isTruncated (lexer : Lexer) : Bool := lexer.status = .truncated

def takeDiagnostics (lexer : Lexer) : Diagnostics × Lexer :=
  (lexer.pending, { lexer with pending := [] })

end Lexer

end TinyPascal
