import TinyPascal.Parser.Program

/-!
# Recording what a parse consumes

A recorder keeps the consumed tokens and the comments, each in the order in
which they came, and puts them back together.
-/

namespace TinyPascal

set_option autoImplicit false

structure Recorder where
  tokens : List Token
  comments : List Token
deriving DecidableEq, Repr, Inhabited

namespace Recorder

def empty : Recorder := ⟨[], []⟩

def writeToken (recorder : Recorder) (token : Token) : Recorder :=
  { recorder with tokens := recorder.tokens ++ [token] }

def addComment (recorder : Recorder) (comment : Token) : Recorder :=
  { recorder with comments := recorder.comments ++ [comment] }

def ofEvents (events : List ParseEvent) : Recorder :=
  ⟨events.filterMap ParseEvent.consumed?, events.filterMap ParseEvent.comment?⟩

/-- Puts each comment before the first token that starts behind it. -/
def interleave : List Token → List Token → List Token
  | [], comments => comments
  | token :: tokens, comments =>
      comments.takeWhile (fun comment => comment.offset < token.offset) ++
        token :: interleave tokens (comments.dropWhile fun comment => comment.offset < token.offset)

def interleaved (recorder : Recorder) : List Token :=
  interleave recorder.tokens recorder.comments

/-- The consumed text without comments, a single blank between tokens. -/
def sourceText (recorder : Recorder) : String :=
  " ".intercalate ((recorder.tokens.filter fun token => token.kind != .eof).map Token.lexeme)

end Recorder

def Parse.recorder (parse : Parse) : Recorder := .ofEvents parse.events

end TinyPascal
