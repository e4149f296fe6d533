import TinyPascal.Parser.Stream

/-!
# Where a parse stands

The parser looks at the first unread token. Tokens are pulled one ahead: by the
time a token is looked at, the events of the token behind it have happened too.
The end of the text is no token; it is looked at when nothing is left to read,
and never consumed.
-/

namespace TinyPascal

set_option autoImplicit false

/-- `trace` lists what has happened, latest first. `hadError` is set by every
error, also by one that is not reported. `panicking` holds from an error until
a place is found from which reading can go on. -/
structure ParseState where
  unread : List Arrival
  ending : Arrival
  truncated : Bool
  panicking : Bool
  hadError : Bool
  trace : List ParseEvent
deriving DecidableEq, Repr, Inhabited

namespace ParseState

/-- The first unread token, or the end-of-file mark. -/
def current (s : ParseState) : Token :=
  match s.unread with
  | [] => s.ending.token
  | arrival :: _ => arrival.token

/-- Lets `events` happen. A fault among them makes the text erroneous. -/
def observe (s : ParseState) (events : List ParseEvent) : ParseState :=
  { s with
    trace := events.reverse ++ s.trace
    hadError := s.hadError || events.any fun event => event.diagnostic?.isSome }

/-- What happens when the token behind the first of `unread` is pulled. The end
of the text is pulled once. -/
def pullEvents (ending : Arrival) : List Arrival → List ParseEvent
  | [] => []
  | [_] => ending.events
  | _ :: second :: _ => second.events

/-- The first two tokens are pulled before the first is looked at. -/
def start (stream : Stream) : ParseState :=
  let s : ParseState := ⟨stream.arrivals, stream.ending, stream.truncated, false, false, []⟩
  match stream.arrivals with
  | [] => s.observe stream.ending.events
  | first :: _ => (s.observe first.events).observe (pullEvents stream.ending stream.arrivals)

/-- Consumes the first unread token. The next one is pulled beforehand. -/
def advance (s : ParseState) : ParseState :=
  match s.unread with
  | [] => s
  | arrival :: rest =>
      let pulled := s.observe (pullEvents s.ending rest)
      { pulled with unread := rest, trace := .consumed arrival.token :: pulled.trace }

/-- Records an error at the token now looked at and starts to panic. At the end
of a truncated text the error only repeats the fault that was reported there,
and is kept silent. -/
def refuse (s : ParseState) (problem : SyntacticProblem) : ParseState :=
  let silent := s.truncated && s.unread.isEmpty
  { s with
    panicking := true
    hadError := true
    trace := if silent then s.trace
      else .reported (.about .error s.current (.syntactic problem)) :: s.trace }

/-- Reports a matter of style. It makes no text erroneous. -/
def warn (s : ParseState) (token : Token) (problem : SyntacticProblem) : ParseState :=
  { s with trace := .reported (.about .warning token (.syntactic problem)) :: s.trace }

def calm (s : ParseState) : ParseState := { s with panicking := false }

/-- Discards tokens up to the first of a kind in `stops`. The end-of-file mark
is one of the places at which every recovery stops. It is not a kind in `stops`,
because it is no token that could be unread: that nothing is left to read stands
for it, and so the skipping ends there at the latest. -/
def skipTo (s : ParseState) (stops : Kind → Bool) : ParseState :=
  (s.unread.takeWhile fun arrival => !stops arrival.token.kind).foldl (fun s _ => s.advance) s

@[simp]
theorem unread_advance (s : ParseState) : s.advance.unread = s.unread.tail := by
  unfold advance
  cases unread : s.unread <;> simp [unread]

@[simp]
theorem unread_refuse (s : ParseState) (problem : SyntacticProblem) :
    (s.refuse problem).unread = s.unread := rfl

@[simp]
theorem unread_warn (s : ParseState) (token : Token) (problem : SyntacticProblem) :
    (s.warn token problem).unread = s.unread := rfl

@[simp]
theorem unread_calm (s : ParseState) : s.calm.unread = s.unread := rfl

theorem length_unread_foldl_advance (skipped : List Arrival) (s : ParseState) :
    (skipped.foldl (fun s _ => s.advance) s).unread.length ≤ s.unread.length := by
  induction skipped generalizing s with
  | nil => exact Nat.le_refl _
  | cons arrival others ih =>
      refine Nat.le_trans (ih s.advance) ?_
      rw [unread_advance, List.length_tail]
      exact Nat.sub_le _ _

theorem length_unread_skip_to (s : ParseState) (stops : Kind → Bool) :
    (s.skipTo stops).unread.length ≤ s.unread.length :=
  length_unread_foldl_advance _ s

end ParseState

end TinyPascal
