import TinyPascal.Proofs.Outcome

/-!
# What a parse reports and passes on

The diagnostics of a parse come from two phases: faults of the text, found while it is cut
into tokens, and remarks on its grammar. Consumed tokens and comments are passed on in the
order in which they are met.
-/

namespace TinyPascal

set_option autoImplicit false

/-- The findings of one phase, in the order in which they were reported. -/
def Diagnostics.ofPhase (phase : Phase) (found : Diagnostics) : Diagnostics :=
  found.filter fun diagnostic => diagnostic.phase = phase

def Diagnostic.isAt (token : Token) (diagnostic : Diagnostic) : Bool :=
  diagnostic.line = token.line && diagnostic.column = token.column

theorem Diagnostic.is_at_about (severity : Severity) (token : Token) (problem : Problem) :
    (Diagnostic.about severity token problem).isAt token = true := by
  simp [about, isAt]

namespace ParseEvent

def fault? : ParseEvent → Option Diagnostic
  | reported diagnostic => if diagnostic.phase = .lexical then some diagnostic else none
  | _ => none

def isForwarded : ParseEvent → Bool
  | comment _ | consumed _ => true
  | _ => false

theorem filter_map_of_phase {phase : Phase} {pick : ParseEvent → Option Diagnostic}
    (picks : ∀ event, pick event = event.diagnostic?.filter fun found => found.phase = phase)
    (events : List ParseEvent) :
    events.filterMap pick = Diagnostics.ofPhase phase (events.filterMap diagnostic?) := by
  rw [Diagnostics.ofPhase, List.filter_filterMap]
  exact congrArg (List.filterMap · events) (funext picks)

theorem remark_eq_filter (event : ParseEvent) :
    event.remark? = event.diagnostic?.filter fun found => found.phase = .syntactic := by
  cases event with
  | reported diagnostic => simp [remark?, diagnostic?, Option.filter]
  | _ => rfl

theorem fault_eq_filter (event : ParseEvent) :
    event.fault? = event.diagnostic?.filter fun found => found.phase = .lexical := by
  cases event with
  | reported diagnostic => simp [fault?, diagnostic?, Option.filter]
  | _ => rfl

end ParseEvent

namespace ParseState

def faults (s : ParseState) : Diagnostics := s.trace.reverse.filterMap ParseEvent.fault?

def forwarded (s : ParseState) : List ParseEvent := s.trace.reverse.filter ParseEvent.isForwarded

variable {s : ParseState}

theorem advance_of_unread {arrival : Arrival} {rest : List Arrival}
    (unread : s.unread = arrival :: rest) :
    s.advance =
      { s with
        unread := rest
        hadError := s.hadError || faulty (pullEvents s.ending rest)
        trace := .consumed arrival.token :: ((pullEvents s.ending rest).reverse ++ s.trace) } := by
  simp only [advance, unread, observe, faulty]

theorem faults_advance {arrival : Arrival} {rest : List Arrival}
    (unread : s.unread = arrival :: rest) :
    s.advance.faults = s.faults ++ (pullEvents s.ending rest).filterMap ParseEvent.fault? := by
  rw [advance_of_unread unread]
  simp [faults, ParseEvent.fault?]

theorem forwarded_advance {arrival : Arrival} {rest : List Arrival}
    (unread : s.unread = arrival :: rest) :
    s.advance.forwarded = s.forwarded ++
      ((pullEvents s.ending rest).filter ParseEvent.isForwarded ++ [.consumed arrival.token]) := by
  rw [advance_of_unread unread]
  simp [forwarded, ParseEvent.isForwarded]

theorem faults_refuse (s : ParseState) (problem : SyntacticProblem) :
    (s.refuse problem).faults = s.faults := by
  unfold refuse faults
  simp only []
  split
  · rfl
  · simp [ParseEvent.fault?, Diagnostic.about, Diagnostic.phase, Problem.phase]

theorem forwarded_refuse (s : ParseState) (problem : SyntacticProblem) :
    (s.refuse problem).forwarded = s.forwarded := by
  unfold refuse forwarded
  simp only []
  split
  · rfl
  · simp [ParseEvent.isForwarded]

theorem faults_warn (s : ParseState) (token : Token) (problem : SyntacticProblem) :
    (s.warn token problem).faults = s.faults := by
  simp [warn, faults, ParseEvent.fault?, Diagnostic.about, Diagnostic.phase, Problem.phase]

theorem forwarded_warn (s : ParseState) (token : Token) (problem : SyntacticProblem) :
    (s.warn token problem).forwarded = s.forwarded := by
  simp [warn, forwarded, ParseEvent.isForwarded]

end ParseState

namespace Parse

def forwarded (parse : Parse) : List ParseEvent := parse.events.filter ParseEvent.isForwarded

theorem remarks_eq (parse : Parse) : parse.remarks = parse.diagnostics.ofPhase .syntactic :=
  ParseEvent.filter_map_of_phase ParseEvent.remark_eq_filter parse.events

theorem faults_eq (parse : Parse) :
    parse.events.filterMap ParseEvent.fault? = parse.diagnostics.ofPhase .lexical :=
  ParseEvent.filter_map_of_phase ParseEvent.fault_eq_filter parse.events

end Parse

end TinyPascal
